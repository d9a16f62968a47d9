/-
Libraries: everything that is declared before a process starts. Descriptors,
protocols, conformances and candidates are fixed for the whole run, and so are
the programs they bring along.
-/
import TypeRecords.Program

namespace TypeRecords

-- ====================================================== descriptors

/-- How the type of a stored field is found. -/
inductive FieldType (σ : Type) : Type 1
  /-- It is an argument of the owner. -/
  | argument (index : Nat)
  /-- It is always the same record. -/
  | fixed (record : RecordId)
  /-- It is computed from the owner's arguments. -/
  | computed (accessor : RegistryId → Request → List RecordId → Program σ Response)

structure Field (σ : Type) : Type 1 where
  name : String
  type : FieldType σ

/-- How records of a descriptor are completed. -/
inductive Completion (σ : Type) : Type 1
  /-- By laying out the fields. -/
  | structLayout
  /-- By a callback, which is run again and again and says what stops it. -/
  | callback (step : RegistryId → RecordId → Program σ (Option Dependency))

/-- A generic type, as it is declared. -/
structure Descriptor (σ : Type) : Type 1 where
  name : String
  kind : Kind
  parameters : Nat
  fields : List (Field σ)
  /-- A layout that is known without completion. -/
  layout : Option Layout
  /-- Data words every record gets a copy of. -/
  words : List Nat
  /-- Runs once on a fresh record. -/
  instantiate : Option (RegistryId → RecordId → Program σ Unit)
  /-- `none` if records need no completion of their own. -/
  completion : Option (Completion σ)

/-- Offset and data words of each record. -/
def Descriptor.extraWords {σ : Type} (d : Descriptor σ) : Nat := d.fields.length + d.words.length

/-- The fresh record of a descriptor applied to arguments. -/
def Descriptor.record {σ : Type} (d : Descriptor σ) (id : DescriptorId)
    (arguments : List RecordId) : Record :=
  { kind := d.kind
    origin := .generic id
    name := d.name
    layout := d.layout.bind Layout.visible?
    arguments := arguments
    offsets := List.replicate d.fields.length 0
    words := d.words }

def Record.ofElements (elements : List RecordId) : Record :=
  { kind := .tuple
    origin := .tuple
    name := ""
    arguments := elements
    offsets := List.replicate elements.length 0 }

-- ====================================================== the library

/-- A conformance, as it is declared. -/
structure Conformance (σ : Type) : Type 1 where
  recipe : Recipe
  /-- Has the last word on each table. -/
  instantiator : Option (RegistryId → RecordId → List TableId → Program σ Unit)

/-- Everything that is declared before a process starts. -/
structure Library (σ : Type) : Type 1 where
  descriptors : Array (Descriptor σ)
  protocols : Array Protocol
  conformances : Array (Conformance σ)
  /-- The initializer of a candidate, if it has one. -/
  initializer : CandidateId → Option (RegistryId → Program σ Unit)
  /-- What a hook does with the report of a fault. -/
  hook : HookId → Report → Program σ Unit

namespace Library

variable {σ : Type}

def descriptorOf? (lib : Library σ) (r : Record) : Option (Descriptor σ) :=
  match r.origin with
  | .generic id => lib.descriptors[id]?
  | _ => none

/-- Whether a conformance needs no tables of its own for a type. -/
def isTrivial (lib : Library σ) (c : Conformance σ) : Bool :=
  c.instantiator.isNone &&
    match lib.protocols[c.recipe.protocol]? with
    | some p => c.recipe.isPlain p
    | none => false

end Library

end TypeRecords
