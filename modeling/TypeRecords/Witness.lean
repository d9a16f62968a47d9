/-
Protocols, conformances and witness tables.

A conformance says how the table of a type is filled: the slots of a pattern,
then, for requirements that are functions, witnesses registered for that very
requirement or the requirement's default, and last whatever a callback
writes. `Draft` is a table while it is filled; a slot is never emptied again.
-/
import TypeRecords.Stage

namespace TypeRecords

/-- Witness tables are numbered in the order they come into being. -/
abbrev TableId := Nat

/-- Protocols are numbered as they are declared. -/
abbrev ProtocolId := Nat

/-- Witness functions are known by number; what they compute is not the
table's business. -/
abbrev FunctionId := Nat

-- ====================================================== protocols

/-- What a protocol asks for. -/
inductive RequirementKind
  | baseProtocol
  | method
  | constructor
  | getter
  | setter
  | readCoroutine
  | modifyCoroutine
  | associatedType
  | associatedConformance
  deriving DecidableEq, Inhabited

namespace RequirementKind

/-- Whether the requirement is met by a function. Only such requirements have
defaults and witnesses registered one by one. -/
def isFunction : RequirementKind → Bool
  | method | constructor | getter | setter | readCoroutine | modifyCoroutine => true
  | baseProtocol | associatedType | associatedConformance => false

def ofName? : String → Option RequirementKind
  | "base_protocol" => some baseProtocol
  | "method" => some method
  | "init" => some constructor
  | "getter" => some getter
  | "setter" => some setter
  | "read_coroutine" => some readCoroutine
  | "modify_coroutine" => some modifyCoroutine
  | "associated_type" => some associatedType
  | "associated_conformance" => some associatedConformance
  | _ => none

end RequirementKind

structure Requirement where
  name : String
  kind : RequirementKind
  /-- Used where a conformance provides nothing. -/
  default : Option FunctionId
  deriving DecidableEq, Inhabited

/-- A protocol: its requirements in table order. -/
structure Protocol where
  name : String
  requirements : List Requirement
  deriving DecidableEq, Inhabited

/-- The place of the first requirement of that name. -/
def Protocol.position? (p : Protocol) (name : String) : Option Nat :=
  p.requirements.findIdx? (·.name == name)

-- ====================================================== tables

/-- What stands in a slot of a witness table. -/
inductive Witness
  | base (table : TableId)
  | function (f : FunctionId)
  | associatedType (record : RecordId)
  | associatedConformance (table : TableId)
  deriving DecidableEq

/-- A finished witness table. -/
structure WitnessTable where
  protocol : ProtocolId
  /-- The type it was built for; `none` for a table that was declared. -/
  conforming : Option RecordId
  witnesses : List Witness
  /-- Words that belong to the table's functions. -/
  words : List Nat
  deriving DecidableEq, Inhabited

-- ====================================================== conformances

/-- A witness for one requirement, which is found by identity and not by
name. -/
structure Resilient where
  protocol : ProtocolId
  index : Nat
  function : FunctionId
  deriving DecidableEq

/-- How the tables of a conformance are filled, the callback apart. -/
structure Recipe where
  protocol : ProtocolId
  /-- The table that holds the pattern. -/
  pattern : TableId
  /-- Witnesses for the first requirements. -/
  prefilled : List Witness
  resilient : List Resilient
  /-- Words reserved in each table. -/
  privateWords : Nat
  deriving DecidableEq, Inhabited

namespace Recipe

/-- Whether the pattern itself can serve as the table of every type, if no
callback has the last word. -/
def isPlain (c : Recipe) (p : Protocol) : Bool :=
  c.resilient.isEmpty && c.privateWords == 0 &&
    p.requirements.length ≤ c.prefilled.length

/-- What stands in slot `index` before the callback runs. -/
def initial (c : Recipe) (index : Nat) (r : Requirement) : Option Witness :=
  match c.prefilled[index]? with
  | some w => some w
  | none =>
    if r.kind.isFunction then
      let registered :=
        (c.resilient.find? fun w => w.protocol == c.protocol && w.index == index).map (·.function)
      (registered.or r.default).map .function
    else none

def blockSize (c : Recipe) (p : Protocol) : Nat :=
  48 + 8 * c.privateWords + 16 * p.requirements.length

end Recipe

-- ====================================================== drafts

/-- A table while it is filled. -/
structure Draft where
  protocol : ProtocolId
  slots : List (Option Witness)
  words : List Nat
  deriving DecidableEq, Inhabited

namespace Draft

/-- The draft a conformance starts with. -/
def start (c : Recipe) (p : Protocol) : Draft :=
  ⟨c.protocol, p.requirements.mapIdx c.initial, List.replicate c.privateWords 0⟩

/-- What stands in a slot. -/
def get? (d : Draft) (index : Nat) : Option Witness := (d.slots[index]?).join

/-- Fills a slot; says whether there is one. -/
def set (d : Draft) (index : Nat) (w : Witness) : Draft × Bool :=
  ({ d with slots := d.slots.set index (some w) }, index < d.slots.length)

/-- Stores a private word; says whether there is one. -/
def storeWord (d : Draft) (index value : Nat) : Draft × Bool :=
  ({ d with words := d.words.set index value }, index < d.words.length)

/-- The first requirement, in table order, whose slot is empty. -/
def firstEmpty? (d : Draft) (p : Protocol) : Option Requirement :=
  ((d.slots.zip p.requirements).find? (·.1.isNone)).map (·.2)

/-- The witnesses, in table order. -/
def witnesses (d : Draft) : List Witness := d.slots.filterMap id

end Draft

end TypeRecords
