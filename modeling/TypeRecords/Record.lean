/-
Type records: what is known about one type.

A record is created with its arguments and never loses or changes them;
layout, offsets, superclass and data words are filled in later. Records refer
to each other by number. A record is numbered after its arguments, so the
name of a record, which is spelled with the names of its arguments, is a
recursion on the number.
-/
import TypeRecords.Layout
import TypeRecords.Stage

namespace TypeRecords

/-- What sort of type a record describes. -/
inductive Kind
  /-- A value type with stored fields. -/
  | struct
  /-- A value type with cases. -/
  | enum
  /-- A reference type, perhaps with a superclass. -/
  | object
  /-- The product of its elements. -/
  | tuple
  /-- A type whose definition lives elsewhere. -/
  | foreign
  /-- A scalar. -/
  | builtin
  deriving DecidableEq, Inhabited

/-- How a kind is written. -/
def Kind.name : Kind → String
  | struct => "Struct"
  | enum => "Enum"
  | object => "Class"
  | tuple => "Tuple"
  | foreign => "Foreign"
  | builtin => "Builtin"

/-- Descriptors are numbered as they are declared. -/
abbrev DescriptorId := Nat

/-- What a record was made from. -/
inductive Origin
  /-- It was there from the start and needs no completion. -/
  | fixed
  /-- A descriptor applied to arguments. -/
  | generic (descriptor : DescriptorId)
  /-- A list of elements. -/
  | tuple
  deriving DecidableEq, Inhabited

/-- How an origin is written. -/
def Origin.name : Origin → String
  | fixed => "Static"
  | generic _ => "Generic"
  | tuple => "Tuple"

/-- What is known about a type. -/
structure Record where
  kind : Kind
  origin : Origin
  /-- The name without arguments. -/
  name : String
  superclass : Option RecordId := none
  layout : Option Layout := none
  /-- Generic arguments, or the elements of a tuple. -/
  arguments : List RecordId := []
  /-- One word for each field or element. -/
  offsets : List Nat := []
  /-- Data words copied from the descriptor. -/
  words : List Nat := []
  deriving DecidableEq, Inhabited

namespace Record

/-- A scalar that is there from the start. -/
def ofScalar (name : String) (layout : Layout) : Record :=
  { kind := .builtin, origin := .fixed, name, layout := layout.visible? }

/-- A candidate's own record. Its layout may come later. -/
def ofForeign (name : String) (layout : Option Layout) : Record :=
  { kind := .foreign, origin := .fixed, name, layout := layout.bind Layout.visible? }

/-- The tuple without elements. -/
def emptyTuple : Record :=
  { kind := .tuple, origin := .fixed, name := "()", layout := some .empty }

/-- Publishes a layout. It replaces the one before. -/
def publish (r : Record) (l : Layout) : Record := { r with layout := some l.stored }

/-- Writes the offsets of an aggregate over the offset words. -/
def writeOffsets (r : Record) (offsets : List Nat) : Record :=
  { r with offsets := offsets.take r.offsets.length ++ r.offsets.drop offsets.length }

/-- Records are kept for ever in memory that is never moved, behind a header;
this is the size of the block. -/
def blockSize (r : Record) : Nat :=
  96 + 8 * (r.arguments.length + r.offsets.length + r.words.length)

/-- What a record refers to as a type: its superclass if it is a class, then
its arguments. The types of its fields do not count. -/
def referents (r : Record) : List RecordId :=
  match r.kind, r.superclass with
  | .object, some s => s :: r.arguments
  | _, _ => r.arguments

end Record

-- ====================================================== all records

/-- All records of the process, in the order they came into being. -/
abbrev Records := Array Record

namespace Records

/-- The scalars and the empty tuple, which every process starts with. -/
def builtins : Records := #[
  .ofScalar "Int8" (.scalar 1),
  .ofScalar "Int16" (.scalar 2),
  .ofScalar "Int32" (.scalar 4),
  .ofScalar "Int64" (.scalar 8),
  .ofScalar "Float" (.scalar 4),
  .ofScalar "Double" (.scalar 8),
  .ofScalar "Bool" (.scalar 1),
  .ofScalar "RawPointer" (.scalar 8),
  .ofScalar "NativeObject" .reference,
  .emptyTuple]

/-- The number of the empty tuple. -/
def emptyTuple : RecordId := 9

/-- The builtin of that name. -/
def builtin? (name : String) : Option RecordId := builtins.findIdx? (·.name == name)

/-- Whether a record is one of those every process starts with. -/
def isBuiltin (id : RecordId) : Bool := id < builtins.size

/-- What a record refers to. -/
def referents (rs : Records) (id : RecordId) : List RecordId :=
  match rs[id]? with
  | some r => r.referents
  | none => []

/-- The arguments of a record. -/
def argumentsOf (rs : Records) (id : RecordId) : List RecordId :=
  match rs[id]? with
  | some r => r.arguments
  | none => []

/-- The layout of a record, once it is published. -/
def layoutOf (rs : Records) (id : RecordId) : Option Layout := rs[id]?.bind (·.layout)

/-- The name of a type with the names of its arguments. A record is only ever
created from records that are already there, so arguments have smaller
numbers and the check below never fails on a record that was created. -/
def display (rs : Records) (id : RecordId) : String :=
  match rs[id]? with
  | none => ""
  | some r =>
    let names := r.arguments.map fun a => if _h : a < id then display rs a else ""
    let list := String.intercalate ", " names
    if r.kind = .tuple then "(" ++ list ++ ")"
    else if r.arguments = [] then r.name
    else r.name ++ "<" ++ list ++ ">"
termination_by id

/-- The wording of a dependency. -/
def displayDependency (rs : Records) (d : Dependency) : String :=
  d.required.phrase ++ " of " ++ rs.display d.target

end Records

end TypeRecords
