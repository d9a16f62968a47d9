/-
Storage layouts and the sequential layout of an aggregate.

An aggregate places its fields one after the other, each at the next offset
that suits the field's alignment. `Layout.place` is that walk; it is a plain
recursion on the fields, so the offsets of a prefix of the fields are a prefix
of the offsets.
-/

namespace TypeRecords

/-- The bit formula for rounding up. It is the least multiple of `align` at or
above `value` when `align` is a power of two; for other alignments from one
upwards it still never falls below `value`. -/
def roundUp (value align : Nat) : Nat :=
  let top := value + align - 1
  top - (top &&& (align - 1))

/-- Size, alignment and stride of a type's values, and whether they are plain
data that may be copied bit by bit. -/
structure Layout where
  size : Nat
  align : Nat
  stride : Nat
  plain : Bool
  deriving DecidableEq, Inhabited

namespace Layout

/-- The layout with the stride that follows from size and alignment. Array
elements are never on top of each other, so the stride is at least one. -/
def of (size align : Nat) (plain : Bool) : Layout :=
  let stride := roundUp size align
  ⟨size, align, if stride = 0 then 1 else stride, plain⟩

def empty : Layout := of 0 1 true

/-- One machine word that refers to an object. -/
def reference : Layout := of 8 8 false

/-- Plain data aligned to its own size. -/
def scalar (size : Nat) : Layout := of size size true

/-- An alignment of zero counts as one. -/
def fieldAlign (l : Layout) : Nat := max l.align 1

/-- The offsets of `fields` when the first free byte is `free`, and the first
free byte after them. -/
def place : List Layout → Nat → List Nat × Nat
  | [], free => ([], free)
  | field :: rest, free =>
    let offset := roundUp free field.fieldAlign
    let placed := place rest (offset + field.size)
    (offset :: placed.1, placed.2)

/-- The strictest alignment among `fields`. -/
def strictestAlign : List Layout → Nat
  | [] => 1
  | field :: rest => max field.fieldAlign (strictestAlign rest)

end Layout

/-- A layout together with the offset of each field. -/
structure Aggregate where
  layout : Layout
  offsets : List Nat
  deriving DecidableEq

def Layout.sequence (fields : List Layout) : Aggregate :=
  let placed := Layout.place fields 0
  ⟨Layout.of placed.2 (Layout.strictestAlign fields) (fields.all (·.plain)), placed.1⟩

/-- The layout a record shows to others: an alignment of zero marks a layout
that is not there yet. -/
def Layout.visible? (l : Layout) : Option Layout := if l.align = 0 then none else some l

/-- A layout as it is stored when it is published, so that it is always
visible afterwards. -/
def Layout.stored (l : Layout) : Layout := { l with align := max l.align 1 }

theorem Layout.visible?_stored (l : Layout) : l.stored.visible? = some l.stored := by
  have h : l.stored.align ≠ 0 := by
    have : 1 ≤ max l.align 1 := Nat.le_max_right _ _
    simp only [Layout.stored]; omega
  simp [Layout.visible?, h]

end TypeRecords
