/-
The four stages a type record passes through on its way to being usable, and
the requests that ask for one of them.

Stages are linearly ordered. Everything that compares them goes through
`Stage.code`, so an order fact about stages is a fact about four numbers.
-/

namespace TypeRecords

-- ====================================================== stages

/-- How far a record has come. -/
inductive Stage
  /-- Allocated: only the record's identity and arguments are usable. -/
  | abstract
  /-- Size, alignment and stride are known. -/
  | layoutComplete
  /-- The record itself is finished; what it refers to may not be. -/
  | nonTransitive
  /-- The record and everything it refers to are finished. -/
  | complete
  deriving DecidableEq, Inhabited

namespace Stage

/-- The place of a stage in the order, from 0. -/
def code : Stage → Nat
  | abstract => 0
  | layoutComplete => 1
  | nonTransitive => 2
  | complete => 3

/-- The stage at a place in the order, if there is one. -/
def ofCode? : Nat → Option Stage
  | 0 => some abstract
  | 1 => some layoutComplete
  | 2 => some nonTransitive
  | 3 => some complete
  | _ => none

theorem ofCode?_code (s : Stage) : ofCode? s.code = some s := by
  cases s <;> rfl

theorem code_injective {a b : Stage} (h : a.code = b.code) : a = b := by
  have := congrArg ofCode? h
  simpa [ofCode?_code] using this

instance : LE Stage := ⟨fun a b => a.code ≤ b.code⟩

instance : LT Stage := ⟨fun a b => a.code < b.code⟩

instance (a b : Stage) : Decidable (a ≤ b) := inferInstanceAs (Decidable (a.code ≤ b.code))

instance (a b : Stage) : Decidable (a < b) := inferInstanceAs (Decidable (a.code < b.code))

/-- Whether being at `s` is enough for someone who needs `required`. -/
def satisfies (s required : Stage) : Bool := decide (required ≤ s)

/-- The later of two stages. -/
def later (a b : Stage) : Stage := if a ≤ b then b else a

/-- How a stage is written. -/
def name : Stage → String
  | abstract => "abstract"
  | layoutComplete => "layout-complete"
  | nonTransitive => "non-transitive-complete"
  | complete => "complete"

/-- Reads what `name` writes. -/
def ofName? : String → Option Stage
  | "abstract" => some abstract
  | "layout-complete" => some layoutComplete
  | "non-transitive-complete" => some nonTransitive
  | "complete" => some complete
  | _ => none

/-- What one waits for when one waits for a stage. Nobody can wait for the
first stage, so its wording says that something is broken. -/
def phrase : Stage → String
  | complete => "transitive completion"
  | nonTransitive => "completion"
  | layoutComplete => "layout"
  | abstract => "<corruption>"

theorem satisfies_iff {s required : Stage} : s.satisfies required = true ↔ required ≤ s := by
  simp [satisfies]

theorem satisfies_refl (s : Stage) : s.satisfies s = true :=
  satisfies_iff.2 (Nat.le_refl _)

theorem satisfies_trans {a b c : Stage} (hab : a.satisfies b = true)
    (hbc : b.satisfies c = true) : a.satisfies c = true :=
  satisfies_iff.2 (Nat.le_trans (satisfies_iff.1 hbc) (satisfies_iff.1 hab))

theorem le_of_eq {a b : Stage} (h : a = b) : a ≤ b := Nat.le_of_eq (congrArg code h)

theorem le_later_left (a b : Stage) : a ≤ a.later b := by
  unfold later; split
  · assumption
  · exact Nat.le_refl _

theorem le_later_right (a b : Stage) : b ≤ a.later b := by
  unfold later; split
  · exact Nat.le_refl _
  · rename_i h; exact Nat.le_of_lt (Nat.not_le.1 h)

end Stage

-- ====================================================== requests

/-- Records are numbered in the order they come into being. -/
abbrev RecordId := Nat

/-- A wish for a record in at least some stage. -/
structure Request where
  stage : Stage
  /-- Whether to wait for it, or to take the record as it is. -/
  waits : Bool
  deriving DecidableEq

namespace Request

/-- Waits until `stage` has been reached. -/
def blocking (stage : Stage) : Request := ⟨stage, true⟩

/-- Asks for `stage` and takes whatever is there. -/
def poll (stage : Stage) : Request := ⟨stage, false⟩

/-- Waits for the last stage. This is what a request means by default. -/
def complete : Request := blocking .complete

instance : Inhabited Request := ⟨complete⟩

/-- Whether a record at `stage` is what was asked for. -/
def satisfiedBy (r : Request) (stage : Stage) : Bool := stage.satisfies r.stage

/-- Whether the request is over once the record is seen at `stage`. -/
def settledBy (r : Request) (stage : Stage) : Bool := !r.waits || r.satisfiedBy stage

end Request

/-- A record and the stage it was seen in. -/
structure Response where
  record : RecordId
  stage : Stage
  deriving DecidableEq, Inhabited

/-- The response for a record that never needs work. -/
def Response.finished (record : RecordId) : Response := ⟨record, .complete⟩

/-- Whether the record was seen in the last stage. -/
def Response.isComplete (r : Response) : Bool := r.stage == .complete

/-- One cannot go on until `target` has reached `required`. -/
structure Dependency where
  target : RecordId
  required : Stage
  deriving DecidableEq, Inhabited

end TypeRecords
