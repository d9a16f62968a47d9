/-
The types of fields, as expressions.

A field's type is an argument of its owner, a fixed record, or is computed by
a program. What such a program is to find is written down as a `Term`, once
for all owners of a descriptor: an expression over the arguments, in which
descriptors are applied and tuples are formed. `Term.records?` is what terms
stand for where the records of calls are known.

A program *fetches* a term if all it ever returns is the response to the
term's own call, which it can only have made after it was told the records of
the parts (`Program.Fetches`). It may do anything else besides, and fail. The
definition is a recursion on the program, so that it can be checked for a
given one without running it.
-/
import Mathlib.Data.List.Forall2
import TypeRecords.Library

namespace TypeRecords

variable {σ : Type}

-- ====================================================== terms

/-- The type of a field, over the arguments of the record that has it. -/
inductive Term
  /-- An argument of the owner. -/
  | argument (index : Nat)
  | fixed (record : RecordId)
  /-- A descriptor applied to types. -/
  | apply (descriptor : DescriptorId) (arguments : List Term)
  | tuple (elements : List Term)

section

variable (look : Call → Option RecordId) (arguments : List RecordId)

mutual

/-- The call that asks for the record of a term, where `look` knows the records
of calls. -/
def Term.call? : Term → Option Call
  | .argument index => (arguments[index]?).map .check
  | .fixed record => some (.check record)
  | .apply descriptor es => (Term.records? es).map (.generic descriptor)
  | .tuple es => (Term.records? es).map .tuple

/-- The records that terms stand for. -/
def Term.records? : List Term → Option (List RecordId)
  | [] => some []
  | e :: es => ((Term.call? e).bind look).bind fun x => (Term.records? es).map (x :: ·)

end

/-- The record that a term stands for. -/
def Term.record? (e : Term) : Option RecordId := (e.call? look arguments).bind look

end

namespace Term

variable {look look' : Call → Option RecordId} {arguments : List RecordId}

theorem records?_cons (e : Term) (es : List Term) :
    records? look arguments (e :: es)
      = (e.record? look arguments).bind fun x => (records? look arguments es).map (x :: ·) := by
  rw [records?, record?]

theorem records?_cons_some {e : Term} {es : List Term} {xs : List RecordId}
    (h : records? look arguments (e :: es) = some xs) :
    ∃ y ys, e.record? look arguments = some y ∧ records? look arguments es = some ys
      ∧ xs = y :: ys := by
  rw [records?_cons] at h
  obtain ⟨y, hy, h⟩ := Option.bind_eq_some_iff.mp h
  obtain ⟨ys, hys, rfl⟩ := Option.map_eq_some_iff.mp h
  exact ⟨y, ys, hy, hys, rfl⟩

theorem length_records? {es : List Term} {xs : List RecordId}
    (h : records? look arguments es = some xs) : xs.length = es.length := by
  induction es generalizing xs with
  | nil =>
      cases h
      rfl
  | cons e es ih =>
      obtain ⟨y, ys, -, hys, rfl⟩ := records?_cons_some h
      rw [List.length_cons, List.length_cons, ih hys]

theorem mem_records? {es : List Term} {xs : List RecordId} {e : Term}
    (h : records? look arguments es = some xs) (he : e ∈ es) :
    ∃ x ∈ xs, e.record? look arguments = some x := by
  induction es generalizing xs with
  | nil => cases he
  | cons e' es ih =>
      obtain ⟨y, ys, hy, hys, rfl⟩ := records?_cons_some h
      rcases List.mem_cons.mp he with rfl | he
      · exact ⟨y, List.mem_cons_self, hy⟩
      · obtain ⟨x, hx, hex⟩ := ih hys he
        exact ⟨x, List.mem_cons_of_mem _ hx, hex⟩

theorem records?_concat {es : List Term} {xs : List RecordId} {e : Term} {x : RecordId}
    (h : records? look arguments es = some xs) (he : e.record? look arguments = some x) :
    records? look arguments (es ++ [e]) = some (xs ++ [x]) := by
  induction es generalizing xs with
  | nil =>
      cases h
      rw [List.nil_append, records?_cons, he]
      rfl
  | cons e' es ih =>
      obtain ⟨y, ys, hy, hys, rfl⟩ := records?_cons_some h
      rw [List.cons_append, records?_cons, hy, ih hys]
      rfl

mutual

/-- The more calls are known, the more terms stand for something. -/
theorem call?_mono (hl : ∀ c x, look c = some x → look' c = some x) :
    ∀ {e : Term} {c : Call}, e.call? look arguments = some c → e.call? look' arguments = some c
  | .argument index, c, h => by rw [call?] at h ⊢; exact h
  | .fixed record, c, h => by rw [call?] at h ⊢; exact h
  | .apply descriptor es, c, h => by
      rw [call?] at h ⊢
      obtain ⟨xs, hxs, rfl⟩ := Option.map_eq_some_iff.mp h
      rw [records?_mono hl hxs]
      rfl
  | .tuple es, c, h => by
      rw [call?] at h ⊢
      obtain ⟨xs, hxs, rfl⟩ := Option.map_eq_some_iff.mp h
      rw [records?_mono hl hxs]
      rfl

theorem records?_mono (hl : ∀ c x, look c = some x → look' c = some x) :
    ∀ {es : List Term} {xs : List RecordId}, records? look arguments es = some xs →
      records? look' arguments es = some xs
  | [], xs, h => by rw [records?] at h ⊢; exact h
  | e :: es, xs, h => by
      rw [records?] at h ⊢
      obtain ⟨y, hy, h⟩ := Option.bind_eq_some_iff.mp h
      obtain ⟨c, hc, hy⟩ := Option.bind_eq_some_iff.mp hy
      obtain ⟨ys, hys, rfl⟩ := Option.map_eq_some_iff.mp h
      rw [call?_mono hl hc, Option.bind_some, hl c y hy, Option.bind_some, records?_mono hl hys]
      rfl

end

theorem record?_mono (hl : ∀ c x, look c = some x → look' c = some x) {e : Term} {x : RecordId}
    (h : e.record? look arguments = some x) : e.record? look' arguments = some x := by
  obtain ⟨c, hc, hx⟩ := Option.bind_eq_some_iff.mp h
  unfold record?
  rw [call?_mono hl hc, Option.bind_some, hl c x hx]

end Term

-- ====================================================== programs that fetch a term

/-- What a program has been told: the responses to its calls. -/
abbrev Heard := List (Call × Response)

/-- The records of calls are such as a program was told. -/
structure Heard.Agrees (heard : Heard) (look : Call → Option RecordId) : Prop where
  checked : ∀ record, look (.check record) = some record
  told : ∀ p ∈ heard, look p.1 = some p.2.record

/-- The response is the one to the term's call, which is known from what was
heard. -/
def Term.Answered (e : Term) (arguments : List RecordId) (heard : Heard) (r : Response) : Prop :=
  ∃ c, (c, r) ∈ heard ∧ ∀ look, heard.Agrees look → e.call? look arguments = some c

/-- So it is for the record that the term stands for. -/
theorem Term.Answered.record? {e : Term} {arguments : List RecordId} {heard : Heard}
    {r : Response} {look : Call → Option RecordId} (h : e.Answered arguments heard r)
    (hl : heard.Agrees look) : e.record? look arguments = some r.record := by
  obtain ⟨c, hmem, hcall⟩ := h
  unfold Term.record?
  rw [hcall look hl, Option.bind_some]
  exact hl.told _ hmem

namespace Program

variable {α β : Type}

/-- Whatever a program comes to is good by what it has heard by then. -/
def Fetches {α : Type} : Program σ α → (Heard → α → Prop) → Heard → Prop
  | done a, good, heard => good heard a
  | fail _, _, _ => True
  | look k, good, heard => ∀ t s x, (k t s x).Fetches good heard
  | edit _ k, good, heard => k.Fetches good heard
  | act _ k, good, heard => ∀ r, (k r).Fetches good heard
  | scratch _ k, good, heard => ∀ w, (k w).Fetches good heard
  | draft k, good, heard => ∀ d, (k d).Fetches good heard
  | fill _ _ k, good, heard => ∀ b, (k b).Fetches good heard
  | storePrivate _ _ k, good, heard => ∀ b, (k b).Fetches good heard
  | request _ _ c k, good, heard => ∀ r, (k r).Fetches good ((c, r) :: heard)
  | structLayout _ _ _ k, good, heard => ∀ d w, (k d w).Fetches good heard
  | table _ _ _ _ k, good, heard => ∀ t, (k t).Fetches good heard
  | canonical _ _ k, good, heard => ∀ m, (k m).Fetches good heard
  | raise _ _ _, _, _ => True
  | guarded h b, good, heard => (∀ e, (h e).Fetches good heard) ∧ b.Fetches good heard
  | disarm k, good, heard => k.Fetches good heard
  | spawn _ _ k, good, heard => ∀ t, (k t).Fetches good heard
  | join _ k, good, heard => k.Fetches good heard
  | settle _ k, good, heard => ∀ b, (k b).Fetches good heard

/-- What is done with the result afterwards goes by what was heard before. -/
theorem Fetches.bind {p : Program σ α} {f : α → Program σ β} {good : Heard → α → Prop}
    {good' : Heard → β → Prop} {heard : Heard}
    (h : p.Fetches good heard) (hf : ∀ a heard, good heard a → (f a).Fetches good' heard) :
    (p.bind f).Fetches good' heard := by
  induction p generalizing heard with
  | done a => exact hf a heard h
  | fail e => trivial
  | look k ih => exact fun t s x => ih t s x (h t s x) hf
  | edit g k ih => exact ih h hf
  | act a k ih => exact fun r => ih r (h r) hf
  | scratch g k ih => exact fun w => ih w (h w) hf
  | draft k ih => exact fun d => ih d (h d) hf
  | fill i w k ih => exact fun b => ih b (h b) hf
  | storePrivate i v k ih => exact fun b => ih b (h b) hf
  | request r q c k ih => exact fun x => ih x (h x) hf
  | structLayout r m w k ih => exact fun d w => ih d w (h d w) hf
  | table r c m ts k ih => exact fun t => ih t (h t) hf
  | canonical r c k ih => exact fun m => ih m (h m) hf
  | raise p l e => trivial
  | guarded g b ihg ihb => exact ⟨fun e => ihg e (h.1 e) hf, ihb h.2 hf⟩
  | disarm k ih => exact ih h hf
  | spawn n b k ihb ih => exact fun t => ih t (h t) hf
  | join t k ih => exact ih h hf
  | settle t k ih => exact fun b => ih b (h b) hf

end Program

-- ====================================================== libraries of structs

/-- A field's type is what the term says. -/
def FieldType.Reads : FieldType σ → Term → Prop
  | .argument index, e => e = .argument index
  | .fixed record, e => e = .fixed record
  | .computed accessor, e => ∀ registry q arguments,
    (accessor registry q arguments).Fetches (e.Answered arguments) []

/-- A descriptor is completed by laying out its fields, whose types are
`terms`, or needs no completion; and nothing else runs for its records. -/
structure Descriptor.Structural (d : Descriptor σ) (terms : List Term) : Prop where
  plain : d.instantiate = none
  completion : d.completion = none ∨ d.completion = some .structLayout
  /-- The layout of what is laid out by its fields is not known before. -/
  layout : d.completion = some .structLayout → d.layout = none
  fields : d.completion = some .structLayout →
    List.Forall₂ (fun field e => field.type.Reads e) d.fields terms

/-- All descriptors are structural; the types of their fields are `terms`. -/
def Library.Structural (lib : Library σ) (terms : DescriptorId → List Term) : Prop :=
  ∀ {id : DescriptorId} {d : Descriptor σ}, lib.descriptors[id]? = some d →
    d.Structural (terms id)

end TypeRecords
