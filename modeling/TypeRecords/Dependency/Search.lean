/-
Search for an unfinished record.

A record is finished for good when everything that can be reached from it is
at least finished for itself. The search keeps a stack of records to look at
and a list of records it has met; a record that has been met is not looked at
again, so records that refer to each other can be finished together. Records
in the last stage are not searched further: whatever they reach was searched
when they got there.
-/
import TypeRecords.Dependency.Unseen
import TypeRecords.Stage

namespace TypeRecords.Search

/-- What a search runs over: records below `bound`, what each refers to, and
the stage each is in. -/
structure Graph where
  bound : Nat
  referents : RecordId → List RecordId
  stage : RecordId → Stage

/-- The records met so far, and a stack of those still to be looked at. -/
structure Frontier where
  met : List RecordId
  work : List RecordId

/-- Meets records in order; those not met before go on top of the stack. -/
def Frontier.meet (bound : Nat) (f : Frontier) : List RecordId → Frontier
  | [] => f
  | r :: rest =>
    if r ∈ f.met ∨ bound ≤ r then f.meet bound rest
    else Frontier.meet bound ⟨r :: f.met, r :: f.work⟩ rest

/-- Rounds left: each record not met yet, and each on the stack, is good for
one. -/
def Frontier.rounds (bound : Nat) (f : Frontier) : Nat := unseen bound f.met + f.work.length

theorem Frontier.rounds_meet (bound : Nat) (f : Frontier) (rs : List RecordId) :
    (f.meet bound rs).rounds bound = f.rounds bound := by
  induction rs generalizing f with
  | nil => rfl
  | cons r rest ih =>
    unfold Frontier.meet
    split
    · exact ih f
    · rename_i h
      rw [ih]
      have hn : r < bound := Nat.lt_of_not_le fun hb => h (.inr hb)
      have := unseen_cons hn (fun hm => h (.inl hm))
      simp only [Frontier.rounds, List.length_cons]
      omega

/-- Looks at the records on the stack, the topmost first, until one is not
finished for itself. -/
def explore (g : Graph) (f : Frontier) : Option Dependency :=
  match _h : f.work with
  | [] => none
  | r :: rest =>
    if g.stage r = .complete then explore g ⟨f.met, rest⟩
    else if g.stage r < .nonTransitive then some ⟨r, .nonTransitive⟩
    else explore g (Frontier.meet g.bound ⟨f.met, rest⟩ (g.referents r))
termination_by f.rounds g.bound
decreasing_by
  · simp [Frontier.rounds, _h]
  · rw [Frontier.rounds_meet]
    simp [Frontier.rounds, _h]

/-- What `initial` still has to wait for before it is finished for good. -/
def unfinished (g : Graph) (initial : RecordId) : Option Dependency :=
  explore g (Frontier.meet g.bound ⟨[initial], []⟩ (g.referents initial))

end TypeRecords.Search
