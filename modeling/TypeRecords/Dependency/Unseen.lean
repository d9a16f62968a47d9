/-
How many of the numbers below a bound have not been seen. Both walks over the
records count down on this: each round sees one number more.
-/

namespace TypeRecords

/-- How many numbers below `bound` are not in `seen`. -/
def unseen (bound : Nat) (seen : List Nat) : Nat :=
  (List.range bound).countP (· ∉ seen)

/-- Seeing a new number below the bound takes one off. -/
theorem unseen_cons {bound n : Nat} {seen : List Nat} (hn : n < bound) (h : n ∉ seen) :
    unseen bound (n :: seen) + 1 = unseen bound seen := by
  unfold unseen
  induction bound with
  | zero => omega
  | succ k ih =>
    rw [List.range_succ, List.countP_append, List.countP_append]
    by_cases hk : n = k
    · subst hk
      have same : (List.range n).countP (· ∉ n :: seen) = (List.range n).countP (· ∉ seen) := by
        apply List.countP_congr
        intro x hx
        have : x ≠ n := Nat.ne_of_lt (List.mem_range.1 hx)
        simp [this]
      rw [same, List.countP_singleton, List.countP_singleton]
      simp [h]
    · have := ih (by omega)
      have last : List.countP (· ∉ n :: seen) [k] = List.countP (· ∉ seen) [k] := by
        have : k ≠ n := fun e => hk e.symm
        simp [List.countP_cons, this]
      omega

end TypeRecords
