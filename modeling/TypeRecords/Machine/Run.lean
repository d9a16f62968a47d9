/-
Running a process: which thread goes next.

The machine leaves this open; here is the choice that makes a run of a process
one definite thing. A thread goes on for as long as it can. When it cannot,
the first thread that can takes over. A thread that has asked to let the
others go first goes on only when nobody else can, the one that asked last
before the others.
-/
import TypeRecords.Machine.Step

namespace TypeRecords.Machine

variable {σ : Type}

/-- Whether a thread lets the others go first. -/
def isSettling (m : Machine σ) (t : ThreadId) : Bool :=
  match m.threads[t]? with
  | some thread =>
    match thread.control with
    | .run (.settle ..) _ => true
    | _ => false
  | none => false

/-- A step of `t`, unless it lets the others go first. -/
def eagerStep (lib : Library σ) (m : Machine σ) (t : ThreadId) : Option (Machine σ) :=
  if m.isSettling t then none else m.step lib t

/-- The next step when `t` cannot go on, and whose it is. -/
def handOver (lib : Library σ) (m : Machine σ) : Option (ThreadId × Machine σ) :=
  let threads := List.range m.threads.size
  match threads.findSome? fun t => (m.eagerStep lib t).map fun next => (t, next) with
  | some next => some next
  | none => threads.reverse.findSome? fun t => (m.step lib t).map fun next => (t, next)

/-- Runs until the first thread has ended or nobody can go on, for at most
`fuel` steps. `t` is the thread that went last. -/
def run (lib : Library σ) : Nat → Machine σ → ThreadId → Machine σ
  | 0, m, _ => m
  | fuel + 1, m, t =>
    if m.hasEnded 0 then m
    else
      match m.eagerStep lib t with
      | some next => run lib fuel next t
      | none =>
        match m.handOver lib with
        | some (other, next) => run lib fuel next other
        | none => m

/-- A run only visits what can be reached. -/
theorem Reachable.run {lib : Library σ} {start m : Machine σ} (fuel : Nat) (t : ThreadId)
    (h : Reachable lib start m) : Reachable lib start (m.run lib fuel t) := by
  induction fuel generalizing m t with
  | zero => exact h
  | succ n ih =>
    unfold Machine.run
    split
    · exact h
    · split
      · rename_i next hs
        unfold eagerStep at hs
        split at hs
        · cases hs
        · exact ih t (h.step t hs)
      · split
        · rename_i other next hs
          refine ih other ?_
          have hx : ∃ u, m.step lib u = some next := by
            unfold handOver at hs
            simp only at hs
            split at hs
            · rename_i p hp
              cases hs
              obtain ⟨u, -, hu⟩ := List.exists_of_findSome?_eq_some hp
              simp only [Option.map_eq_some_iff] at hu
              obtain ⟨w, hw, he⟩ := hu
              cases he
              unfold eagerStep at hw
              split at hw
              · cases hw
              · exact ⟨_, hw⟩
            · obtain ⟨u, -, hu⟩ := List.exists_of_findSome?_eq_some hs
              simp only [Option.map_eq_some_iff] at hu
              obtain ⟨w, hw, he⟩ := hu
              cases he
              exact ⟨_, hw⟩
          obtain ⟨u, hu⟩ := hx
          exact h.step u hu
        · exact h

end TypeRecords.Machine
