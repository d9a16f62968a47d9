/-
A process with one thread.

Such a process is its only thread's turn (`Machine.lone`), and a run in which
no other thread is started is a walk of that turn (`Run.goes`, `Run.of_goes`).
-/
import Mathlib.Logic.Relation
import TypeRecords.Proofs.Process.Below

namespace TypeRecords

variable {σ : Type}

namespace Turn

variable {lib : Library σ} {a : Actor} {t t' : Turn σ}

/-- What a thread does next where there is no other. Whoever else it wants to
wait for is over, and it does not start anyone. -/
def alone (lib : Library σ) (a : Actor) (t : Turn σ) : Option (Turn σ) :=
  match t.control with
  | .run (.join other k) s => if other = a.id then none else some (t.goto (.run k s))
  | .run (.settle other k) s => some (t.goto (.run (k (other != a.id)) s))
  | _ => t.step lib a

/-- The thread goes from one turn to the next by a `good` step of its own. -/
def Goes (lib : Library σ) (a : Actor) (good : Turn σ → Prop) (t t' : Turn σ) : Prop :=
  t.store.halted = none ∧ good t ∧ t.alone lib a = some t'

/-- There is one way for a thread to go by itself. -/
theorem Goes.unique {good : Turn σ → Prop} {u u' : Turn σ} (h : Goes lib a good t u)
    (h' : Goes lib a good t u') : u = u' :=
  Option.some.inj (h.2.2.symm.trans h'.2.2)

/-- Whoever runs no program goes by itself as among others, -/
theorem alone_eq (h : ∀ p s, t.control ≠ .run p s) : t.alone lib a = t.step lib a := by
  unfold alone
  split
  · rename_i hc
    exact (h _ _ hc).elim
  · rename_i hc
    exact (h _ _ hc).elim
  · rfl

/-- whoever hands something over does, -/
theorem alone_give {v : Value} {left : Local} (hc : t.control = .give v left) :
    t.alone lib a = t.give lib a v left := by
  unfold alone step
  rw [hc]

/-- and so does a program that makes a request. -/
theorem alone_request {registry : RegistryId} {q : Request} {c : Call}
    {k : Response → Program σ Value} {s : Setting σ}
    (hc : t.control = .run (.request registry q c k) s) : t.alone lib a = t.step lib a := by
  unfold alone
  rw [hc]

/-- It is a step of the thread, or the thread goes on with a program. -/
theorem alone_cases (h : t.alone lib a = some t') :
    t.step lib a = some t'
      ∨ ∃ p p' s, t.control = .run p s ∧ Machine.Resumes p p' ∧ t' = t.goto (.run p' s) := by
  unfold alone at h
  split at h
  · rename_i other k s hc
    split at h
    · cases h
    · cases h
      exact .inr ⟨_, k, s, hc, .join other k, rfl⟩
  · rename_i other k s hc
    cases h
    exact .inr ⟨_, _, s, hc, .settle other k _, rfl⟩
  · exact .inl h

/-- The thread does the same on top of any stack. -/
theorem alone_under (below : List (Frame σ)) (h : t.Covered) :
    (t.under below).alone lib a = (t.alone lib a).map (·.under below) := by
  unfold alone
  show (match t.control with
    | .run (.join other k) s =>
      if other = a.id then none else some ((t.under below).goto (.run k s))
    | .run (.settle other k) s => some ((t.under below).goto (.run (k (other != a.id)) s))
    | _ => (t.under below).step lib a) = _
  split
  · split <;> rfl
  · rfl
  · exact t.step_under below h

end Turn

namespace Machine

variable {lib : Library σ} {name : String} {t t' : Turn σ} {m m' : Machine σ}

/-- The process with a single thread that has come to `t`. -/
def lone (name : String) (t : Turn σ) : Machine σ :=
  { store := t.store, shared := t.shared, threads := #[⟨name, t.control, t.frames⟩] }

/-- A process with one thread is that of its turn. -/
theorem eq_lone {thread : Thread σ} (h : m.threads = #[thread]) :
    m = lone thread.name (m.turn thread) := by
  obtain ⟨store, shared, threads⟩ := m
  cases h
  rfl

/-- Every thread but this one is over. -/
theorem hasEnded_lone {p : Program σ Value} {s : Setting σ} (hc : t.control = .run p s)
    (other : ThreadId) : (lone name t).hasEnded other = (other != 0) := by
  unfold hasEnded lone
  cases other with
  | zero => simp [hc]
  | succ n => rfl

/-- The next step of the only thread is the next step of the process. -/
theorem step_lone_eq (hhalt : t.store.halted = none)
    (hspawn : ∀ n body k s, t.control ≠ .run (.spawn n body k) s) :
    (lone name t).step lib 0 = (t.alone lib ⟨0, name⟩).map (lone name) := by
  obtain ⟨store, shared, control, frames⟩ := t
  cases control with
  | run p s =>
      unfold step
      rw [show (lone name ⟨store, shared, .run p s, frames⟩).store.halted = none from hhalt]
      cases p with
      | spawn n body k => exact (hspawn n body k s rfl).elim
      | join other k =>
          show (if (lone name ⟨store, shared, .run (.join other k) s, frames⟩).hasEnded other
            then _ else _) = _
          rw [hasEnded_lone rfl]
          unfold Turn.alone
          by_cases hself : other = 0
          · simp [hself]
          · simp only [hself, bne_iff_ne, ne_eq, not_false_eq_true, if_true, if_false]
            rfl
      | settle other k =>
          show some _ = _
          rw [hasEnded_lone rfl]
          rfl
      | _ => rfl
  | _ =>
      rw [Turn.alone_eq (by nofun), step_alone hhalt rfl (by nofun)]
      rfl

/-- The one thread of a process goes by itself, as long as the process is not halted. -/
theorem step_lone (hhalt : t.store.halted = none) (h : t.alone lib ⟨0, name⟩ = some t') :
    (lone name t).step lib 0 = some (lone name t') := by
  rw [step_lone_eq hhalt, h]
  · rfl
  · intro n body k s hc
    unfold Turn.alone at h
    rw [hc] at h
    simp only [Turn.step, hc, Turn.run] at h
    cases h

/-- What a process with one thread comes to, if no other is started. -/
theorem lone_of_step {i : ThreadId} (h : (lone name t).step lib i = some m')
    (hone : m'.threads.size = 1) :
    i = 0 ∧ t.store.halted = none ∧ ∃ t', t.alone lib ⟨0, name⟩ = some t' ∧ m' = lone name t' := by
  obtain ⟨hhalt, thread, hthread, hstepped⟩ := step_cases h
  obtain rfl : i = 0 := Nat.lt_one_iff.mp (Array.getElem?_eq_some_iff.mp hthread).1
  refine ⟨rfl, hhalt, ?_⟩
  rw [step_lone_eq hhalt] at h
  · obtain ⟨t', ht, rfl⟩ := Option.map_eq_some_iff.mp h
    exact ⟨t', ht, rfl⟩
  · intro n body k s hc
    obtain ⟨store, shared, control, frames⟩ := t
    obtain rfl : control = .run (.spawn n body k) s := hc
    unfold step at h
    rw [show (lone name ⟨store, shared, .run (.spawn n body k) s, frames⟩).store.halted = none
      from hhalt] at h
    cases h
    simp [lone, goto] at hone

variable {good : Turn σ → Prop}

/-- A run of one thread is a walk of its turns. -/
theorem Run.goes (h : Run lib (fun m _ => m.Alone good) (lone name t) m)
    (hone : m.threads.size = 1) :
    ∃ t', Relation.ReflTransGen (Turn.Goes lib ⟨0, name⟩ good) t t' ∧ m = lone name t' := by
  induction h with
  | refl => exact ⟨t, .refl, rfl⟩
  | @step m m' i h hok hs ih =>
      obtain ⟨t₁, hwalk, rfl⟩ := ih hok.1
      obtain ⟨rfl, hhalt, t', hstep, rfl⟩ := lone_of_step hs hone
      exact ⟨t', hwalk.tail ⟨hhalt, hok.2 _ (Array.mem_singleton.mpr rfl), hstep⟩, rfl⟩

/-- And every walk is a run. -/
theorem Run.of_goes (h : Relation.ReflTransGen (Turn.Goes lib ⟨0, name⟩ good) t t') :
    Run lib (fun m _ => m.Alone good) (lone name t) (lone name t') := by
  induction h with
  | refl => exact .refl
  | @tail t₁ t' hwalk hstep ih =>
      obtain ⟨hhalt, hgood, hstep⟩ := hstep
      refine ih.step 0 ⟨rfl, fun thread hm => ?_⟩ (step_lone hhalt hstep)
      obtain rfl := Array.mem_singleton.mp hm
      exact hgood

end Machine

end TypeRecords
