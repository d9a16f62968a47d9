/-
Runs with all their states.

`Reachable` and `Run` say where a process can get to, and forget how it got
there. Where a result is about what has happened on the way, and in which
order, the run has to be at hand as a whole: a `Chronicle` numbers its states
and names the thread that takes each step. Every state that can be reached is
in one (`Reachable.chronicle`), so nothing is lost by speaking of chronicles.
-/
import TypeRecords.Proofs.Process.Run

namespace TypeRecords.Machine

variable {σ : Type}

/-- A run: its states in order, and the thread that takes each step. Beyond the
last state they mean nothing. -/
structure Chronicle (lib : Library σ) (start : Machine σ) where
  length : Nat
  state : Nat → Machine σ
  mover : Nat → ThreadId
  first : state 0 = start
  step : ∀ k < length, (state k).step lib (mover k) = some (state (k + 1))

namespace Chronicle

variable {lib : Library σ} {start m m' : Machine σ}

/-- Later states can be reached from earlier ones. -/
theorem later (r : Chronicle lib start) {i j : Nat} (hij : i ≤ j) (hj : j ≤ r.length) :
    Reachable lib (r.state i) (r.state j) := by
  induction hij with
  | refl => exact .refl
  | step hij ih => exact (ih (Nat.le_of_succ_le hj)).step _ (r.step _ hj)

theorem reachable (r : Chronicle lib start) {k : Nat} (hk : k ≤ r.length) :
    Reachable lib start (r.state k) := by
  have h := r.later (Nat.zero_le k) hk
  rwa [r.first] at h

/-- A chronicle is a run of any kind that its steps are of. -/
theorem run {ok : Machine σ → ThreadId → Prop} (r : Chronicle lib start) {k : Nat}
    (hk : k ≤ r.length) (hok : ∀ j < k, ok (r.state j) (r.mover j)) :
    Run lib ok start (r.state k) := by
  induction k with
  | zero =>
      rw [r.first]
      exact .refl
  | succ k ih =>
      exact (ih (Nat.le_of_succ_le hk) fun j hj => hok j (Nat.lt_succ_of_lt hj)).step (r.mover k)
        (hok k (Nat.lt_succ_self k)) (r.step k hk)

/-- What is so of a thread after step `i`, and is kept by its own steps and by those
of the others, is so of it from then on. It may change with time. -/
theorem follows (r : Chronicle lib start) {u : ThreadId} {i l : Nat} {P : Nat → Turn σ → Prop}
    (hil : i < l) (hl : l ≤ r.length)
    (hfirst : ∃ thread, (r.state (i + 1)).threads[u]? = some thread
      ∧ P (i + 1) ((r.state (i + 1)).turn thread))
    (hown : ∀ {j : Nat} {thread thread' : Thread σ}, i < j → j < l → r.mover j = u →
      (r.state j).threads[u]? = some thread → (r.state (j + 1)).threads[u]? = some thread' →
      P j ((r.state j).turn thread) →
      (((r.state j).turn thread).step lib ⟨u, thread.name⟩ = some ((r.state (j + 1)).turn thread')
        ∨ ∃ p p' s, thread.control = .run p s ∧ Resumes p p' ∧ thread'.control = .run p' s
          ∧ thread'.frames = thread.frames) →
      P (j + 1) ((r.state (j + 1)).turn thread'))
    (hother : ∀ {j : Nat} {thread : Thread σ}, i < j → j < l → r.mover j ≠ u →
      P j ((r.state j).turn thread) → P (j + 1) ((r.state (j + 1)).turn thread)) :
    ∃ thread, (r.state l).threads[u]? = some thread ∧ P l ((r.state l).turn thread) := by
  induction hil with
  | refl => exact hfirst
  | @step l hil ih =>
      obtain ⟨thread, hthread, hP⟩ := ih (Nat.le_of_succ_le hl)
        (fun hi hj => hown hi (Nat.lt_succ_of_lt hj))
        fun hi hj => hother hi (Nat.lt_succ_of_lt hj)
      have hstep := r.step l hl
      by_cases hu : r.mover l = u
      · obtain ⟨mover, thread', hmover, hthread', hmove⟩ := step_mover hstep
        rw [hu] at hmover hthread' hmove
        obtain rfl := Option.some.inj (hthread.symm.trans hmover)
        refine ⟨thread', hthread',
          hown hil (Nat.lt_succ_self l) hu hthread hthread' hP (hmove.imp_right ?_)⟩
        rintro ⟨p, p', s, hc, hp, -, hc', hf⟩
        exact ⟨p, p', s, hc, hp, hc', hf⟩
      · exact ⟨thread, step_other hstep hu hthread, hother hil (Nat.lt_succ_self l) hu hP⟩

/-- What does not change with time is so all along. -/
theorem follow (r : Chronicle lib start) {u : ThreadId} {i l : Nat} {P : Turn σ → Prop}
    (hil : i < l) (hl : l ≤ r.length)
    (hfirst : ∃ thread, (r.state (i + 1)).threads[u]? = some thread
      ∧ P ((r.state (i + 1)).turn thread))
    (hown : ∀ {j : Nat} {thread thread' : Thread σ}, i < j → j < l →
      (r.state j).threads[u]? = some thread → (r.state (j + 1)).threads[u]? = some thread' →
      P ((r.state j).turn thread) →
      (((r.state j).turn thread).step lib ⟨u, thread.name⟩ = some ((r.state (j + 1)).turn thread')
        ∨ (∃ p s, thread.control = .run p s) ∧ thread'.frames = thread.frames) →
      P ((r.state (j + 1)).turn thread'))
    (hother : ∀ {j : Nat} {thread : Thread σ}, i < j → j < l →
      P ((r.state j).turn thread) → P ((r.state (j + 1)).turn thread)) :
    ∃ thread, (r.state l).threads[u]? = some thread ∧ P ((r.state l).turn thread) := by
  refine r.follows (P := fun _ => P) hil hl hfirst
    (fun hi hj _ hthread hthread' hP hmove => ?_) fun hi hj _ => hother hi hj
  refine hown hi hj hthread hthread' hP (hmove.imp_right ?_)
  rintro ⟨p, p', s, hc, -, -, hf⟩
  exact ⟨⟨p, s, hc⟩, hf⟩

/-- The chronicle of a walk of the first thread. -/
def walk (lib : Library σ) (start : Machine σ) (n : Nat)
    (h : ∀ k < n, ((start.walk lib k).step lib 0).isSome = true) : Chronicle lib start where
  length := n
  state := start.walk lib
  mover _ := 0
  first := rfl
  step k hk := step_walk (h k hk)

/-- One more step. -/
def extend (r : Chronicle lib start) (t : ThreadId)
    (h : (r.state r.length).step lib t = some m) : Chronicle lib start where
  length := r.length + 1
  state k := if k ≤ r.length then r.state k else m
  mover k := if k < r.length then r.mover k else t
  first := by rw [if_pos (Nat.zero_le _), r.first]
  step k hk := by
    rw [if_pos (Nat.le_of_lt_succ hk)]
    rcases Nat.lt_or_eq_of_le (Nat.le_of_lt_succ hk) with hlt | rfl
    · rw [if_pos hlt, if_pos (show k + 1 ≤ r.length from hlt)]
      exact r.step k hlt
    · rw [if_neg (Nat.lt_irrefl _), if_neg (Nat.not_succ_le_self _)]
      exact h

end Chronicle

/-- Whatever can be reached is where some run ends. -/
theorem Reachable.chronicle {lib : Library σ} {start m : Machine σ} (h : Reachable lib start m) :
    ∃ r : Chronicle lib start, r.state r.length = m := by
  induction h with
  | refl => exact ⟨⟨0, fun _ => start, fun _ => 0, rfl, nofun⟩, rfl⟩
  | step t _ hs ih =>
      obtain ⟨r, rfl⟩ := ih
      exact ⟨r.extend t hs, if_neg (Nat.not_succ_le_self _)⟩

end TypeRecords.Machine
