/-
Runs of a process, and what one step does to its threads.

`Machine.Run` is a run whose steps all satisfy a condition on who steps and
what it is about to do. The condition is how a statement says which runs it
is about - nothing unwinds, callbacks keep to some discipline - without
touching the machine.

`Machine.step_cases` takes a step of a process apart: it is a step of one
thread, or that thread goes on with a program and perhaps starts another
thread. Whatever is proved about a step of one thread is lifted to processes
through it.
-/
import TypeRecords.Machine.Run

namespace TypeRecords

variable {σ : Type}

-- ====================================================== records by number

/-- The records that a request names. -/
def Call.names : Call → List RecordId
  | .generic _ arguments => arguments
  | .tuple elements => elements
  | .check record => [record]

/-- The records that the next step names and some entry or record may come to
refer to. -/
def Control.names : Control σ → List RecordId
  | .run (.request _ _ c _) _ => c.names
  | .run (.act (.setSuperclass record superclass) _) _ => [record, superclass]
  | .stopped _ dep => [dep.target]
  | _ => []

/-- Records refer to records that are there. -/
def Store.Whole (s : Store) : Prop := ∀ r ∈ s.records, ∀ x ∈ r.referents, x < s.records.size

instance (s : Store) : Decidable s.Whole :=
  inferInstanceAs (Decidable (∀ r ∈ s.records, ∀ x ∈ r.referents, x < s.records.size))

/-- Whatever a step may name is there. -/
def Machine.Grounded (m : Machine σ) : Prop :=
  ∀ thread ∈ m.threads, ∀ r ∈ thread.control.names, r < m.store.records.size

instance (m : Machine σ) : Decidable m.Grounded :=
  inferInstanceAs (Decidable (∀ thread ∈ m.threads, ∀ r ∈ thread.control.names,
    r < m.store.records.size))

namespace Machine

-- ====================================================== runs

/-- What a process can come to by steps that are all `ok`. -/
inductive Run (lib : Library σ) (ok : Machine σ → ThreadId → Prop) (start : Machine σ) :
    Machine σ → Prop
  | refl : Run lib ok start start
  | step {m m' : Machine σ} (t : ThreadId) (h : Run lib ok start m) (hok : ok m t)
      (hs : m.step lib t = some m') : Run lib ok start m'

variable {lib : Library σ} {ok : Machine σ → ThreadId → Prop} {start m m' : Machine σ}

theorem Run.reachable (h : Run lib ok start m) : Reachable lib start m := by
  induction h with
  | refl => exact .refl
  | step t _ _ hs ih => exact .step t ih hs

/-- Where `n` steps of the first thread lead to, as far as it has a step. -/
def walk (lib : Library σ) (m : Machine σ) : Nat → Machine σ
  | 0 => m
  | n + 1 => ((m.walk lib n).step lib 0).getD (m.walk lib n)

theorem Run.walk {n : Nat}
    (h : ∀ k < n, ok (m.walk lib k) 0 ∧ ((m.walk lib k).step lib 0).isSome = true) :
    Run lib ok m (m.walk lib n) := by
  induction n with
  | zero => exact .refl
  | succ n ih =>
      obtain ⟨hok, hsome⟩ := h n (Nat.lt_succ_self n)
      obtain ⟨next, hnext⟩ := Option.isSome_iff_exists.mp hsome
      refine .step 0 (ih fun k hk => h k (Nat.lt_succ_of_lt hk)) hok ?_
      rw [Machine.walk, hnext]
      rfl

theorem Reachable.walk (m : Machine σ) (n : Nat) : Reachable lib m (m.walk lib n) := by
  induction n with
  | zero => exact .refl
  | succ n ih =>
      unfold Machine.walk
      cases hs : (m.walk lib n).step lib 0 with
      | none => exact ih
      | some next => exact ih.step 0 hs

theorem step_walk (h : (m.step lib 0).isSome = true) : m.step lib 0 = some (m.walk lib 1) := by
  obtain ⟨next, hnext⟩ := Option.isSome_iff_exists.mp h
  show m.step lib 0 = some ((m.step lib 0).getD m)
  rw [hnext]
  rfl

-- ====================================================== threads

/-- What a step of `thread` works on. -/
def turn (m : Machine σ) (thread : Thread σ) : Turn σ :=
  ⟨m.store, m.shared, thread.control, thread.frames⟩

/-- The process once thread `t` has come to `turn`. -/
def after (m : Machine σ) (t : ThreadId) (turn : Turn σ) : Machine σ :=
  { store := turn.store
    shared := turn.shared
    threads := m.threads.modify t fun thread =>
      { thread with control := turn.control, frames := turn.frames } }

theorem after_threads {t : ThreadId} {thread : Thread σ} (ht : m.threads[t]? = some thread)
    (turn : Turn σ) :
    (m.after t turn).threads[t]?
      = some { thread with control := turn.control, frames := turn.frames } := by
  unfold after
  rw [Array.getElem?_modify, if_pos rfl, ht]
  rfl

/-- What a program that concerns other threads goes on as. -/
inductive Resumes : Program σ Value → Program σ Value → Prop
  | spawn (name : String) (body : Program σ Unit) (k : ThreadId → Program σ Value)
      (t : ThreadId) : Resumes (.spawn name body k) (k t)
  | join (other : ThreadId) (k : Program σ Value) : Resumes (.join other k) k
  | settle (other : ThreadId) (k : Bool → Program σ Value) (b : Bool) :
      Resumes (.settle other k) (k b)

/-- How a step of thread `t` came about. -/
inductive Stepped (lib : Library σ) (m : Machine σ) (t : ThreadId) (thread : Thread σ) :
    Machine σ → Prop
  /-- The thread did it by itself. -/
  | alone {turn : Turn σ} (h : (m.turn thread).step lib ⟨t, thread.name⟩ = some turn) :
      Stepped lib m t thread (m.after t turn)
  /-- The thread runs a program that concerns other threads. -/
  | program {p : Program σ Value} {s : Setting σ} {m' : Machine σ} (p' : Program σ Value)
      (started : Array (Thread σ)) (hc : thread.control = .run p s) (hp : Resumes p p')
      (hs : m'.store = m.store)
      (ht : m'.threads
        = (m.threads.modify t fun thread => { thread with control := .run p' s }) ++ started)
      (hnew : ∀ new ∈ started, new.frames = [] ∧ ∃ p s, new.control = .run p s) :
      Stepped lib m t thread m'

/-- A step of a process is a step of one of its threads. -/
theorem step_cases {t : ThreadId} (h : m.step lib t = some m') :
    m.store.halted = none
      ∧ ∃ thread, m.threads[t]? = some thread ∧ Stepped lib m t thread m' := by
  unfold step at h
  split at h
  · cases h
  · rename_i hhalt
    refine ⟨by simpa using hhalt, ?_⟩
    split at h
    · cases h
    · rename_i thread hthread
      refine ⟨thread, hthread, ?_⟩
      split at h
      · -- another thread is started
        rename_i name body k s hc
        cases h
        refine .program _ #[.start name body] hc (.spawn name body k _) rfl rfl fun new hnew => ?_
        obtain rfl := Array.mem_singleton.mp hnew
        exact ⟨rfl, _, _, rfl⟩
      · rename_i other k s hc
        split at h
        · cases h
          exact .program k #[] hc (.join other k) rfl (by simp [goto]) (by simp)
        · cases h
      · rename_i other k s hc
        cases h
        exact .program (k (m.hasEnded other)) #[] hc (.settle other k _) rfl (by simp [goto])
          (by simp)
      · obtain ⟨turn, hturn, rfl⟩ := Option.map_eq_some_iff.mp h
        exact .alone hturn

/-- A thread that does not run a program does what it does by itself. -/
theorem step_alone {t : ThreadId} {thread : Thread σ} (hhalt : m.store.halted = none)
    (ht : m.threads[t]? = some thread) (hc : ∀ p s, thread.control ≠ .run p s) :
    m.step lib t = ((m.turn thread).step lib ⟨t, thread.name⟩).map (m.after t) := by
  unfold step
  rw [hhalt, ht]
  simp only [Option.isSome_none, Bool.false_eq_true, if_false]
  split
  · rename_i hrun
    exact (hc _ _ hrun).elim
  · rename_i hrun
    exact (hc _ _ hrun).elim
  · rename_i hrun
    exact (hc _ _ hrun).elim
  · rfl

-- ====================================================== all threads

/-- What is so of every thread after a step: it is so of the thread that has
stepped, by itself or with its program, it is still so of the others, and it is
so of a thread that has been started. -/
theorem step_threads {P : Turn σ → Prop} {t : ThreadId} (h : m.step lib t = some m')
    (hstep : ∀ {thread : Thread σ} {turn : Turn σ}, m.threads[t]? = some thread →
      (m.turn thread).step lib ⟨t, thread.name⟩ = some turn → m'.store = turn.store → P turn)
    (hprogram : ∀ {thread : Thread σ} {p p' : Program σ Value} {s : Setting σ},
      m.threads[t]? = some thread → thread.control = .run p s → Resumes p p' →
      m'.store = m.store → P (m'.turn { thread with control := .run p' s }))
    (hother : ∀ {u : ThreadId} {thread : Thread σ}, m.threads[u]? = some thread →
      P (m'.turn thread))
    (hstart : ∀ {thread : Thread σ}, thread.frames = [] → (∃ p s, thread.control = .run p s) →
      P (m'.turn thread))
    {u : ThreadId} {thread : Thread σ} (hu : m'.threads[u]? = some thread) :
    P (m'.turn thread) := by
  obtain ⟨-, stepper, ht, hstepped⟩ := step_cases h
  cases hstepped with
  | @alone turn hturn =>
      by_cases htu : t = u
      · subst htu
        obtain rfl := Option.some.inj ((after_threads ht turn).symm.trans hu)
        exact hstep ht hturn rfl
      · refine hother (u := u) ?_
        unfold after at hu
        rw [Array.getElem?_modify, if_neg htu] at hu
        exact hu
  | @program p s _ p' started hc hp hstore hthreads hnew =>
      rw [hthreads, Array.getElem?_append] at hu
      split at hu
      · rw [Array.getElem?_modify] at hu
        split at hu
        · -- the thread goes on with its program
          rename_i htu
          subst htu
          rw [ht] at hu
          obtain rfl := Option.some.inj hu
          exact hprogram ht hc hp hstore
        · exact hother hu
      · obtain ⟨hframes, hrun⟩ := hnew thread (Array.mem_of_getElem? hu)
        exact hstart hframes hrun

/-- The thread that takes a step takes one of its turns, or leaves the store as
it is and goes on with a program. -/
theorem step_mover {t : ThreadId} (h : m.step lib t = some m') :
    ∃ thread thread', m.threads[t]? = some thread ∧ m'.threads[t]? = some thread'
      ∧ ((m.turn thread).step lib ⟨t, thread.name⟩ = some (m'.turn thread')
        ∨ ∃ p p' s, thread.control = .run p s ∧ Resumes p p' ∧ m'.store = m.store
          ∧ thread'.control = .run p' s ∧ thread'.frames = thread.frames) := by
  obtain ⟨-, thread, hthread, hstepped⟩ := step_cases h
  cases hstepped with
  | @alone turn hturn => exact ⟨thread, _, hthread, after_threads hthread turn, .inl hturn⟩
  | @program p s _ p' started hc hp hstore hthreads hnew =>
      have hlt : t < m.threads.size := (Array.getElem?_eq_some_iff.mp hthread).1
      refine ⟨thread, { thread with control := .run p' s }, hthread, ?_,
        .inr ⟨p, p', s, hc, hp, hstore, rfl, rfl⟩⟩
      rw [hthreads, Array.getElem?_append_left (by simpa using hlt), Array.getElem?_modify,
        if_pos rfl, hthread]
      rfl

/-- A step of one thread leaves the others where they are. -/
theorem step_other {t u : ThreadId} {thread : Thread σ} (h : m.step lib t = some m') (htu : t ≠ u)
    (hu : m.threads[u]? = some thread) : m'.threads[u]? = some thread := by
  obtain ⟨-, stepper, ht, hs⟩ := step_cases h
  cases hs with
  | alone hturn =>
      unfold after
      rw [Array.getElem?_modify, if_neg htu]
      exact hu
  | program p' started hc hp hstore hthreads hnew =>
      have hlt : u < m.threads.size := (Array.getElem?_eq_some_iff.mp hu).1
      rw [hthreads, Array.getElem?_append_left (by simpa using hlt), Array.getElem?_modify,
        if_neg htu]
      exact hu

/-- A thread that is there after a step of another one was there before, or has
been started by it. -/
theorem step_others {t u : ThreadId} {thread : Thread σ} (h : m.step lib t = some m') (htu : t ≠ u)
    (hu : m'.threads[u]? = some thread) :
    m.threads[u]? = some thread ∨ thread.frames = [] ∧ ∃ p s, thread.control = .run p s := by
  obtain ⟨-, stepper, ht, hs⟩ := step_cases h
  cases hs with
  | alone hturn =>
      unfold after at hu
      rw [Array.getElem?_modify, if_neg htu] at hu
      exact .inl hu
  | program p' started hc hp hstore hthreads hnew =>
      rw [hthreads, Array.getElem?_append] at hu
      split at hu
      · rw [Array.getElem?_modify, if_neg htu] at hu
        exact .inl hu
      · exact .inr (hnew thread (Array.mem_of_getElem? hu))

-- ====================================================== one thread

/-- The process has one thread, and its next step is a `good` one. -/
def Alone (good : Turn σ → Prop) (m : Machine σ) : Prop :=
  m.threads.size = 1 ∧ ∀ thread ∈ m.threads, good (m.turn thread)

instance (good : Turn σ → Prop) [DecidablePred good] (m : Machine σ) : Decidable (m.Alone good) :=
  inferInstanceAs (Decidable (_ ∧ _))

/-- `step_mover` for a process with one thread. -/
theorem step_single {thread thread' : Thread σ} (h : m.step lib 0 = some m')
    (ht : m.threads = #[thread]) (ht' : m'.threads = #[thread']) :
    (m.turn thread).step lib ⟨0, thread.name⟩ = some (m'.turn thread')
      ∨ ∃ p p' s, thread.control = .run p s ∧ Resumes p p' ∧ m'.store = m.store
        ∧ thread'.control = .run p' s ∧ thread'.frames = thread.frames := by
  obtain ⟨thread₀, thread₁, hthread, hthread', hmove⟩ := step_mover h
  rw [ht] at hthread
  rw [ht'] at hthread'
  obtain rfl := Option.some.inj hthread
  obtain rfl := Option.some.inj hthread'
  exact hmove

/-- Where there is one thread, it has what all threads have. -/
theorem single_thread {P : Thread σ → Prop} (hone : m.threads.size = 1)
    (hall : ∀ thread ∈ m.threads, P thread) : ∃ thread, m.threads = #[thread] ∧ P thread := by
  obtain ⟨thread, ht⟩ := Array.size_eq_one_iff.mp hone
  exact ⟨thread, ht, hall thread (ht ▸ Array.mem_singleton.mpr rfl)⟩

/-- What a thread that is alone has at the start and keeps at every `good`
step, it has wherever it gets to. -/
theorem Run.alone {good P : Turn σ → Prop} {thread : Thread σ}
    (h : Run lib (fun m _ => m.Alone good) start m)
    (h0 : ∀ thread, start.threads = #[thread] → P (start.turn thread))
    (hstep : ∀ {t t' : Turn σ} {name : String}, P t → good t →
      t.step lib ⟨0, name⟩ = some t' → P t')
    (hprogram : ∀ {t t' : Turn σ} {p p' : Program σ Value} {s : Setting σ}, P t → good t →
      t.control = .run p s → Resumes p p' → t'.store = t.store → t'.control = .run p' s →
      t'.frames = t.frames → P t')
    (ht : m.threads = #[thread]) : P (m.turn thread) := by
  induction h generalizing thread with
  | refl => exact h0 thread ht
  | @step m m' t h hok hs ih =>
      obtain ⟨hsize, hgood⟩ := hok
      obtain ⟨before, hbefore, hg⟩ := single_thread hsize hgood
      have hP := ih hbefore
      obtain ⟨-, thread₀, hthread, -⟩ := step_cases hs
      have hlt : t < m.threads.size := (Array.getElem?_eq_some_iff.mp hthread).1
      obtain rfl : t = 0 := Nat.lt_one_iff.mp (hsize ▸ hlt)
      rcases step_single hs hbefore ht with hturn | ⟨p, p', s, hc, hp, hstore, hc', hframes⟩
      · exact hstep hP hg hturn
      · exact hprogram hP hg hc hp hstore hc' hframes

-- ====================================================== the start

/-- A process in which nothing has happened: nothing is cached, whatever
records there are need no completion, and every thread is about to run a
program. -/
structure Fresh (m : Machine σ) : Prop where
  entries : m.store.entries = #[]
  fixed : ∀ r ∈ m.store.records, r.origin = .fixed
  running : ∀ thread ∈ m.threads, thread.frames = [] ∧ ∃ p s, thread.control = .run p s

/-- A process with the builtins, one registry and one thread. -/
def launch (c : Config) (x : σ) (p : Program σ Unit) : Machine σ :=
  { store := { registries := #[.new c] }, shared := x, threads := #[.start "main" p] }

theorem fresh_launch (c : Config) (x : σ) (p : Program σ Unit) : (launch c x p).Fresh where
  entries := rfl
  fixed := by
    show ∀ r ∈ Records.builtins, r.origin = .fixed
    decide
  running thread h := by
    obtain rfl := Array.mem_singleton.mp h
    exact ⟨rfl, _, _, rfl⟩

/-- A process whose program requests the first type, and waits until it is complete. -/
def demanding : Machine Unit :=
  launch .standard () (.request 0 .complete (.generic 0 []) fun _ => .done ())

/-- A library that declares nothing. -/
def bare : Library Unit where
  descriptors := #[]
  protocols := #[]
  conformances := #[]
  initializer _ := none
  hook _ _ := .done ()

/-- Two types that wait for each other, in a way that works out: the outer one
needs the inner one complete, and the inner one only the layout of the outer
one. Each takes two steps. -/
def pair : Library Unit :=
  { bare with
    descriptors := #[
      { name := "Outer"
        kind := .struct
        parameters := 0
        fields := []
        layout := none
        words := []
        instantiate := none
        completion := some (.callback fun registry record =>
          .scratch (·.map (· + 1)) fun w =>
            if w.contains 1 then
              .request registry (.poll .complete) (.generic 1 []) fun r =>
                .act (.publish record (.scalar 8)) fun _ => .done (some ⟨r.record, .complete⟩)
            else .done none) },
      { name := "Inner"
        kind := .struct
        parameters := 0
        fields := []
        layout := none
        words := []
        instantiate := none
        completion := some (.callback fun registry _ =>
          .scratch (·.map (· + 1)) fun w =>
            if w.contains 1 then
              .request registry (.poll .complete) (.generic 0 []) fun r =>
                .done (some ⟨r.record, .layoutComplete⟩)
            else .done none) }] }

end Machine

end TypeRecords
