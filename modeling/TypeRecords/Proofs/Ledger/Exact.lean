/-
The counters are an exact ledger, in whole runs.

What a chronicle shows is counted directly: the steps in which a request looks a
key up (`Chronicle.LooksUp`), the steps that queue an initialization
(`Chronicle.Parks`), and the entries that some step has made complete after their
record was there (`Chronicle.completed`). Four equations relate the counters of a
registry to these numbers, to its entries, and to what all threads together still
owe (`Chronicle.Kept`); a step keeps them because it keeps the balance. At rest
nobody owes anything, which gives the equations one expects
(`Chronicle.ledger_exact`).

An entry is counted once in `completed`, though it could be made complete by many
steps, for all the definition says: that it is not is a fact about runs. A
complete entry stays complete.
-/
import TypeRecords.Proofs.Ledger.Balance
import TypeRecords.Proofs.Waiting.Dropping

namespace TypeRecords

variable {σ : Type}

-- ====================================================== all threads

/-- What a thread owes, wherever it is. -/
def Thread.owes (thread : Thread σ) : List (RegistryId × Due) :=
  thread.control.owes ++ framesOwe thread.frames

/-- Whoever is in no call owes nothing. -/
theorem Thread.owes_of_rest {thread : Thread σ} (h : thread.atRest = true) : thread.owes = [] := by
  obtain ⟨hf, hc⟩ := Bool.and_eq_true_iff.mp h
  unfold owes
  rw [List.isEmpty_iff.mp hf]
  split at hc
  · rename_i hrun
    rw [hrun]
    rfl
  · rename_i hgive
    rw [hgive]
    rfl
  · rename_i hended
    rw [hended]
    rfl
  · cases hc

namespace Machine

variable {lib : Library σ} {start m m' : Machine σ} {t : ThreadId} {thread : Thread σ}
  {registry : RegistryId}

/-- How many items of a kind all threads owe the ledger of a registry. -/
def due (m : Machine σ) (registry : RegistryId) (x : Due) : Nat :=
  (m.threads.toList.map Thread.owes).flatten.count (registry, x)

/-- When one thread changes, the others owe what they owed. -/
theorem due_modify (h : m.threads[t]? = some thread) {f : Thread σ → Thread σ}
    (hm : m'.threads = m.threads.modify t f) (registry : RegistryId) (x : Due) :
    m'.due registry x + thread.owes.count (registry, x)
      = m.due registry x + (f thread).owes.count (registry, x) := by
  have hbefore : (m.threads.toList.map Thread.owes)[t]? = some thread.owes := by
    rw [List.getElem?_map, Array.getElem?_toList, h]
    rfl
  have hafter : (m'.threads.toList.map Thread.owes)
      = (m.threads.toList.map Thread.owes).set t (f thread).owes := by
    refine List.ext_getElem? fun i => ?_
    rw [List.getElem?_map, Array.getElem?_toList, hm, Array.getElem?_modify, List.getElem?_set,
      List.getElem?_map, Array.getElem?_toList]
    have hlt := (List.getElem?_eq_some_iff.mp hbefore).1
    by_cases hi : t = i
    · subst hi
      rw [if_pos rfl, if_pos rfl, if_pos hlt, h]
      rfl
    · rw [if_neg hi, if_neg hi]
  have hset : ((m.threads.toList.map Thread.owes).set t (f thread).owes)[t]?
      = some (f thread).owes := by
    rw [List.getElem?_set, if_pos rfl, if_pos (List.getElem?_eq_some_iff.mp hbefore).1]
  unfold due
  rw [hafter, (Store.flatten_perm_eraseIdx hbefore).count_eq,
    (Store.flatten_perm_eraseIdx hset).count_eq, List.eraseIdx_set_eq, List.count_append,
    List.count_append]
  omega

/-- Threads that are started owe nothing. -/
theorem due_program (h : m.threads[t]? = some thread) {p p' : Program σ Value} {s : Setting σ}
    (hc : thread.control = .run p s) {started : Array (Thread σ)}
    (hm : m'.threads
      = (m.threads.modify t fun thread => { thread with control := .run p' s }) ++ started)
    (hnew : ∀ new ∈ started, new.frames = [] ∧ ∃ p s, new.control = .run p s)
    (registry : RegistryId) (x : Due) : m'.due registry x = m.due registry x := by
  let modified : Machine σ :=
    { m with threads := m.threads.modify t fun thread => { thread with control := .run p' s } }
  have hsame : ({ thread with control := .run p' s } : Thread σ).owes = thread.owes := by
    unfold Thread.owes
    rw [hc]
    rfl
  have hmodified : modified.due registry x + thread.owes.count (registry, x) = m.due registry x
      + ({ thread with control := .run p' s } : Thread σ).owes.count (registry, x) :=
    due_modify h (f := fun thread => { thread with control := .run p' s }) rfl registry x
  rw [hsame] at hmodified
  have hnone : (started.toList.map Thread.owes).flatten = [] := by
    refine List.flatten_eq_nil_iff.mpr fun l hl => ?_
    obtain ⟨new, hm, rfl⟩ := List.mem_map.mp hl
    obtain ⟨hf, p, s, hrun⟩ := hnew new (Array.mem_toList_iff.mp hm)
    unfold Thread.owes
    rw [hf, hrun]
    rfl
  have happend : m'.due registry x = modified.due registry x := by
    unfold due
    rw [hm, Array.toList_append, List.map_append, List.flatten_append, hnone, List.append_nil]
  omega

/-- What the thread that takes a step does is on the list, and the others owe what
they owed. -/
theorem step_posts (h : m.step lib t = some m') (hcalm : m.Calm) (hcalm' : m'.Calm) :
    ∃ thread thread', m.threads[t]? = some thread ∧ m'.threads[t]? = some thread'
      ∧ Turn.Posts lib (m.turn thread) (m'.turn thread')
      ∧ ∀ registry x, m'.due registry x + (m.turn thread).due registry x
        = m.due registry x + (m'.turn thread').due registry x := by
  obtain ⟨-, thread, hthread, hs⟩ := step_cases h
  have hc := hcalm thread (Array.mem_of_getElem? hthread)
  cases hs with
  | @alone turn hturn =>
      have hthread' := after_threads hthread turn
      exact ⟨thread, _, hthread, hthread',
        Turn.step_posts hturn hc (hcalm' _ (Array.mem_of_getElem? hthread')),
        due_modify hthread (f := fun thread =>
          { thread with control := turn.control, frames := turn.frames }) rfl⟩
  | @program p s _ p' started hrun hp hstore hm hnew =>
      have hlt : t < m.threads.size := (Array.getElem?_eq_some_iff.mp hthread).1
      have hthread' : m'.threads[t]? = some { thread with control := .run p' s } := by
        rw [hm, Array.getElem?_append_left (by simpa using hlt), Array.getElem?_modify,
          if_pos rfl, hthread]
        rfl
      have hrun' : (m.turn thread).control = .run p s := hrun
      have hnone : (m.turn thread).control.looksUp? lib = none := by
        rw [hrun']
        cases hp <;> rfl
      have howes : (m'.turn { thread with control := .run p' s }).owes = (m.turn thread).owes :=
        (Turn.owes_of_control hrun').symm
      refine ⟨thread, _, hthread, hthread', .still hnone (.of_eq (congrArg Store.entries hstore))
        (Store.books_of_registries (congrArg Store.registries hstore)) howes, fun registry x => ?_⟩
      rw [due_program hthread hrun hm hnew, Turn.due, Turn.due, howes]

-- ====================================================== chronicles

namespace Chronicle

variable {r : Chronicle lib start} {k : Nat}

/-- The registry in whose caches a request looks a key up in step `k`. -/
def looksUp? (r : Chronicle lib start) (k : Nat) : Option RegistryId :=
  ((r.state k).threads[r.mover k]?).bind fun thread => thread.control.looksUp? lib

/-- In step `k` a request looks a key up in the caches of the registry. -/
def LooksUp (r : Chronicle lib start) (registry : RegistryId) (k : Nat) : Prop :=
  r.looksUp? k = some registry

instance (registry : RegistryId) : DecidablePred (r.LooksUp registry) :=
  fun _ => inferInstanceAs (Decidable (_ = _))

/-- In step `k` an initialization of the registry comes to be on a queue. -/
def Parks (r : Chronicle lib start) (registry : RegistryId) (k : Nat) : Prop :=
  (r.state k).store.Parks (r.state (k + 1)).store registry

instance (registry : RegistryId) : DecidablePred (r.Parks registry) :=
  fun k => inferInstanceAs (Decidable ((r.state k).store.Parks (r.state (k + 1)).store registry))

/-- The entries of the registry that have been there with their records and then
become complete, in one of the first `k` steps. -/
def completed (r : Chronicle lib start) (registry : RegistryId) (k : Nat) : Finset EntryId :=
  (Finset.range (r.state k).store.entries.size).filter fun i =>
    ∃ j < k, (r.state j).store.Completes (r.state (j + 1)).store registry i

/-- Requests go to registries that are open. -/
def Addressed (r : Chronicle lib start) (k : Nat) : Prop :=
  ∀ j < k, ∀ registry ∈ r.looksUp? j, registry < (r.state j).store.registries.size

instance (k : Nat) : Decidable (r.Addressed k) :=
  inferInstanceAs (Decidable (∀ j < k, ∀ registry ∈ r.looksUp? j,
    registry < (r.state j).store.registries.size))

/-- The equations, with what is owed. -/
structure Kept (r : Chronicle lib start) (k : Nat) : Prop where
  housed : (r.state k).store.Housed
  looked : ∀ registry, (r.state k).store.tally registry .hit
    + (r.state k).store.tally registry .instantiation + (r.state k).due registry .allocation
      = Nat.count (r.LooksUp registry) k
  cached : ∀ registry, (r.state k).store.tally registry .instantiation
    + (r.state k).due registry .allocation = (r.state k).store.cachedCount registry
  settled : ∀ registry, (r.state k).store.tally registry .step
    = (r.state k).store.tally registry .dependency + (r.completed registry k).card
      + (r.state k).due registry .outcome
  parked : ∀ registry, (r.state k).store.tally registry .resumption
    + (r.state k).store.queued registry + (r.state k).due registry .waiter
      = Nat.count (r.Parks registry) k

theorem mem_completed {registry : RegistryId} {i : EntryId} (hf : start.Fresh) (hk : k ≤ r.length) :
    i ∈ r.completed registry k
      ↔ ∃ j < k, (r.state j).store.Completes (r.state (j + 1)).store registry i := by
  unfold completed
  rw [Finset.mem_filter, Finset.mem_range]
  refine ⟨fun h => h.2, fun h => ⟨?_, h⟩⟩
  obtain ⟨j, hj, -, -, -, -, -, e', he', -⟩ := h
  have hadvances := (r.reachable (Nat.le_trans hj hk)).advances hf (r.later hj hk)
  obtain ⟨x, hx, -⟩ := hadvances.entries he'
  exact (Array.getElem?_eq_some_iff.mp hx).1

/-- What becomes complete in a step has not become complete before. -/
theorem card_completed (hf : start.Fresh) (registry : RegistryId) (hk : k < r.length) :
    (r.completed registry (k + 1)).card = (r.completed registry k).card
      + ((r.state k).store.completed (r.state (k + 1)).store registry).card := by
  have hunion : r.completed registry (k + 1) = r.completed registry k
      ∪ (r.state k).store.completed (r.state (k + 1)).store registry := by
    ext i
    rw [Finset.mem_union, mem_completed hf hk, mem_completed hf (Nat.le_of_lt hk),
      Store.mem_completed]
    constructor
    · rintro ⟨j, hj, h⟩
      rcases Nat.lt_or_eq_of_le (Nat.le_of_lt_succ hj) with hlt | rfl
      · exact .inl ⟨j, hlt, h⟩
      · exact .inr h
    · rintro (⟨j, hj, h⟩ | h)
      · exact ⟨j, Nat.lt_succ_of_lt hj, h⟩
      · exact ⟨k, Nat.lt_succ_self k, h⟩
  have hdisjoint : Disjoint (r.completed registry k)
      ((r.state k).store.completed (r.state (k + 1)).store registry) := by
    refine Finset.disjoint_left.mpr fun i hi hi' => ?_
    obtain ⟨j, hj, -, -, -, -, -, e', he', hc⟩ := (mem_completed hf (Nat.le_of_lt hk)).mp hi
    obtain ⟨e, he, -, -, hu, -⟩ := Store.mem_completed.mp hi'
    -- it was complete in state `j + 1`, and has stayed so
    have hreach := r.reachable (Nat.le_trans hj (Nat.le_of_lt hk))
    obtain ⟨-, x, hx, -, -, hfinal⟩ :=
      hreach.stages_advance hf (r.later hj (Nat.le_of_lt hk)) he'
    obtain rfl := Option.some.inj (hx.symm.trans he)
    exact hu (hfinal hc).1.stage
  rw [hunion, Finset.card_union_of_disjoint hdisjoint]

/-- At the start nothing has been done, and nothing is owed. -/
theorem Kept.zero (hf : start.Fresh)
    (hnew : ∀ registry ∈ start.store.registries, registry.ledger = {}) : r.Kept 0 := by
  have htally : ∀ registry mark, start.store.tally registry mark = 0 := fun registry mark => by
    have hledger : start.store.ledgerOf registry = {} := by
      unfold Store.ledgerOf
      cases hr : start.store.registries[registry]? with
      | none => rfl
      | some x => exact hnew x (Array.mem_of_getElem? hr)
    unfold Store.tally
    rw [hledger]
    cases mark <;> rfl
  have hdue : ∀ registry x, start.due registry x = 0 := fun registry x => by
    have hnone : (start.threads.toList.map Thread.owes).flatten = [] := by
      refine List.flatten_eq_nil_iff.mpr fun l hl => ?_
      obtain ⟨thread, hm, rfl⟩ := List.mem_map.mp hl
      obtain ⟨hfs, p, s, hrun⟩ := hf.running thread (Array.mem_toList_iff.mp hm)
      unfold Thread.owes
      rw [hfs, hrun]
      rfl
    unfold due
    rw [hnone]
    rfl
  have htotal : ∀ g, start.store.total g = 0 := fun g => by
    unfold Store.total
    rw [hf.entries]
    rfl
  have hcompleted : ∀ registry, r.completed registry 0 = ∅ := fun registry => by
    unfold completed
    simp
  constructor
  · rw [r.first]
    intro e he
    rw [hf.entries] at he
    simp at he
  all_goals intro registry
  · rw [r.first, htally, htally, hdue, Nat.count_zero]
  · rw [r.first, htally, hdue, Store.cachedCount_eq, htotal]
  · rw [r.first, htally, htally, hdue, hcompleted]
    rfl
  · rw [r.first, htally, hdue, Store.queued, htotal, Nat.count_zero]

theorem Kept.succ (hf : start.Fresh) (h : r.Kept k) (hk : k < r.length)
    (hcalm : (r.state k).Calm) (hcalm' : (r.state (k + 1)).Calm)
    (hq : ∀ registry ∈ r.looksUp? k, registry < (r.state k).store.registries.size) :
    r.Kept (k + 1) := by
  obtain ⟨thread, thread', hthread, -, hposts, hdue⟩ := step_posts (r.step k hk) hcalm hcalm'
  have hlooks : ∀ registry, ((r.state k).turn thread).control.looksUp? lib = some registry
      ↔ r.LooksUp registry k := fun registry => by
    unfold LooksUp looksUp?
    rw [hthread]
    exact Iff.rfl
  have hq' := fun registry hlook => hq registry ((hlooks registry).mp hlook)
  have ho := ((r.reachable (Nat.le_of_lt hk)).owned hf).perm (holds_split hthread).symm
  have hbalance := hposts.balance ho h.housed hq'
  refine ⟨hposts.housed h.housed hq', ?_, ?_, ?_, ?_⟩
  · intro registry
    have hstep := (hbalance registry).looked
    have hbefore := h.looked registry
    have hothers := hdue registry .allocation
    simp only [hlooks] at hstep
    simp only [turn] at hstep hothers
    rw [Nat.count_succ]
    omega
  · intro registry
    have hstep := (hbalance registry).cached
    have hbefore := h.cached registry
    have hothers := hdue registry .allocation
    simp only [turn] at hstep hothers
    omega
  · intro registry
    have hstep := (hbalance registry).settled
    have hbefore := h.settled registry
    have hothers := hdue registry .outcome
    simp only [turn] at hstep hothers
    rw [card_completed hf registry hk]
    omega
  · intro registry
    have hstep := (hbalance registry).parked
    have hbefore := h.parked registry
    have hothers := hdue registry .waiter
    have hparks : (if r.Parks registry k then 1 else 0)
        = if ((r.state k).turn thread).store.Parks ((r.state (k + 1)).turn thread').store registry
          then 1 else 0 := rfl
    rw [Nat.count_succ, hparks]
    simp only [turn] at hstep hothers ⊢
    omega

theorem kept (hf : start.Fresh) (hnew : ∀ registry ∈ start.store.registries, registry.ledger = {})
    (hk : k ≤ r.length) (hcalm : ∀ j ≤ k, (r.state j).Calm) (ha : r.Addressed k) : r.Kept k := by
  induction k with
  | zero => exact .zero hf hnew
  | succ k ih =>
      exact (ih (Nat.le_of_succ_le hk) (fun j hj => hcalm j (Nat.le_succ_of_le hj))
          fun j hj => ha j (Nat.lt_succ_of_lt hj)).succ hf hk (hcalm k (Nat.le_succ k))
        (hcalm (k + 1) (Nat.le_refl _)) (ha k (Nat.lt_succ_self k))

/-- As long as nothing unwinds whatever is unfinished is looked after, so at rest
every entry has its record. -/
theorem records_of_rest (hf : start.Fresh) (hk : k ≤ r.length) (hcalm : ∀ j ≤ k, (r.state j).Calm)
    (hrest : ∀ thread ∈ (r.state k).threads, thread.atRest = true) :
    ∀ e ∈ (r.state k).store.entries, e.record.isSome = true := by
  intro e hm
  obtain ⟨i, he⟩ := Array.mem_iff_getElem?.mp hm
  have ho := (r.reachable hk).owned hf
  cases hr : e.record with
  | some record => rfl
  | none =>
      have hu : e.stage ≠ .complete := fun hc => by
        rw [((ho.sound he).blank hr).1] at hc
        cases hc
      have hheld := (r.run hk fun j hj => hcalm j (Nat.le_of_lt hj)).held hf
        (hcalm k (Nat.le_refl k)) i e he hu
      rw [holds_of_rest hrest] at hheld
      have hwaits : i ∈ (r.state k).store.waiting := by
        refine List.count_pos_iff.mp ?_
        unfold Store.holders at hheld
        simp at hheld
        omega
      obtain ⟨queue, x, w, hx, hw, rfl⟩ := Store.of_mem_waiting hwaits
      obtain ⟨own, -, hown, hparked, -⟩ := ho.parked hx hw
      obtain rfl := Option.some.inj (he.symm.trans hown)
      have hrecord := hparked.record
      rw [hr] at hrecord
      cases hrecord

/-- The counters are an exact ledger. Take any run, with any number of threads and
registries, that starts with nothing cached and nothing counted, and in which
nothing unwinds and requests go to registries that are open. Whenever all threads
are at rest, the counters of every registry say this:

- hits and instantiations together are the requests that have looked a key up: for
  a descriptor with the right number of arguments, or for a tuple with elements,
  made by anyone, at any depth;
- instantiations are the records in its caches;
- steps are the dependencies that stopped one, and the records that became
  complete after they had been allocated;
- resumptions, and the waiters that are still queued, are the times an
  initialization was parked. -/
theorem ledger_exact (hf : start.Fresh)
    (hnew : ∀ registry ∈ start.store.registries, registry.ledger = {}) (r : Chronicle lib start)
    (hk : k ≤ r.length) (hcalm : ∀ j ≤ k, (r.state j).Calm) (ha : r.Addressed k)
    (hrest : ∀ thread ∈ (r.state k).threads, thread.atRest = true) (registry : RegistryId) :
    ((r.state k).store.ledgerOf registry).hits
        + ((r.state k).store.ledgerOf registry).instantiations
      = Nat.count (r.LooksUp registry) k
    ∧ ((r.state k).store.ledgerOf registry).instantiations
      = (r.state k).store.cachedCount registry
    ∧ (∀ e ∈ (r.state k).store.entries, e.record.isSome = true)
    ∧ ((r.state k).store.ledgerOf registry).steps
      = ((r.state k).store.ledgerOf registry).dependencies + (r.completed registry k).card
    ∧ ((r.state k).store.ledgerOf registry).resumptions + (r.state k).store.queued registry
      = Nat.count (r.Parks registry) k := by
  have hkept := kept hf hnew hk hcalm ha
  have hnone : ∀ x, (r.state k).due registry x = 0 := fun x => by
    have hflat : ((r.state k).threads.toList.map Thread.owes).flatten = [] := by
      refine List.flatten_eq_nil_iff.mpr fun l hl => ?_
      obtain ⟨thread, hm, rfl⟩ := List.mem_map.mp hl
      exact Thread.owes_of_rest (hrest thread (Array.mem_toList_iff.mp hm))
    unfold due
    rw [hflat]
    rfl
  refine ⟨?_, ?_, records_of_rest hf hk hcalm hrest, ?_, ?_⟩
  · have h := hkept.looked registry
    rwa [hnone, Nat.add_zero] at h
  · have h := hkept.cached registry
    rwa [hnone, Nat.add_zero] at h
  · have h := hkept.settled registry
    rwa [hnone, Nat.add_zero] at h
  · have h := hkept.parked registry
    rwa [hnone, Nat.add_zero] at h

/-- Of two types that wait for each other the inner one is parked and taken up
again. Three keys are looked up for the two records, and of four steps two are
stopped. -/
theorem ledger_exact_pair :
    ∃ (start : Machine Unit) (r : Chronicle pair start), start.Fresh
      ∧ (∀ registry ∈ start.store.registries, registry.ledger = {})
      ∧ (∀ j ≤ 43, (r.state j).Calm) ∧ r.Addressed 43
      ∧ (∀ thread ∈ (r.state 43).threads, thread.atRest = true)
      ∧ (r.state 43).store.ledgerOf 0
        = { instantiations := 2, hits := 1, steps := 4, dependencies := 2, resumptions := 1 }
      ∧ 1 + 2 = Nat.count (r.LooksUp 0) 43 ∧ 2 = (r.state 43).store.cachedCount 0
      ∧ 4 = 2 + (r.completed 0 43).card
      ∧ 1 + (r.state 43).store.queued 0 = Nat.count (r.Parks 0) 43 := by
  let start : Machine Unit := demanding
  have hf : start.Fresh := fresh_launch _ () _
  let r : Chronicle pair start := .walk pair start 43 (by decide +kernel)
  have hnew : ∀ registry ∈ start.store.registries, registry.ledger = {} := by decide
  have hcalm : ∀ j ≤ 43, (r.state j).Calm := fun j hj =>
    (by decide +kernel : ∀ j < 44, (start.walk pair j).Calm) j (Nat.lt_succ_of_le hj)
  have ha : r.Addressed 43 := by decide +kernel
  have hrest : ∀ thread ∈ (r.state 43).threads, thread.atRest = true := by decide +kernel
  have hledger : (r.state 43).store.ledgerOf 0
      = { instantiations := 2, hits := 1, steps := 4, dependencies := 2, resumptions := 1 } := by
    decide +kernel
  obtain ⟨hlooked, hcached, -, hsettled, hparked⟩ :=
    ledger_exact hf hnew r (Nat.le_refl 43) hcalm ha hrest 0
  rw [hledger] at hlooked hcached hsettled hparked
  exact ⟨start, r, hf, hnew, hcalm, ha, hrest, hledger, hlooked, hcached, hsettled, hparked⟩

end Chronicle

end Machine

end TypeRecords
