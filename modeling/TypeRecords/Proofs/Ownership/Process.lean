/-
Owners in a process with any number of threads.

What one thread does to entries is `Turn.Shift`; the holds of all other
threads stand by. So the two results about shifts become results about
processes: wherever a process gets to, no entry has two holders
(`Reachable.owned`), and as long as nothing has unwound whatever is unfinished
has one (`Run.held`).
-/
import TypeRecords.Proofs.Ownership.Step
import TypeRecords.Proofs.Process.Run

namespace TypeRecords

variable {σ : Type}

/-- What thread `i` holds. -/
def Thread.holds (i : ThreadId) (thread : Thread σ) : List Hold :=
  thread.control.holds i ++ framesHold i thread.frames

namespace Machine

variable {lib : Library σ} {start m m' : Machine σ} {t : ThreadId} {thread : Thread σ}

/-- What all threads hold. -/
def holds (m : Machine σ) : List Hold := (m.threads.toList.mapIdx Thread.holds).flatten

/-- What the threads besides `t` hold. -/
def othersHold (m : Machine σ) (t : ThreadId) : List Hold :=
  ((m.threads.toList.mapIdx Thread.holds).eraseIdx t).flatten

/-- Nothing unwinds, and nothing is about to. -/
def Calm (m : Machine σ) : Prop := ∀ thread ∈ m.threads, thread.control.disturbed = false

instance (m : Machine σ) : Decidable m.Calm :=
  inferInstanceAs (Decidable (∀ thread ∈ m.threads, thread.control.disturbed = false))

-- ====================================================== one thread and the others

theorem holds_split (h : m.threads[t]? = some thread) :
    m.holds.Perm (thread.holds t ++ m.othersHold t) := by
  refine Store.flatten_perm_eraseIdx ?_
  rw [List.getElem?_mapIdx, Array.getElem?_toList, h, Option.map_some]

/-- What a thread holds is held. -/
theorem mem_holds (h : m.threads[t]? = some thread) {hold : Hold} (hm : hold ∈ thread.holds t) :
    hold ∈ m.holds :=
  (holds_split h).mem_iff.mpr (List.mem_append_left _ hm)

theorem mem_holds_of_control (h : m.threads[t]? = some thread) {hold : Hold}
    (hm : hold ∈ thread.control.holds t) : hold ∈ m.holds :=
  mem_holds h (List.mem_append_left _ hm)

theorem mem_holds_of_frame (h : m.threads[t]? = some thread) {f : Frame σ} (hf : f ∈ thread.frames)
    {hold : Hold} (hm : hold ∈ f.holds t) : hold ∈ m.holds :=
  mem_holds h (List.mem_append_right _ (List.mem_flatMap.mpr ⟨f, hf, hm⟩))

/-- When a thread changes, the others hold what they held. -/
theorem holds_modify (h : m.threads[t]? = some thread) {f : Thread σ → Thread σ}
    (hm : m'.threads = m.threads.modify t f) :
    m'.holds.Perm ((f thread).holds t ++ m.othersHold t) := by
  have hlt : t < m.threads.toList.length := by
    simpa using (Array.getElem?_eq_some_iff.mp h).1
  have hset : m'.threads.toList.mapIdx Thread.holds
      = (m.threads.toList.mapIdx Thread.holds).set t ((f thread).holds t) := by
    refine List.ext_getElem? fun i => ?_
    rw [hm, List.getElem?_mapIdx, Array.getElem?_toList, Array.getElem?_modify, List.getElem?_set,
      List.getElem?_mapIdx, Array.getElem?_toList, List.length_mapIdx]
    by_cases hi : t = i
    · subst hi
      rw [if_pos rfl, if_pos rfl, if_pos hlt, h, Option.map_some, Option.map_some]
    · rw [if_neg hi, if_neg hi]
  unfold holds othersHold
  rw [hset]
  have hget : ((m.threads.toList.mapIdx Thread.holds).set t ((f thread).holds t))[t]?
      = some ((f thread).holds t) := by
    rw [List.getElem?_set, if_pos rfl, List.length_mapIdx, if_pos hlt]
  refine (Store.flatten_perm_eraseIdx hget).trans ?_
  rw [List.eraseIdx_set_eq]

theorem holds_after (h : m.threads[t]? = some thread) (turn : Turn σ) :
    (m.after t turn).holds.Perm (turn.holds t ++ m.othersHold t) :=
  holds_modify h (f := fun thread =>
    { thread with control := turn.control, frames := turn.frames }) rfl

/-- A program that only concerns other threads leaves all holds where they
are. -/
theorem holds_program (h : m.threads[t]? = some thread) {p p' : Program σ Value} {s : Setting σ}
    (hc : thread.control = .run p s) {started : Array (Thread σ)}
    (hm : m'.threads
      = (m.threads.modify t fun thread => { thread with control := .run p' s }) ++ started)
    (hnew : ∀ new ∈ started, new.frames = [] ∧ ∃ p s, new.control = .run p s) :
    m'.holds.Perm m.holds := by
  let m₁ : Machine σ :=
    { m with threads := m.threads.modify t fun thread => { thread with control := .run p' s } }
  have hsame : m₁.holds.Perm m.holds := by
    refine (holds_modify h (f := fun thread => { thread with control := .run p' s }) rfl).trans
      (List.Perm.trans ?_ (holds_split h).symm)
    unfold Thread.holds
    rw [hc]
    exact .refl _
  have hnone : ∀ (n : Nat) (l : List (Thread σ)), (∀ new ∈ l, new.frames = []
      ∧ ∃ p s, new.control = .run p s) → (l.mapIdx fun i => Thread.holds (i + n)).flatten = [] := by
    intro n l hl
    refine List.flatten_eq_nil_iff.mpr fun x hx => ?_
    obtain ⟨i, hi, rfl⟩ := List.mem_mapIdx.mp hx
    obtain ⟨hf, p, s, hrun⟩ := hl _ (List.getElem_mem hi)
    unfold Thread.holds
    rw [hf, hrun]
    rfl
  have hall : m'.holds = m₁.holds := by
    unfold holds
    rw [hm, Array.toList_append, List.mapIdx_append, List.flatten_append,
      hnone _ _ fun new hn => hnew new (Array.mem_toList_iff.mp hn), List.append_nil]
  rw [hall]
  exact hsame

-- ====================================================== the results

/-- At the start there is no record that an entry could be for. -/
theorem Fresh.keyOf_none (hf : start.Fresh) (record : RecordId) :
    start.store.keyOf record = none := by
  unfold Store.keyOf
  cases hr : start.store.records[record]? with
  | none => rfl
  | some r =>
      show r.key? = none
      unfold Record.key?
      rw [hf.fixed r (Array.mem_of_getElem? hr)]

/-- At the start there is nothing to look after. -/
theorem Fresh.owned (hf : start.Fresh) : start.store.Owned start.holds := by
  have hnone : start.holds = [] := by
    refine List.flatten_eq_nil_iff.mpr fun x hx => ?_
    obtain ⟨i, hi, rfl⟩ := List.mem_mapIdx.mp hx
    obtain ⟨hfs, p, s, hrun⟩ := hf.running _ (Array.mem_toList_iff.mp (List.getElem_mem hi))
    unfold Thread.holds
    rw [hfs, hrun]
    rfl
  rw [hnone]
  exact Store.owned_of_empty hf.entries

/-- A step of a process leaves the store as it is, or is on the list of what a
thread can do. -/
theorem step_shift (h : m.step lib t = some m') :
    m'.store = m.store ∨ ∃ thread turn, m.threads[t]? = some thread ∧ m' = m.after t turn
      ∧ Turn.Shift lib ⟨t, thread.name⟩ (m.turn thread) turn := by
  obtain ⟨-, thread, hthread, hs⟩ := step_cases h
  cases hs with
  | alone hturn => exact .inr ⟨thread, _, hthread, rfl, Turn.step_shift hturn⟩
  | program p' started hc hp hs hm hnew => exact .inl hs

/-- A step of a process keeps its owners, also beside holds `G` that no thread
has. -/
theorem step_owned_beside (G : List Hold) (h : m.step lib t = some m')
    (ho : m.store.Owned (m.holds ++ G)) : m'.store.Owned (m'.holds ++ G) := by
  obtain ⟨-, thread, hthread, hs⟩ := step_cases h
  cases hs with
  | @alone turn hturn =>
      have hbefore := (holds_split hthread).append_right G
      have hafter := (holds_after hthread turn).append_right G
      rw [List.append_assoc] at hbefore hafter
      exact ((Turn.step_shift hturn).owned (ho.perm hbefore.symm)).perm hafter
  | program p' started hc hp hs hm hnew =>
      rw [hs]
      exact ho.perm ((holds_program hthread hc hm hnew).append_right G)

theorem step_owned (h : m.step lib t = some m') (ho : m.store.Owned m.holds) :
    m'.store.Owned m'.holds := by
  have hbeside := step_owned_beside [] h (by rw [List.append_nil]; exact ho)
  rw [List.append_nil] at hbeside
  exact hbeside

/-- Wherever a process gets to, its entries have one holder at most, and look
the way their holders believe them to look. -/
theorem Reachable.owned (hf : start.Fresh) (h : Reachable lib start m) :
    m.store.Owned m.holds := by
  induction h with
  | refl => exact hf.owned
  | step t _ hs ih => exact step_owned hs ih

/-- A step of a process in which nothing unwinds leaves no unfinished entry
without a holder. -/
theorem step_held (h : m.step lib t = some m') (hcalm : m.Calm) (hcalm' : m'.Calm)
    (ho : m.store.Owned m.holds) (hh : m.store.Held m.holds) : m'.store.Held m'.holds := by
  obtain ⟨-, thread, hthread, hs⟩ := step_cases h
  have hperm : ∀ {s : Store} {H H' : List Hold}, H'.Perm H → s.Held H → s.Held H' :=
    fun hp hheld i e he hu => by
      rw [Store.holders_perm hp]
      exact hheld i e he hu
  cases hs with
  | @alone turn hturn =>
      have hc := hcalm thread (Array.mem_of_getElem? hthread)
      have hc' : turn.control.disturbed = false := hcalm'
        { thread with control := turn.control, frames := turn.frames }
        (Array.mem_of_getElem? (after_threads hthread turn))
      have hshift := Turn.step_shift hturn
      exact hperm (holds_after hthread turn)
        (hshift.held hc hc' (ho.perm (holds_split hthread).symm)
          (hperm (holds_split hthread).symm hh))
  | program p' started hc hp hs hm hnew =>
      rw [hs]
      exact hperm (holds_program hthread hc hm hnew) hh

/-- As long as nothing has unwound, whatever is unfinished is looked after, by
one thread or on one queue. -/
theorem Run.held (hf : start.Fresh) (h : Run lib (fun m _ => m.Calm) start m) (hm : m.Calm) :
    ∀ i e, m.store.entries[i]? = some e → e.stage ≠ .complete →
      m.store.holders m.holds i = 1 := by
  have hheld : m.store.Held m.holds := by
    induction h with
    | refl =>
        intro i e he
        rw [hf.entries] at he
        simp at he
    | step t h hok hs ih => exact step_held hs hok hm (h.reachable.owned hf) (ih hok)
  intro i e he hu
  exact Nat.le_antisymm ((h.reachable.owned hf).once i) (hheld i e he hu)

end Machine

end TypeRecords
