/-
What a call for a witness table comes back with.

`Chronicle.Provides` is such a call and its answer: a thread asks for a table in some
step, and in a later state is about to hand a value to the very frame that waits for
it. In between the other threads may run. If the thread builds the table itself, the
callback of the conformance runs above that frame and the one of the attempt, with
whatever calls it makes, for this conformance or another.

`Turn.Obtains` says where such a call can be while it lasts. It is answered with the
table that is in the cell of its key by then (`Provides.contains`), which it has taken
from there or come to by its own attempt. Otherwise there is a fault, and no answer
comes of it.
-/
import TypeRecords.Proofs.Conforming.Attempts
import TypeRecords.Proofs.Requests.Returning

namespace TypeRecords

variable {σ : Type} {lib : Library σ}

-- ====================================================== one thread

namespace Turn

variable {a : Actor} {t t' : Turn σ} {thread : ThreadId} {j : TableJob} {key : TableKey}
  {base rest : List (Frame σ)} {k : TableId → Program σ Value} {s : Setting σ} {i : CellId}
  {table : TableId}

/-- What is in a cell was in it, or an attempt has just come to it. -/
theorem Builds.fills (h : Builds lib thread t t') (hs : t.Seated thread)
    (hcontains : t'.store.Contains i table) :
    t.store.Contains i table
      ∨ ∃ j, j.cell = i ∧ t.attempts = j :: t'.attempts
        ∧ t'.control = .give (.table table) .nothing := by
  cases h with
  | aside hc haside hf => exact .inl (haside.store.contains.mp hcontains)
  | asked hc hown ht' =>
      subst ht'
      exact .inl (Store.cellFor_contains.mp hcontains)
  | taken hc hcell hfull ht' =>
      subst ht'
      exact .inl hcontains
  | begun hc hcell hempty hconf hprot hcells htables hf hc' =>
      rcases (Store.contains_changed hcells hcell).mp hcontains with ⟨-, hfull⟩ | ⟨-, hold⟩
      · cases hfull
      · exact .inl hold
  | @succeeded v j draft p hc hf hprot hfull hcells htables hc' =>
      obtain ⟨cell, hcell, -⟩ := hs.built hf
      rcases (Store.contains_changed hcells hcell).mp hcontains with ⟨hi, hnew⟩ | ⟨-, hold⟩
      · cases hnew
        exact .inr ⟨j, hi.symm, attempts_of_filling hf, hc'⟩
      · exact .inl hold
  | failed hc hf hcells htables hc' =>
      obtain ⟨cell, hcell, -⟩ := hs.built hf
      rcases (Store.contains_changed hcells hcell).mp hcontains with ⟨-, hfull⟩ | ⟨-, hold⟩
      · cases hfull
      · exact .inl hold

/-- How an attempt can end: its table is in the cell, and is handed to whoever waits
for it; or something unwinds, there is no table, and the cell is as before the
attempt. -/
theorem Builds.stops (h : Builds lib thread t t') (hs : t.Seated thread)
    (hj : t.attempts = j :: t'.attempts) :
    t.frames = .filling j :: t'.frames
      ∧ ((∃ table, t'.control = .give (.table table) .nothing
          ∧ t'.store.Contains j.cell table)
        ∨ (∃ e, t'.control = .unwind e) ∧ t'.store.tables = t.store.tables
          ∧ t'.store.Vacant j.cell) := by
  have hlength := congrArg List.length hj
  rw [List.length_cons] at hlength
  -- the attempt that has ended is the one whose frame has been taken off
  have hsame : ∀ {j'}, t.frames = .filling j' :: t'.frames → j' = j := fun hf =>
    (List.cons.inj ((attempts_of_filling hf).symm.trans hj)).1
  cases h with
  | aside hc haside hf =>
      rw [hf] at hlength
      omega
  | asked hc hown ht' =>
      subst ht'
      have hattempts : t.attempts.length = t.attempts.length + 1 := hlength
      omega
  | taken hc hcell hfull ht' =>
      subst ht'
      have hattempts : t.attempts.length = t.attempts.length + 1 := hlength
      omega
  | begun hc hcell hempty hconf hprot hcells htables hf hc' =>
      rw [attempts_of_filling hf] at hlength
      have hattempts : t.attempts.length = t.attempts.length + 1 + 1 := hlength
      omega
  | succeeded hc hf hprot hfull hcells htables hc' =>
      obtain rfl := hsame hf
      obtain ⟨cell, hcell, -⟩ := hs.built hf
      exact ⟨hf, .inl ⟨_, hc', (Store.contains_changed hcells hcell).mpr (.inl ⟨rfl, rfl⟩)⟩⟩
  | failed hc hf hcells htables hc' =>
      obtain rfl := hsame hf
      obtain ⟨cell, hcell, -⟩ := hs.built hf
      refine ⟨hf, .inr ⟨⟨_, hc'⟩, htables, ?_⟩⟩
      unfold Store.Vacant
      rw [Store.getElem?_changed hcells, if_pos rfl, hcell]
      exact ⟨_, rfl, rfl⟩

-- ====================================================== calls

/-- Where a call for a table can be while it lasts, with the stack it was made on
under the frame that waits for it. -/
inductive Obtains (t : Turn σ) (key : TableKey) (base : List (Frame σ)) : Prop
  /-- It is at its cell, or waits there. -/
  | acquiring {j : TableJob} {arguments : List TableId} (hc : t.control = .acquire j arguments)
      (hkey : j.key = key) (hf : t.frames = base)
  /-- It builds the table. -/
  | filling {j : TableJob} (above : List (Frame σ)) (hkey : j.key = key)
      (hf : t.frames = above ++ .filling j :: base)
  | failing {e : Failure} (hc : t.control = .unwind e) (hf : t.frames = base)
  | answered {i : CellId} {table : TableId} {left : Local}
      (hc : t.control = .give (.table table) left) (hf : t.frames = base)
      (hkey : t.store.HasKey i key) (hcontains : t.store.Contains i table)

/-- A call begins. -/
theorem Builds.obtains (h : Builds lib thread t t') {registry : RegistryId} {c : ConformanceId}
    {conforming : RecordId} {arguments : List TableId}
    (hc : t.control = .run (.table registry c conforming arguments k) s)
    (hown : lib.isOwn c = true) :
    t'.Obtains ⟨registry, c, conforming⟩ (.forTable k s :: t.frames) := by
  cases h with
  | aside hseeks =>
      rw [hc] at hseeks
      simp only [Control.seeks?, hown, if_true] at hseeks
      cases hseeks
  | asked hc' hown' ht' =>
      cases hc.symm.trans hc'
      subst ht'
      exact .acquiring rfl rfl rfl
  | taken hc' | begun hc' | succeeded hc' | failed hc' => cases hc.symm.trans hc'

/-- A step keeps a call, as long as it is on the stack. -/
theorem Obtains.step (h : t.Obtains key (.forTable k s :: rest)) (hs : t.step lib a = some t')
    (hseated : t.Seated a.id) (hf : Furthers lib a.id t t')
    (hover : rest.length < t'.frames.length) : t'.Obtains key (.forTable k s :: rest) := by
  have hbuilds := step_builds hs
  have hon : t'.frames ≠ rest := fun heq => by
    rw [heq] at hover
    omega
  cases h with
  | @acquiring j arguments hc hkey hfs =>
      cases hbuilds with
      | aside hseeks => rw [hc] at hseeks; cases hseeks
      | taken hc' hcell hfull ht' =>
          cases hc.symm.trans hc'
          subst ht'
          exact .answered rfl hfs (hkey ▸ hseated.acquires hc) ⟨_, hcell, hfull⟩
      | begun hc' hcell hempty hconf hprot hcells htables hf' hopening =>
          cases hc.symm.trans hc'
          exact .filling [] hkey (hfs ▸ hf')
      | asked hc' | succeeded hc' | failed hc' => cases hc.symm.trans hc'
  | @filling j above hkey hfs =>
      cases step_stacks hs with
      | same hsame => exact .filling above hkey (hsame.trans hfs)
      | opened fs hopened hopens htail =>
          exact .filling (fs ++ above) hkey (by rw [hopened, hfs, List.append_assoc])
      | @drop f hdrop hc =>
          cases above with
          | cons g above =>
              rw [hfs] at hdrop
              exact .filling above hkey (List.cons.inj hdrop).2.symm
          | nil =>
              -- the attempt has ended
              have hbase : .forTable k s :: rest = t'.frames :=
                (List.cons.inj (hfs.symm.trans hdrop)).2
              have hattempts : t.attempts = j :: t'.attempts := by
                rw [attempts_of_filling hfs, hbase]
                rfl
              obtain ⟨-, ⟨table, hgive, hcontains⟩ | ⟨⟨e, hunwind⟩, -⟩⟩ :=
                hbuilds.stops hseated hattempts
              · have hm : j ∈ t.attempts := hattempts ▸ List.mem_cons_self
                exact .answered hgive hbase.symm (hkey ▸ hf.conserves.keys (hseated.keys j hm))
                  hcontains
              · exact .failing hunwind hbase.symm
  | failing hc hfs => exact (hon (call_dropped hfs rfl (.inr ⟨_, hc⟩) hs)).elim
  | answered hc hfs => exact (hon (call_dropped hfs rfl (.inl ⟨_, _, hc⟩) hs)).elim

/-- What other threads do makes no difference to a call. -/
theorem Obtains.mono (h : t.Obtains key base) (hc : t'.control = t.control)
    (hf : t'.frames = t.frames) (hs : t.store.Conserves t'.store) : t'.Obtains key base := by
  cases h with
  | acquiring hc' hkey hfs => exact .acquiring (hc.trans hc') hkey (hf.trans hfs)
  | filling above hkey hfs => exact .filling above hkey (hf.trans hfs)
  | failing hc' hfs => exact .failing (hc.trans hc') (hf.trans hfs)
  | answered hc' hfs hkey hcontains =>
      exact .answered (hc.trans hc') (hf.trans hfs) (hs.keys hkey) (hs.full hcontains)

end Turn

-- ====================================================== runs

/-- The table that a program asks for next. -/
def Control.tabling? : Control σ → Option TableKey
  | .run (.table registry c conforming _ _) _ => some ⟨registry, c, conforming⟩
  | _ => none

/-- Whoever asks for a table runs a program. -/
theorem Control.table_of_tabling {control : Control σ} {key : TableKey}
    (h : control.tabling? = some key) :
    ∃ arguments k s,
      control = .run (.table key.registry key.conformance key.conforming arguments k) s := by
  unfold tabling? at h
  split at h
  · cases h
    exact ⟨_, _, _, rfl⟩
  · cases h

namespace Machine.Chronicle

variable {start : Machine σ} {r : Chronicle lib start} {i j l : Nat} {key : TableKey} {v : Value}

/-- The call for a table that a thread makes in step `i` is answered in state `j`:
the thread is about to hand a value to the frame that waits for the answer, which
has been there since. -/
inductive Provides (r : Chronicle lib start) (i j : Nat) (key : TableKey) (v : Value) : Prop
  | intro {thread thread' : Thread σ} {left : Local} (hij : i < j) (hj : j ≤ r.length)
      (ht : (r.state i).threads[r.mover i]? = some thread)
      (hask : thread.control.tabling? = some key)
      (hover : ∀ l, i < l → l ≤ j → (r.state l).Over (r.mover i) thread.frames.length)
      (ht' : (r.state j).threads[r.mover i]? = some thread')
      (hf : thread'.frames.length = thread.frames.length + 1)
      (hc : thread'.control = .give v left)

/-- As long as it is on the stack, a call goes on. -/
theorem obtains (hf : start.Fresh) (hn : start.store.Unbuilt) {thread : Thread σ} (hil : i < l)
    (hl : l ≤ r.length) (ht : (r.state i).threads[r.mover i]? = some thread)
    {registry : RegistryId} {c : ConformanceId} {conforming : RecordId} {arguments : List TableId}
    {k : TableId → Program σ Value} {s : Setting σ}
    (hc : thread.control = .run (.table registry c conforming arguments k) s)
    (hown : lib.isOwn c = true)
    (hover : ∀ l', i < l' → l' ≤ l → (r.state l').Over (r.mover i) thread.frames.length) :
    ∃ thread', (r.state l).threads[r.mover i]? = some thread'
      ∧ ((r.state l).turn thread').Obtains ⟨registry, c, conforming⟩
        (.forTable k s :: thread.frames) := by
  refine r.follow (P := fun t => t.Obtains ⟨registry, c, conforming⟩
    (.forTable k s :: thread.frames)) hil hl ?_
    (fun {j caller caller'} hi hj hcaller hcaller' hobtains hmove => ?_)
    fun {j caller} hi hj hobtains => ?_
  · obtain ⟨mover, thread', hmover, hthread', hbuilds⟩ := step_builds (r.step i
      (Nat.lt_of_lt_of_le hil hl))
    obtain rfl := Option.some.inj (ht.symm.trans hmover)
    exact ⟨thread', hthread', hbuilds.obtains hc hown⟩
  · have hreach := r.reachable (Nat.le_of_lt (Nat.lt_of_lt_of_le hj hl))
    have htabled := hreach.tabled hf hn
    rcases hmove with hturn | ⟨⟨p, s', hc'⟩, hfs⟩
    · exact hobtains.step hturn (htabled.threads hcaller)
        ((Turn.step_builds hturn).furthers htabled.store (htabled.threads hcaller)
          (hreach.drafted hf hcaller))
        (hover (j + 1) (Nat.lt_succ_of_lt hi) hj caller' hcaller')
    · -- a thread that goes on with a program does so above the call
      have hrun : ((r.state j).turn caller).control = .run p s' := hc'
      cases hobtains with
      | filling above hkey hf => exact .filling above hkey (hfs.trans hf)
      | acquiring hc | failing hc | answered hc => cases hrun.symm.trans hc
  · have hreach := r.reachable (Nat.le_of_lt (Nat.lt_of_lt_of_le hj hl))
    exact hobtains.mono rfl rfl (hreach.conserves hf hn
      (r.later (Nat.le_succ j) (Nat.le_trans hj hl)))

/-- A call is answered with the table in the cell of its key. -/
theorem Provides.contains (hf : start.Fresh) (hn : start.store.Unbuilt)
    (h : r.Provides i j key v) (hown : lib.isOwn key.conformance = true) :
    j ≤ r.length ∧ ∃ t cell, v = .table t ∧ (r.state j).store.HasKey cell key
      ∧ (r.state j).store.Contains cell t := by
  obtain @⟨thread, thread', left, hij, hj, ht, hask, hover, ht', hlength, hgive⟩ := h
  obtain ⟨arguments, k, s, hc⟩ := Control.table_of_tabling hask
  obtain ⟨caller, hcaller, hobtains⟩ := r.obtains hf hn hij hj ht hc hown hover
  obtain rfl := Option.some.inj (ht'.symm.trans hcaller)
  have hcontrol : ((r.state j).turn thread').control = .give v left := hgive
  refine ⟨hj, ?_⟩
  cases hobtains with
  | filling above hkey hf =>
      have hlong := congrArg List.length hf
      rw [List.length_append, List.length_cons, List.length_cons] at hlong
      have hsame : ((r.state j).turn thread').frames.length = thread.frames.length + 1 := hlength
      omega
  | acquiring hc | failing hc => cases hcontrol.symm.trans hc
  | @answered cell t left hc hf hkey hcontains =>
      cases hcontrol.symm.trans hc
      exact ⟨t, cell, rfl, hkey, hcontains⟩

-- ====================================================== by computation

/-- A call whose answer can be computed, along the walk of the first thread. -/
theorem Provides.of_walk {n : Nat} {h : ∀ k < n, ((start.walk lib k).step lib 0).isSome = true}
    (depth : Nat) (hij : i < j) (hj : j ≤ n)
    (hcall : ((start.walk lib i).threads[0]?).map
        (fun thread => (thread.frames.length, thread.control.tabling?))
      = some (depth, some key))
    (hover : ∀ l < j + 1, i < l → (start.walk lib l).Over 0 depth)
    (hend : ((start.walk lib j).threads[0]?).map
        (fun thread => (thread.frames.length, thread.control.outcome?))
      = some (depth + 1, some v)) :
    (Chronicle.walk lib start n h).Provides i j key v := by
  obtain ⟨thread, ht, hpair⟩ := Option.map_eq_some_iff.mp hcall
  obtain ⟨rfl, hask⟩ := Prod.mk.inj hpair
  obtain ⟨thread', ht', hends⟩ := Option.map_eq_some_iff.mp hend
  obtain ⟨hlength, hends⟩ := Prod.mk.inj hends
  obtain ⟨left, hgive⟩ := Control.give_of_outcome hends
  exact .intro hij hj ht hask (fun l hi hl => hover l (Nat.lt_succ_of_le hl) hi) ht' hlength hgive

end Machine.Chronicle

end TypeRecords
