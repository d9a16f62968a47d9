/-
One witness table for each conformance and type.

A call for a table may find it, or wait for the thread that builds it, or build it
itself; and an attempt to build it may fail, in the callback of the conformance or
because a requirement is left out. What comes of all this in a whole run
(`Chronicle.one_table`):

- A call comes back with the table that an attempt for its key has come to. For it
  comes back with what is in the cell of its key (`Provides.contains`), and nothing is
  put there but by such an attempt (`contains_succeeds`).
- At most one attempt for a key succeeds: it leaves the cell full, a full cell stays
  full, and an attempt that is under way has a cell that is not (`Tabled.builder`). So
  calls for one key come back with one table. Calls for two keys come back with two,
  as two cells do not share one.
- An attempt that fails leaves its cell empty and no table behind, and whoever comes
  to the cell next begins from the beginning (`Chronicle.Serves`).
-/
import TypeRecords.Proofs.Conforming.Calls

namespace TypeRecords

variable {σ : Type} {lib : Library σ}

namespace Turn

variable {a : Actor} {t : Turn σ} {j : TableJob} {table : TableId}

/-- A request for a table of one's own comes to its cell. -/
theorem run_table {registry : RegistryId} {c : ConformanceId} {conforming : RecordId}
    {arguments : List TableId} {k : TableId → Program σ Value} {s : Setting σ}
    (hown : lib.isOwn c = true) :
    ∃ t', t.run lib a (.table registry c conforming arguments k) s = some t'
      ∧ t'.control = .acquire
        ⟨registry, (t.store.cellFor registry c conforming).2, c, conforming⟩ arguments
      ∧ t'.frames = .forTable k s :: t.frames := by
  obtain ⟨conformance, hconf, hnot⟩ := Library.isOwn_eq_true.mp hown
  simp only [run, requestTable, hconf, hnot, Bool.false_eq_true, if_false]
  exact ⟨_, rfl, rfl, rfl⟩

/-- A full cell is there to be taken from. -/
theorem acquire_full {arguments : List TableId} (h : t.store.Contains j.cell table) :
    t.acquire lib a j arguments = some (t.goto (.give (.table table) .nothing)) := by
  obtain ⟨cell, hcell, hfull⟩ := h
  unfold acquire
  rw [hcell]
  simp only [hfull]

/-- A vacant one is there to be built, if the conformance and its protocol are. -/
theorem acquire_vacant (a : Actor) (arguments : List TableId) {c : Conformance σ} {p : Protocol}
    (h : t.store.Vacant j.cell) (hconf : lib.conformances[j.conformance]? = some c)
    (hprot : lib.protocols[c.recipe.protocol]? = some p) :
    ∃ t', t.acquire lib a j arguments = some t' ∧ t'.control = c.opening p j arguments
      ∧ t'.frames = .filling j :: t.frames := by
  obtain ⟨cell, hcell, hempty⟩ := h
  unfold acquire Conformance.opening
  rw [hcell]
  simp only [hempty, hconf, hprot]
  cases c.instantiator with
  | some callback => exact ⟨_, rfl, rfl, rfl⟩
  | none => exact ⟨_, rfl, rfl, rfl⟩

end Turn

namespace Machine

variable {start m : Machine σ} {key : TableKey} {u : ThreadId} {thread : Thread σ}

-- ====================================================== vocabulary

/-- Some thread is building the table of the key. -/
def Building (m : Machine σ) (key : TableKey) : Prop :=
  ∃ thread ∈ m.threads, ∃ job ∈ (m.turn thread).attempts, job.key = key

/-- The thread can take a step, and is then as given. -/
def Goes (lib : Library σ) (m : Machine σ) (u : ThreadId) (thread : Thread σ) : Prop :=
  ∃ m', m.step lib u = some m' ∧ m'.threads[u]? = some thread

namespace Chronicle

/-- An attempt ends in step `k`: its frame is taken off, and the thread goes on with
`control`. -/
def Stops (r : Chronicle lib start) (k : Nat) (job : TableJob) (control : Control σ) : Prop :=
  k < r.length ∧ ∃ thread thread', (r.state k).threads[r.mover k]? = some thread
    ∧ (r.state (k + 1)).threads[r.mover k]? = some thread'
    ∧ ((r.state k).turn thread).attempts = job :: ((r.state (k + 1)).turn thread').attempts
    ∧ thread'.control = control

/-- An attempt ends with a table. -/
def Succeeds (r : Chronicle lib start) (k : Nat) (job : TableJob) (t : TableId) : Prop :=
  r.Stops k job (.give (.table t) .nothing)

/-- How a thread is served that asks for a table of its own in state `k`, or has come
to the cell. -/
structure Serves (r : Chronicle lib start) (k : Nat) (u : ThreadId) (thread : Thread σ) :
    Prop where
  /-- Whoever asks comes to the cell of the key. -/
  comes : ∀ {registry : RegistryId} {c : ConformanceId} {conforming : RecordId}
    {arguments : List TableId} {next : TableId → Program σ Value} {s : Setting σ},
    thread.control = .run (.table registry c conforming arguments next) s → lib.isOwn c = true →
    ∃ job : TableJob, job.key = ⟨registry, c, conforming⟩ ∧ (r.state k).Goes lib u
      { thread with control := .acquire job arguments, frames := .forTable next s :: thread.frames }
  /-- As long as the table is being built, there is no step. -/
  waits : ∀ {job : TableJob} {arguments : List TableId},
    thread.control = .acquire job arguments → (r.state k).Building job.key →
    (r.state k).step lib u = none
  /-- If an attempt has succeeded, its table is handed out. -/
  shares : ∀ {job : TableJob} {arguments : List TableId} {l : Nat} {job' : TableJob}
    {t : TableId}, thread.control = .acquire job arguments → l < k → r.Succeeds l job' t →
    job'.key = job.key → (r.state k).Goes lib u { thread with control := .give (.table t) .nothing }
  /-- Otherwise an attempt begins, with the callback of the conformance from its
  beginning. -/
  begins : ∀ {job : TableJob} {arguments : List TableId} {c : Conformance σ} {p : Protocol},
    thread.control = .acquire job arguments → lib.conformances[job.conformance]? = some c →
    lib.protocols[c.recipe.protocol]? = some p → ¬ (r.state k).Building job.key →
    (∀ {l job' t}, l < k → r.Succeeds l job' t → job'.key ≠ job.key) → (r.state k).Goes lib u
      { thread with control := c.opening p job arguments, frames := .filling job :: thread.frames }

end Chronicle

-- ====================================================== one state

/-- Whatever a thread can do by itself, the process can. -/
theorem goes_of_turn {turn : Turn σ} {control : Control σ} {frames : List (Frame σ)}
    (hhalt : m.store.halted = none) (hu : m.threads[u]? = some thread)
    (h : (m.turn thread).step lib ⟨u, thread.name⟩ = some turn) (hc : turn.control = control)
    (hf : turn.frames = frames) :
    m.Goes lib u { thread with control := control, frames := frames } := by
  subst hc hf
  refine ⟨m.after u turn, ?_, after_threads hu turn⟩
  -- programs that concern other threads have no step of their own
  have hnone : ∀ {p : Program σ Value} {s : Setting σ}, thread.control = .run p s →
      (m.turn thread).run lib ⟨u, thread.name⟩ p s ≠ none := fun {p s} hc hrun => by
    have hcontrol : (m.turn thread).control = .run p s := hc
    unfold Turn.step at h
    rw [hcontrol] at h
    exact absurd (hrun.symm.trans h) nofun
  unfold Machine.step
  rw [hhalt, hu]
  simp only [Option.isSome_none, Bool.false_eq_true, if_false]
  split
  · rename_i hc
    exact (hnone hc rfl).elim
  · rename_i hc
    exact (hnone hc rfl).elim
  · rename_i hc
    exact (hnone hc rfl).elim
  · exact congrArg (Option.map (m.after u)) h

/-- Whoever builds a table does so in the cell of its key. -/
theorem Tabled.builder (h : m.Tabled lib) (hb : m.Building key) {i : CellId}
    (hkey : m.store.HasKey i key) : ∃ v, m.store.BuiltBy v i := by
  obtain ⟨thread, hm, job, hjob, rfl⟩ := hb
  obtain ⟨v, hv⟩ := Array.getElem?_of_mem hm
  have hseated := h.threads hv
  obtain rfl := h.store.distinct hkey (hseated.keys job hjob)
  exact ⟨v, (hseated.cells job.cell).mp (List.mem_map_of_mem hjob)⟩

theorem Tabled.not_contains (h : m.Tabled lib) (hb : m.Building key) {i : CellId} {t : TableId}
    (hkey : m.store.HasKey i key) : ¬ m.store.Contains i t := by
  obtain ⟨v, hv⟩ := h.builder hb hkey
  exact hv.not_contains

/-- Nobody builds the table of a vacant cell. -/
theorem Tabled.not_building (h : m.Tabled lib) {i : CellId} (hkey : m.store.HasKey i key)
    (hvacant : m.store.Vacant i) : ¬ m.Building key := fun hb => by
  obtain ⟨v, hv⟩ := h.builder hb hkey
  exact hv.not_vacant hvacant

/-- If nobody builds the table of a key, its cell says so. -/
theorem Tabled.not_builtBy (h : m.Tabled lib) (hb : ¬ m.Building key) {i : CellId} {v : ThreadId}
    (hkey : m.store.HasKey i key) : ¬ m.store.BuiltBy v i := fun hbuilt => by
  have hlt := h.builders hbuilt
  have hv : m.threads[v]? = some m.threads[v] := Array.getElem?_eq_getElem hlt
  have hseated := h.threads hv
  obtain ⟨job, hjob, rfl⟩ := List.mem_map.mp ((hseated.cells i).mpr hbuilt)
  exact hb ⟨_, Array.mem_of_getElem? hv, job, hjob, (hseated.keys job hjob).unique hkey⟩

/-- There is no step at a cell whose table is being built. -/
theorem Tabled.waits (h : m.Tabled lib) {job : TableJob} {arguments : List TableId}
    (hu : m.threads[u]? = some thread) (hc : thread.control = .acquire job arguments)
    (hb : m.Building job.key) : m.step lib u = none := by
  refine Option.eq_none_iff_forall_ne_some.mpr fun m' hs => ?_
  obtain ⟨mover, moved, hmover, -, hbuilds⟩ := step_builds hs
  obtain rfl := Option.some.inj (hu.symm.trans hmover)
  have hcontrol : (m.turn thread).control = .acquire job arguments := hc
  have hkey := (h.threads hu).acquires hcontrol
  cases hbuilds with
  | aside hseeks => rw [hcontrol] at hseeks; cases hseeks
  | taken hc' hcell hfull ht' =>
      cases hcontrol.symm.trans hc'
      exact h.not_contains hb hkey ⟨_, hcell, hfull⟩
  | begun hc' hcell hempty =>
      cases hcontrol.symm.trans hc'
      exact h.not_building hkey ⟨_, hcell, hempty⟩ hb
  | asked hc' | succeeded hc' | failed hc' => cases hcontrol.symm.trans hc'

namespace Chronicle

variable {r : Chronicle lib start} {i j k k' l : Nat} {v : Value} {job job' : TableJob}
  {t t' : TableId} {control : Control σ}

-- ====================================================== attempts

theorem tabled (hf : start.Fresh) (hn : start.store.Unbuilt) (hk : k ≤ r.length) :
    (r.state k).Tabled lib :=
  (r.reachable hk).tabled hf hn

theorem conserves (hf : start.Fresh) (hn : start.store.Unbuilt) (hij : i ≤ j)
    (hj : j ≤ r.length) : (r.state i).store.Conserves (r.state j).store :=
  (r.reachable (Nat.le_trans hij hj)).conserves hf hn (r.later hij hj)

/-- How an attempt can end. -/
theorem Stops.ends (hf : start.Fresh) (hn : start.store.Unbuilt) (h : r.Stops k job control) :
    (r.state k).Building job.key ∧ (r.state k).store.HasKey job.cell job.key
      ∧ ((∃ t, control = .give (.table t) .nothing ∧ (r.state (k + 1)).store.Contains job.cell t)
        ∨ (∃ e, control = .unwind e) ∧ (r.state (k + 1)).store.tables = (r.state k).store.tables
          ∧ (r.state (k + 1)).store.Vacant job.cell) := by
  obtain ⟨hk, thread, thread', ht, ht', hjob, rfl⟩ := h
  obtain ⟨mover, moved, hmover, hmoved, hbuilds⟩ := step_builds (r.step k hk)
  obtain rfl := Option.some.inj (ht.symm.trans hmover)
  obtain rfl := Option.some.inj (ht'.symm.trans hmoved)
  have hseated := (r.tabled hf hn (Nat.le_of_lt hk)).threads ht
  have hm : job ∈ ((r.state k).turn thread).attempts := hjob ▸ List.mem_cons_self
  exact ⟨⟨thread, Array.mem_of_getElem? ht, job, hm, rfl⟩, hseated.keys job hm,
    (hbuilds.stops hseated hjob).2⟩

/-- What an attempt has come to is in its cell from then on. -/
theorem Succeeds.contains (hf : start.Fresh) (hn : start.store.Unbuilt) (h : r.Succeeds l job t)
    (hlk : l < k) (hk : k ≤ r.length) :
    (r.state k).store.HasKey job.cell job.key ∧ (r.state k).store.Contains job.cell t := by
  obtain ⟨-, hkey, ⟨t', hgive, hcontains⟩ | ⟨⟨e, hunwind⟩, -⟩⟩ := h.ends hf hn
  · cases hgive
    exact ⟨(r.conserves hf hn (Nat.le_of_lt hlk) hk).keys hkey,
      (r.conserves hf hn hlk hk).full hcontains⟩
  · cases hunwind

/-- What is in a cell is what an attempt has come to. -/
theorem contains_succeeds (hf : start.Fresh) (hn : start.store.Unbuilt) (hk : k ≤ r.length)
    {cell : CellId} (hcontains : (r.state k).store.Contains cell t) :
    ∃ l job, l < k ∧ r.Succeeds l job t ∧ job.cell = cell := by
  induction k with
  | zero =>
      obtain ⟨x, hx, -⟩ := hcontains
      rw [r.first, hn.none] at hx
      cases hx
  | succ k ih =>
      obtain ⟨mover, moved, hmover, hmoved, hbuilds⟩ := step_builds (r.step k hk)
      have hseated := (r.tabled hf hn (Nat.le_of_lt hk)).threads hmover
      rcases hbuilds.fills hseated hcontains with hold | ⟨job, hcell, hjob, hgive⟩
      · obtain ⟨l, job, hl, hsucceeds, hcell⟩ := ih (Nat.le_of_lt hk) hold
        exact ⟨l, job, Nat.lt_succ_of_lt hl, hsucceeds, hcell⟩
      · exact ⟨k, job, Nat.lt_succ_self k, ⟨hk, mover, moved, hmover, hmoved, hjob, hgive⟩, hcell⟩

/-- After an attempt for a key has succeeded, nobody builds a table for it. -/
theorem Succeeds.not_building (hf : start.Fresh) (hn : start.store.Unbuilt)
    (h : r.Succeeds k job t) (hkl : k < l) (hl : l ≤ r.length) :
    ¬ (r.state l).Building job.key := fun hb => by
  obtain ⟨hkey, hcontains⟩ := h.contains hf hn hkl hl
  exact (r.tabled hf hn hl).not_contains hb hkey hcontains

/-- So whatever ends an attempt for the key has happened before, or is this very
step. -/
theorem Succeeds.last (hf : start.Fresh) (hn : start.store.Unbuilt) (h : r.Succeeds k job t)
    (h' : r.Stops k' job' control) (hkey : job'.key = job.key) : k' ≤ k := by
  refine Nat.le_of_not_lt fun hlt => ?_
  obtain ⟨hb, -⟩ := h'.ends hf hn
  exact h.not_building hf hn hlt (Nat.le_of_lt h'.1) (hkey ▸ hb)

/-- One step ends one attempt. -/
theorem Stops.unique {control' : Control σ} (h : r.Stops k job control)
    (h' : r.Stops k job' control') : job = job' ∧ control = control' := by
  obtain ⟨-, thread, thread', ht, ht', hjob, rfl⟩ := h
  obtain ⟨-, thread₁, thread₁', ht₁, ht₁', hjob', rfl⟩ := h'
  obtain rfl := Option.some.inj (ht.symm.trans ht₁)
  obtain rfl := Option.some.inj (ht'.symm.trans ht₁')
  exact ⟨(List.cons.inj (hjob.symm.trans hjob')).1, rfl⟩

/-- At most one attempt for a key succeeds. -/
theorem Succeeds.unique (hf : start.Fresh) (hn : start.store.Unbuilt) (h : r.Succeeds k job t)
    (h' : r.Succeeds k' job' t') (hkey : job.key = job'.key) : k = k' ∧ t = t' := by
  obtain rfl : k = k' := Nat.le_antisymm (h'.last hf hn h hkey) (h.last hf hn h' hkey.symm)
  obtain ⟨-, hgive⟩ := h.unique h'
  cases hgive
  exact ⟨rfl, rfl⟩

/-- Attempts for two keys come to two tables. -/
theorem Succeeds.key_eq (hf : start.Fresh) (hn : start.store.Unbuilt) (h : r.Succeeds k job t)
    (h' : r.Succeeds k' job' t) : job.key = job'.key := by
  obtain ⟨hkey, hcontains⟩ := h.contains hf hn h.1 (Nat.le_refl _)
  obtain ⟨hkey', hcontains'⟩ := h'.contains hf hn h'.1 (Nat.le_refl _)
  rw [(r.tabled hf hn (Nat.le_refl _)).store.apart hcontains hcontains'] at hkey
  exact hkey.unique hkey'

/-- A call comes back with what an attempt for its key has come to. -/
theorem Provides.succeeds (hf : start.Fresh) (hn : start.store.Unbuilt)
    (h : r.Provides i j key v) (hown : lib.isOwn key.conformance = true) :
    ∃ k job t, k < j ∧ r.Succeeds k job t ∧ job.key = key ∧ v = .table t := by
  obtain ⟨hj, t, cell, rfl, hkey, hcontains⟩ := h.contains hf hn hown
  obtain ⟨k, job, hk, hsucceeds, rfl⟩ := contains_succeeds hf hn hj hcontains
  obtain ⟨hkey', -⟩ := hsucceeds.contains hf hn hk hj
  exact ⟨k, job, t, hk, hsucceeds, hkey'.unique hkey, rfl⟩

-- ====================================================== requests

theorem serves (hf : start.Fresh) (hn : start.store.Unbuilt) (hk : k ≤ r.length)
    (hhalt : (r.state k).store.halted = none) (hu : (r.state k).threads[u]? = some thread) :
    r.Serves k u thread where
  comes := by
    intro registry c conforming arguments next s hc hown
    obtain ⟨turn, hturn, hcontrol, hframes⟩ := Turn.run_table (a := ⟨u, thread.name⟩)
      (t := (r.state k).turn thread) (k := next) (s := s) hown
    refine ⟨_, rfl, goes_of_turn hhalt hu ?_ hcontrol hframes⟩
    unfold Turn.step
    rw [show ((r.state k).turn thread).control = _ from hc]
    exact hturn
  waits hc hb := (r.tabled hf hn hk).waits hu hc hb
  shares := by
    intro job arguments l job' t hc hl h hkey
    have htabled := r.tabled hf hn hk
    obtain ⟨hkey', hcontains⟩ := h.contains hf hn hl hk
    rw [hkey] at hkey'
    obtain hcell : job'.cell = job.cell :=
      htabled.store.distinct hkey' ((htabled.threads hu).acquires hc)
    have hstep : ((r.state k).turn thread).step lib ⟨u, thread.name⟩
        = some (((r.state k).turn thread).goto (.give (.table t) .nothing)) := by
      unfold Turn.step
      rw [show ((r.state k).turn thread).control = _ from hc]
      exact Turn.acquire_full (hcell ▸ hcontains)
    exact goes_of_turn hhalt hu hstep rfl rfl
  begins := by
    intro job arguments c p hc hconf hprot hb hno
    have htabled := r.tabled hf hn hk
    have hkey := (htabled.threads hu).acquires hc
    obtain ⟨cell, hcell, -⟩ := id hkey
    have hvacant : (r.state k).store.Vacant job.cell := by
      cases hstate : cell.state with
      | empty => exact ⟨cell, hcell, hstate⟩
      | building v => exact (htabled.not_builtBy hb hkey ⟨cell, hcell, hstate⟩).elim
      | full t =>
          obtain ⟨l, job', hl, h, hsame⟩ := contains_succeeds hf hn hk ⟨cell, hcell, hstate⟩
          obtain ⟨hkey', -⟩ := h.contains hf hn hl hk
          rw [hsame] at hkey'
          exact (hno hl h (hkey'.unique hkey)).elim
    obtain ⟨turn, hturn, hopening, hframes⟩ :=
      Turn.acquire_vacant (t := (r.state k).turn thread) ⟨u, thread.name⟩ arguments hvacant hconf
        hprot
    refine goes_of_turn hhalt hu ?_ hopening hframes
    unfold Turn.step
    rw [show ((r.state k).turn thread).control = _ from hc]
    exact hturn

-- ====================================================== the result

/-- One witness table for each conformance and type. In every run of a process in
which nobody had asked for a witness table at the start, with any number of threads,
registries and conformances, and whatever fails on the way, for the keys whose
conformance is not trivial:

- A call that comes back does so with a table that an attempt for its key has come to:
  of the type asked for, with a witness for each requirement, and never changed.
- Two calls come back with the same table if they are for the same key, and with
  different ones if they are not.
- At most one attempt for a key succeeds, and after it nobody builds a table for the
  key, so no callback runs for it.
- Whenever an attempt ends, it has succeeded, or something unwinds through it. In the
  latter case it leaves no table and an empty cell, nobody else is building one, and any
  success comes later.
- A thread that asks comes to the cell of its key. There it waits for as long as an
  attempt is under way, itself included; it is given the table, if one has succeeded;
  and otherwise it begins an attempt from the beginning. -/
theorem one_table (hf : start.Fresh) (hn : start.store.Unbuilt) (r : Chronicle lib start) :
    (∀ {i j key v}, r.Provides i j key v → lib.isOwn key.conformance = true →
      ∃ k job t table, k < j ∧ r.Succeeds k job t ∧ job.key = key ∧ v = .table t
        ∧ table.Meets lib key
        ∧ ∀ l, k < l → l ≤ r.length → (r.state l).store.tables[t]? = some table)
    ∧ (∀ {i j i' j' key key' v v'}, r.Provides i j key v → r.Provides i' j' key' v' →
      lib.isOwn key.conformance = true → lib.isOwn key'.conformance = true →
      (v = v' ↔ key = key'))
    ∧ (∀ {k job t}, r.Succeeds k job t →
      (∀ {k' job' t'}, r.Succeeds k' job' t' → job'.key = job.key → k' = k)
        ∧ ∀ l, k < l → l ≤ r.length → ¬ (r.state l).Building job.key)
    ∧ (∀ {k job control}, r.Stops k job control → (∃ t, r.Succeeds k job t)
      ∨ (∃ e, control = .unwind e)
        ∧ (r.state (k + 1)).store.tables = (r.state k).store.tables
        ∧ (∀ i, (r.state (k + 1)).store.HasKey i job.key → (r.state (k + 1)).store.Vacant i)
        ∧ ¬ (r.state (k + 1)).Building job.key
        ∧ ∀ {k' job' t}, r.Succeeds k' job' t → job'.key = job.key → k < k')
    ∧ ∀ {k u thread}, k ≤ r.length → (r.state k).store.halted = none →
      (r.state k).threads[u]? = some thread → r.Serves k u thread := by
  refine ⟨?_, ?_, ?_, ?_, fun hk hhalt hu => serves hf hn hk hhalt hu⟩
  · intro i j key v h hown
    obtain ⟨k, job, t, hk, hsucceeds, rfl, rfl⟩ := h.succeeds hf hn hown
    obtain ⟨hkey, hcontains⟩ := hsucceeds.contains hf hn (Nat.lt_succ_self k) hsucceeds.1
    obtain ⟨table, ht, hmeets⟩ :=
      (r.tabled hf hn hsucceeds.1).store.meets hcontains hkey
    exact ⟨k, job, t, table, hk, hsucceeds, rfl, rfl, hmeets,
      fun l hl hle => (r.conserves hf hn hl hle).tables ht⟩
  · intro i j i' j' key key' v v' h h' hown hown'
    obtain ⟨k, job, t, -, hsucceeds, rfl, rfl⟩ := h.succeeds hf hn hown
    obtain ⟨k', job', t', -, hsucceeds', rfl, rfl⟩ := h'.succeeds hf hn hown'
    constructor
    · intro hv
      cases hv
      exact hsucceeds.key_eq hf hn hsucceeds'
    · intro hkey
      rw [(hsucceeds.unique hf hn hsucceeds' hkey).2]
  · intro k job t h
    exact ⟨fun h' hkey => (h'.unique hf hn h hkey).1, fun l hl hle => h.not_building hf hn hl hle⟩
  · intro k job control h
    obtain ⟨-, hkey, ⟨t, rfl, -⟩ | ⟨⟨e, rfl⟩, htables, hvacant⟩⟩ := h.ends hf hn
    · exact .inl ⟨t, h⟩
    · have hcell := (r.conserves hf hn (Nat.le_succ k) h.1).keys hkey
      refine .inr ⟨⟨e, rfl⟩, htables, fun i hi => ?_,
        (r.tabled hf hn h.1).not_building hcell hvacant, fun {k' job' t} h' hsame => ?_⟩
      · rwa [(r.tabled hf hn h.1).store.distinct hi hcell]
      · rcases Nat.lt_or_eq_of_le (h'.last hf hn h hsame.symm) with hlt | rfl
        · exact hlt
        · cases (h.unique h').2

-- ====================================================== by computation

/-- An attempt whose end can be computed, along the walk of the first thread. -/
theorem Stops.of_walk {n : Nat} {h : ∀ k < n, ((start.walk lib k).step lib 0).isSome = true}
    (rest : List TableJob) (hk : k < n) {o : Option Value}
    (hbefore : ((start.walk lib k).threads[0]?).map
        (fun thread => thread.frames.filterMap Frame.attempt?) = some (job :: rest))
    (hafter : ((start.walk lib (k + 1)).threads[0]?).map
        (fun thread => (thread.frames.filterMap Frame.attempt?, thread.control.outcome?))
      = some (rest, o)) :
    ∃ control, (Chronicle.walk lib start n h).Stops k job control ∧ control.outcome? = o := by
  obtain ⟨thread, ht, hjob⟩ := Option.map_eq_some_iff.mp hbefore
  obtain ⟨thread', ht', hends⟩ := Option.map_eq_some_iff.mp hafter
  obtain ⟨rfl, ho⟩ := Prod.mk.inj hends
  exact ⟨thread'.control, ⟨hk, thread, thread', ht, ht', hjob, rfl⟩, ho⟩

end Chronicle

/-- A conformance whose callback leaves the only requirement out when it runs for the
first time, and fills it later. -/
def hesitant : Library Bool where
  descriptors := #[]
  protocols := #[⟨"Shape", [⟨"area", .method, none⟩]⟩]
  conformances := #[{
    recipe := { protocol := 0, pattern := 0, prefilled := [], resilient := [], privateWords := 0 }
    instantiator := some fun _ _ _ => .look fun _ _ tried =>
      if tried then .fill 0 (.function 7) fun _ => .done ()
      else .edit (fun _ => true) (.done ()) }]
  initializer _ := none
  hook _ _ := .done ()

/-- A thread that asks for a table and, when that has failed, asks twice more. -/
def insistent : Machine Bool :=
  launch { faultPolicy := .unwind } false (.guarded
    (fun _ => .table 0 0 5 [] fun _ => .table 0 0 5 [] fun _ => .done ())
    (.table 0 0 5 [] fun _ => .done ()))

theorem fresh_insistent : insistent.Fresh := fresh_launch _ false _

namespace Chronicle

/-- The first attempt fails. The second call begins another one, which succeeds, and
the third is given the table that is there. -/
theorem one_table_hesitant :
    ∃ (start : Machine Bool) (r : Chronicle hesitant start), start.Fresh ∧ start.store.Unbuilt
      ∧ hesitant.isOwn 0 = true
      ∧ (∃ job e, r.Stops 8 job (.unwind e) ∧ job.key = ⟨0, 0, 5⟩)
      ∧ r.Provides 10 16 ⟨0, 0, 5⟩ (.table 0) ∧ r.Provides 17 19 ⟨0, 0, 5⟩ (.table 0)
      ∧ ∃ k job table, 8 < k ∧ k < 16 ∧ r.Succeeds k job 0 ∧ job.key = ⟨0, 0, 5⟩
        ∧ table.Meets hesitant ⟨0, 0, 5⟩ ∧ (r.state 19).store.tables[0]? = some table := by
  let r : Chronicle hesitant insistent := .walk hesitant insistent 19 (by decide +kernel)
  have hsecond : r.Provides 10 16 ⟨0, 0, 5⟩ (.table 0) :=
    .of_walk 0 (by decide) (by decide) (by decide +kernel) (by decide +kernel) (by decide +kernel)
  have hthird : r.Provides 17 19 ⟨0, 0, 5⟩ (.table 0) :=
    .of_walk 0 (by decide) (by decide) (by decide +kernel) (by decide +kernel) (by decide +kernel)
  obtain ⟨control, hfirst, hnone⟩ : ∃ control, r.Stops 8 ⟨0, 0, 0, 5⟩ control
      ∧ control.outcome? = none :=
    Stops.of_walk [] (by decide) (by decide +kernel) (by decide +kernel)
  obtain ⟨hprovides, -, -, hstops, -⟩ := one_table fresh_insistent rfl r
  have hown : hesitant.isOwn 0 = true := by decide
  obtain ⟨k, job, t, table, hk, hsucceeds, hkey, ht, hmeets, hkept⟩ := hprovides hsecond hown
  cases ht
  obtain ⟨t, hgives⟩ | ⟨⟨e, rfl⟩, -, -, -, hlater⟩ := hstops hfirst
  · obtain ⟨-, rfl⟩ := Stops.unique hgives hfirst
    cases hnone
  · exact ⟨_, r, fresh_insistent, rfl, hown, ⟨_, e, hfirst, rfl⟩, hsecond, hthird, k, job, table,
      hlater hsucceeds hkey, hk, hsucceeds, hkey, hmeets,
      hkept 19 (Nat.lt_trans hk (by decide)) (Nat.le_refl _)⟩

end Chronicle

end Machine

end TypeRecords
