/-
Who builds which table.

A cell says who is building its table, and the frames of a thread say which tables
it is building. The two agree (`Turn.Seated`): the cells whose state names a thread
are those of its attempts, and each is there once. So there is one attempt at a
time for a cell, and as a key has one cell, for a key (`Store.Tabled`).

What is in a full cell is the table that an attempt for its key has come to: of the
type of the key, of the protocol of its conformance, and with a witness for each
requirement. No two cells share a table, because a table is new when it is put into
its cell. And it stays there: a full cell is never changed, and neither is a table
(`Store.Conserves`).
-/
import TypeRecords.Proofs.Conforming.Drafts
import TypeRecords.Proofs.Process.Chronicle

namespace TypeRecords

variable {σ : Type} {lib : Library σ}

/-- It is a table for the key, and no requirement is left out. -/
structure WitnessTable.Meets (table : WitnessTable) (lib : Library σ) (key : TableKey) :
    Prop where
  conforming : table.conforming = some key.conforming
  complete : ∃ conformance p, lib.conformances[key.conformance]? = some conformance
    ∧ lib.protocols[conformance.recipe.protocol]? = some p
    ∧ table.protocol = conformance.recipe.protocol
    ∧ table.witnesses.length = p.requirements.length

/-- What a draft without a hole becomes is a table for the key of the attempt. -/
theorem Library.Drafts.meets {key : TableKey} {d : Draft} {p : Protocol}
    (h : lib.Drafts key.conformance d) (hprot : lib.protocols[d.protocol]? = some p)
    (hfull : d.firstEmpty? p = none) :
    WitnessTable.Meets ⟨d.protocol, some key.conforming, d.witnesses, d.words⟩ lib key := by
  obtain ⟨conformance, p', hconf, hprot', hprotocol, hlength⟩ := h
  rw [hprotocol] at hprot
  obtain rfl := Option.some.inj (hprot.symm.trans hprot')
  exact ⟨rfl, conformance, p, hconf, hprot, hprotocol, Draft.witnesses_length hlength hfull⟩

namespace Store

-- ====================================================== vocabulary

/-- The cell is for the key. -/
def HasKey (s : Store) (i : CellId) (key : TableKey) : Prop :=
  ∃ cell, s.cells[i]? = some cell ∧ cell.key = key

/-- The thread is building the table of the cell. -/
def BuiltBy (s : Store) (thread : ThreadId) (i : CellId) : Prop :=
  ∃ cell, s.cells[i]? = some cell ∧ cell.state = .building thread

/-- Nobody is building the table of the cell, and it is not there. -/
def Vacant (s : Store) (i : CellId) : Prop :=
  ∃ cell, s.cells[i]? = some cell ∧ cell.state = .empty

/-- The table is in the cell. -/
def Contains (s : Store) (i : CellId) (table : TableId) : Prop :=
  ∃ cell, s.cells[i]? = some cell ∧ cell.state = .full table

/-- A key has one cell, a table is in one cell, and it is a table for the key of
the cell. -/
structure Tabled (s : Store) (lib : Library σ) : Prop where
  distinct : ∀ {i j : CellId} {key : TableKey}, s.HasKey i key → s.HasKey j key → i = j
  apart : ∀ {i j : CellId} {t : TableId}, s.Contains i t → s.Contains j t → i = j
  meets : ∀ {i : CellId} {t : TableId} {key : TableKey}, s.Contains i t → s.HasKey i key →
    ∃ table, s.tables[t]? = some table ∧ table.Meets lib key

/-- Cells are for good what they are for, full ones are full for good, and tables
are what they were. -/
structure Conserves (s s' : Store) : Prop where
  keys : ∀ {i : CellId} {key : TableKey}, s.HasKey i key → s'.HasKey i key
  full : ∀ {i : CellId} {t : TableId}, s.Contains i t → s'.Contains i t
  tables : ∀ {t : TableId} {table : WitnessTable}, s.tables[t]? = some table →
    s'.tables[t]? = some table

variable {s s' s'' : Store} {i i₀ : CellId} {cell : Cell} {state : CellState} {t : TableId}
  {u : ThreadId} {key : TableKey}

/-- A store that is left alone conserves everything. -/
theorem Conserves.refl (s : Store) : s.Conserves s := ⟨id, id, id⟩

/-- What is conserved twice, is conserved. -/
theorem Conserves.trans (h : s.Conserves s') (h' : s'.Conserves s'') : s.Conserves s'' :=
  ⟨fun hk => h'.keys (h.keys hk), fun hf => h'.full (h.full hf),
    fun ht => h'.tables (h.tables ht)⟩

/-- The key of a cell is that of the cell that is there. -/
theorem HasKey.key_eq (h : s.HasKey i key) (hcell : s.cells[i]? = some cell) : cell.key = key := by
  obtain ⟨cell', hcell', hkey⟩ := h
  rwa [Option.some.inj (hcell.symm.trans hcell')]

/-- A cell is for one key. -/
theorem HasKey.unique {key' : TableKey} (h : s.HasKey i key) (h' : s.HasKey i key') :
    key = key' := by
  obtain ⟨cell, hcell, rfl⟩ := h
  exact h'.key_eq hcell

/-- The builder of a cell is that of the cell that is there. -/
theorem BuiltBy.state_eq (h : s.BuiltBy u i) (hcell : s.cells[i]? = some cell) :
    cell.state = .building u := by
  obtain ⟨cell', hcell', hbuilding⟩ := h
  rwa [Option.some.inj (hcell.symm.trans hcell')]

/-- A table that is being built is not there, -/
theorem BuiltBy.not_contains (h : s.BuiltBy u i) : ¬ s.Contains i t :=
  fun ⟨_, hcell, hfull⟩ => by cases hfull.symm.trans (h.state_eq hcell)

/-- and its cell is not free. -/
theorem BuiltBy.not_vacant (h : s.BuiltBy u i) : ¬ s.Vacant i :=
  fun ⟨_, hcell, hempty⟩ => by cases hempty.symm.trans (h.state_eq hcell)

/-- Nothing is different if cells and tables are what they were. -/
theorem SameTables.hasKey (h : s'.SameTables s) : s'.HasKey i key ↔ s.HasKey i key := by
  unfold HasKey
  rw [h.cells]

/-- Full cells are full of the same tables. -/
theorem SameTables.contains (h : s'.SameTables s) : s'.Contains i t ↔ s.Contains i t := by
  unfold Contains
  rw [h.cells]

/-- The same threads build the same tables. -/
theorem SameTables.builtBy (h : s'.SameTables s) : s'.BuiltBy u i ↔ s.BuiltBy u i := by
  unfold BuiltBy
  rw [h.cells]

/-- Cells and tables that are what they were are conserved. -/
theorem SameTables.conserves (h : s'.SameTables s) : s.Conserves s' :=
  ⟨h.hasKey.mpr, h.contains.mpr, fun ht => h.tables ▸ ht⟩

/-- So is their order. -/
theorem SameTables.tabled (h : s'.SameTables s) (ht : s.Tabled lib) : s'.Tabled lib where
  distinct hi hj := ht.distinct (h.hasKey.mp hi) (h.hasKey.mp hj)
  apart hi hj := ht.apart (h.contains.mp hi) (h.contains.mp hj)
  meets hf hk := by
    rw [h.tables]
    exact ht.meets (h.contains.mp hf) (h.hasKey.mp hk)

-- ====================================================== a cell that changes

section
variable (hcells : s'.cells = (s.changeCell i₀ state).cells)
include hcells

/-- One cell is in the new state, the others are as they were. -/
theorem getElem?_changed (i : CellId) : s'.cells[i]?
    = if i₀ = i then (s.cells[i]?).map fun c => { c with state := state } else s.cells[i]? := by
  rw [hcells]
  exact Array.getElem?_modify

/-- It is for what it was for. -/
theorem hasKey_changed : s'.HasKey i key ↔ s.HasKey i key := by
  unfold HasKey
  rw [getElem?_changed hcells]
  split
  · cases s.cells[i]? with
    | none => simp
    | some cell =>
        simp only [Option.map_some, Option.some.injEq, exists_eq_left']
        exact Iff.rfl
  · rfl

/-- Who builds a table: whoever has begun to, and the others as before. -/
theorem builtBy_changed (hcell : s.cells[i₀]? = some cell) :
    s'.BuiltBy u i ↔ (i = i₀ ∧ state = .building u) ∨ (i ≠ i₀ ∧ s.BuiltBy u i) := by
  unfold BuiltBy
  rw [getElem?_changed hcells]
  by_cases hi : i₀ = i
  · subst hi
    simp [hcell]
  · simp [hi, Ne.symm hi]

/-- A table is in a cell if it has been put there now, or was in another one before. -/
theorem contains_changed (hcell : s.cells[i₀]? = some cell) :
    s'.Contains i t ↔ (i = i₀ ∧ state = .full t) ∨ (i ≠ i₀ ∧ s.Contains i t) := by
  unfold Contains
  rw [getElem?_changed hcells]
  by_cases hi : i₀ = i
  · subst hi
    simp [hcell]
  · simp [hi, Ne.symm hi]

/-- An attempt begins, or fails. -/
theorem Tabled.change (h : s.Tabled lib) (hcell : s.cells[i₀]? = some cell)
    (hstate : ∀ t, state ≠ .full t) (htables : s'.tables = s.tables) : s'.Tabled lib := by
  have hcontains : ∀ {i t}, s'.Contains i t → s.Contains i t := fun hf =>
    ((contains_changed hcells hcell).mp hf).elim (fun hf => (hstate _ hf.2).elim) (·.2)
  refine ⟨fun hi hj => ?_, fun hi hj => h.apart (hcontains hi) (hcontains hj), fun hf hk => ?_⟩
  · exact h.distinct ((hasKey_changed hcells).mp hi) ((hasKey_changed hcells).mp hj)
  · rw [htables]
    exact h.meets (hcontains hf) ((hasKey_changed hcells).mp hk)

/-- A cell that is not full may change. -/
theorem Conserves.change (hcell : s.cells[i₀]? = some cell) (hnot : ∀ t, cell.state ≠ .full t)
    (htables : ∀ {t : TableId} {table : WitnessTable}, s.tables[t]? = some table →
      s'.tables[t]? = some table) : s.Conserves s' := by
  refine ⟨(hasKey_changed hcells).mpr, fun {i t} hf => ?_, htables⟩
  refine (contains_changed hcells hcell).mpr (.inr ⟨?_, hf⟩)
  rintro rfl
  obtain ⟨cell', hcell', hfull⟩ := hf
  obtain rfl := Option.some.inj (hcell.symm.trans hcell')
  exact hnot t hfull

end

/-- A new table leaves the others where they are. -/
theorem tables_kept {table added : WitnessTable} (htables : s'.tables = s.tables.push added)
    (h : s.tables[t]? = some table) : s'.tables[t]? = some table := by
  have hlt := (Array.getElem?_eq_some_iff.mp h).1
  rw [htables, Array.getElem?_push, if_neg (Nat.ne_of_lt hlt)]
  exact h

/-- An attempt succeeds: its table is new. -/
theorem Tabled.fill {table : WitnessTable} (h : s.Tabled lib)
    (hcells : s'.cells = (s.changeCell i₀ (.full s.tables.size)).cells)
    (hcell : s.cells[i₀]? = some cell) (htables : s'.tables = s.tables.push table)
    (hmeets : table.Meets lib cell.key) : s'.Tabled lib := by
  -- a cell that was full has one of the tables that were there
  have hold : ∀ {i t}, s.Contains i t → t < s.tables.size := fun {i t} hf => by
    obtain ⟨cell, hcell, -⟩ := id hf
    obtain ⟨table, ht, -⟩ := h.meets hf ⟨cell, hcell, rfl⟩
    exact (Array.getElem?_eq_some_iff.mp ht).1
  refine ⟨fun hi hj => ?_, fun {i j t} hi hj => ?_, fun {i t key} hf hk => ?_⟩
  · exact h.distinct ((hasKey_changed hcells).mp hi) ((hasKey_changed hcells).mp hj)
  · rcases (contains_changed hcells hcell).mp hi with ⟨rfl, hi⟩ | ⟨-, hi⟩
      <;> rcases (contains_changed hcells hcell).mp hj with ⟨rfl, hj⟩ | ⟨-, hj⟩
    · rfl
    · cases hi
      exact (Nat.lt_irrefl _ (hold hj)).elim
    · cases hj
      exact (Nat.lt_irrefl _ (hold hi)).elim
    · exact h.apart hi hj
  · have hkey := (hasKey_changed hcells).mp hk
    rcases (contains_changed hcells hcell).mp hf with ⟨rfl, hf⟩ | ⟨-, hf⟩
    · cases hf
      obtain rfl := hkey.key_eq hcell
      exact ⟨table, by rw [htables, Array.getElem?_push_size], hmeets⟩
    · obtain ⟨table', ht, hmeets'⟩ := h.meets hf hkey
      exact ⟨table', tables_kept htables ht, hmeets'⟩

-- ====================================================== a cell that is new

/-- A request comes to the cell of its key, which was there, or is new and
empty. -/
theorem cellFor_cases (s : Store) (registry : RegistryId) (c : ConformanceId)
    (conforming : RecordId) :
    (s.HasKey (s.cellFor registry c conforming).2 ⟨registry, c, conforming⟩
        ∧ (s.cellFor registry c conforming).1 = s)
      ∨ (∀ i, ¬ s.HasKey i ⟨registry, c, conforming⟩)
        ∧ s.cellFor registry c conforming
          = ({ s with cells := s.cells.push ⟨registry, c, conforming, .empty⟩ }, s.cells.size) := by
  unfold cellFor
  split
  · rename_i i hi
    obtain ⟨hlt, hp, -⟩ := Array.findIdx?_eq_some_iff_getElem.mp hi
    simp only [Bool.and_eq_true, beq_iff_eq] at hp
    obtain ⟨⟨rfl, rfl⟩, rfl⟩ := hp
    exact .inl ⟨⟨_, Array.getElem?_eq_getElem hlt, rfl⟩, rfl⟩
  · rename_i hnone
    refine .inr ⟨fun i ⟨cell, hcell, hkey⟩ => ?_, rfl⟩
    have hp := Array.findIdx?_eq_none_iff.mp hnone cell (Array.mem_of_getElem? hcell)
    cases hkey
    simp at hp

section
variable {registry : RegistryId} {c : ConformanceId} {conforming : RecordId}

/-- What is in a cell after a request has come to its own was in it before. -/
theorem getElem?_cellFor
    (h : (s.cellFor registry c conforming).1.cells[i]? = some cell) :
    s.cells[i]? = some cell ∨ cell = ⟨registry, c, conforming, .empty⟩
      ∧ i = (s.cellFor registry c conforming).2 ∧ ∀ j, ¬ s.HasKey j ⟨registry, c, conforming⟩ := by
  rcases s.cellFor_cases registry c conforming with ⟨-, hs⟩ | ⟨hnew, hs⟩
  · rw [hs] at h
    exact .inl h
  · rw [hs] at h ⊢
    rw [Array.getElem?_push] at h
    split at h
    · exact .inr ⟨(Option.some.inj h).symm, by assumption, hnew⟩
    · exact .inl h

/-- To look for a cell leaves the cells that are there. -/
theorem cellFor_kept (h : s.cells[i]? = some cell) :
    (s.cellFor registry c conforming).1.cells[i]? = some cell := by
  rcases s.cellFor_cases registry c conforming with ⟨-, hs⟩ | ⟨-, hs⟩
  · rwa [hs]
  · have hlt := (Array.getElem?_eq_some_iff.mp h).1
    rw [hs, Array.getElem?_push, if_neg (Nat.ne_of_lt hlt)]
    exact h

/-- The cell that is found, or made, is for the key. -/
theorem cellFor_hasKey (s : Store) (registry : RegistryId) (c : ConformanceId)
    (conforming : RecordId) : (s.cellFor registry c conforming).1.HasKey
      (s.cellFor registry c conforming).2 ⟨registry, c, conforming⟩ := by
  rcases s.cellFor_cases registry c conforming with ⟨hkey, hs⟩ | ⟨-, hs⟩
  · rwa [hs]
  · rw [hs]
    exact ⟨_, Array.getElem?_push_size, rfl⟩

/-- No table comes of looking for a cell. -/
theorem cellFor_tables : (s.cellFor registry c conforming).1.tables = s.tables := by
  unfold cellFor
  split <;> rfl

/-- The new cell holds nothing. -/
theorem cellFor_contains :
    (s.cellFor registry c conforming).1.Contains i t ↔ s.Contains i t := by
  refine ⟨fun ⟨cell, hcell, hfull⟩ => ?_, fun ⟨cell, hcell, hfull⟩ =>
    ⟨cell, cellFor_kept hcell, hfull⟩⟩
  rcases getElem?_cellFor hcell with hold | ⟨rfl, -⟩
  · exact ⟨cell, hold, hfull⟩
  · cases hfull

/-- And nobody builds its table yet. -/
theorem cellFor_builtBy :
    (s.cellFor registry c conforming).1.BuiltBy u i ↔ s.BuiltBy u i := by
  refine ⟨fun ⟨cell, hcell, hbuilding⟩ => ?_, fun ⟨cell, hcell, hbuilding⟩ =>
    ⟨cell, cellFor_kept hcell, hbuilding⟩⟩
  rcases getElem?_cellFor hcell with hold | ⟨rfl, -⟩
  · exact ⟨cell, hold, hbuilding⟩
  · cases hbuilding

/-- Looking for a cell conserves everything. -/
theorem conserves_cellFor : s.Conserves (s.cellFor registry c conforming).1 where
  keys := fun ⟨cell, hcell, hkey⟩ => ⟨cell, cellFor_kept hcell, hkey⟩
  full := cellFor_contains.mpr
  tables h := by
    rw [cellFor_tables]
    exact h

/-- A cell that is made is the first for its key, and empty. -/
theorem Tabled.cellFor (h : s.Tabled lib) : (s.cellFor registry c conforming).1.Tabled lib := by
  -- a key that was there has kept its cell
  have hkeys : ∀ {i key}, (s.cellFor registry c conforming).1.HasKey i key → s.HasKey i key
      ∨ i = (s.cellFor registry c conforming).2 ∧ ∀ j, ¬ s.HasKey j key :=
    fun {i key} ⟨cell, hcell, hkey⟩ => by
      rcases getElem?_cellFor hcell with hold | ⟨rfl, hi, hnew⟩
      · exact .inl ⟨cell, hold, hkey⟩
      · exact .inr ⟨hi, hkey ▸ hnew⟩
  refine ⟨fun {i j key} hi hj => ?_, fun hi hj => ?_, fun {i t key} hf hk => ?_⟩
  · rcases hkeys hi with hi | ⟨hi, hnew⟩ <;> rcases hkeys hj with hj | ⟨hj, hnew'⟩
    · exact h.distinct hi hj
    · exact (hnew' _ hi).elim
    · exact (hnew _ hj).elim
    · exact hi.trans hj.symm
  · exact h.apart (cellFor_contains.mp hi) (cellFor_contains.mp hj)
  · obtain ⟨cell, hcell, hfull⟩ := cellFor_contains.mp hf
    rw [cellFor_tables]
    exact h.meets ⟨cell, hcell, hfull⟩ ⟨cell, hcell, hk.key_eq (cellFor_kept hcell)⟩

end

end Store

-- ====================================================== one thread

namespace Turn

/-- The attempts of a thread are at the cells that say so, each once. -/
structure Seated (t : Turn σ) (thread : ThreadId) : Prop where
  cells : ∀ i, i ∈ t.attempts.map (·.cell) ↔ t.store.BuiltBy thread i
  once : (t.attempts.map (·.cell)).Nodup
  keys : ∀ j ∈ t.attempts, t.store.HasKey j.cell j.key
  acquires : ∀ {j : TableJob} {arguments : List TableId}, t.control = .acquire j arguments →
    t.store.HasKey j.cell j.key

/-- What a step does for the table of each key, and what it leaves to the other
threads. -/
structure Furthers (lib : Library σ) (thread : ThreadId) (t t' : Turn σ) : Prop where
  tabled : t'.store.Tabled lib
  conserves : t.store.Conserves t'.store
  seated : t'.Seated thread
  others : ∀ {u : ThreadId}, u ≠ thread → ∀ i, t'.store.BuiltBy u i ↔ t.store.BuiltBy u i

variable {t t' : Turn σ} {thread u : ThreadId}

/-- A thread whose attempts are what they were, at cells that are. -/
theorem Seated.keep (h : t.Seated u) (hattempts : t'.attempts = t.attempts)
    (hs : t.store.Conserves t'.store)
    (hcells : ∀ i, t'.store.BuiltBy u i ↔ t.store.BuiltBy u i)
    (hacquires : ∀ {j : TableJob} {arguments : List TableId}, t'.control = .acquire j arguments →
      t'.store.HasKey j.cell j.key) : t'.Seated u where
  cells i := by
    rw [hattempts]
    exact (h.cells i).trans (hcells i).symm
  once := hattempts ▸ h.once
  keys j hj := hs.keys (h.keys j (hattempts ▸ hj))
  acquires := hacquires

/-- Whoever has no frames has no attempts. -/
theorem Seated.start (hf : t.frames = []) (hc : t.control.acquires = false)
    (hno : ∀ i, ¬ t.store.BuiltBy thread i) : t.Seated thread := by
  have hnone : t.attempts = [] := by
    unfold attempts
    rw [hf]
    rfl
  refine ⟨fun i => ?_, ?_, ?_, fun hacquire => ?_⟩
  · rw [hnone]
    exact ⟨nofun, fun hb => (hno i hb).elim⟩
  · rw [hnone]
    exact .nil
  · rw [hnone]
    nofun
  · rw [hacquire] at hc
    cases hc

/-- The attempt in the topmost frame is the innermost. -/
theorem attempts_of_filling {j : TableJob} {rest : List (Frame σ)}
    (hf : t.frames = .filling j :: rest) : t.attempts = j :: rest.filterMap Frame.attempt? := by
  unfold attempts
  rw [hf]
  rfl

/-- The innermost attempt of a thread is at a cell whose table the thread builds. -/
theorem Seated.built {j : TableJob} {rest : List (Frame σ)} (h : t.Seated thread)
    (hf : t.frames = .filling j :: rest) :
    ∃ cell, t.store.cells[j.cell]? = some cell ∧ cell.state = .building thread
      ∧ cell.key = j.key := by
  have hm : j ∈ t.attempts := attempts_of_filling hf ▸ List.mem_cons_self
  obtain ⟨cell, hcell, hbuilding⟩ := (h.cells j.cell).mp (List.mem_map_of_mem hm)
  exact ⟨cell, hcell, hbuilding, (h.keys j hm).key_eq hcell⟩

/-- An attempt that is over leaves its cell to whoever comes next. -/
theorem Seated.leave {j : TableJob} {state : CellState} {cell : Cell} (h : t.Seated thread)
    (hf : t.frames = .filling j :: t'.frames) (hcell : t.store.cells[j.cell]? = some cell)
    (hcells : t'.store.cells = (t.store.changeCell j.cell state).cells)
    (hstate : ∀ u, state ≠ .building u) (hc : t'.control.acquires = false) :
    t'.Seated thread := by
  have hattempts : t.attempts = j :: t'.attempts := attempts_of_filling hf
  have honce := h.once
  rw [hattempts, List.map_cons, List.nodup_cons] at honce
  refine ⟨fun i => ?_, honce.2, fun i hi => ?_, fun hacquire => ?_⟩
  · have hi := h.cells i
    rw [hattempts, List.map_cons, List.mem_cons] at hi
    rw [Store.builtBy_changed hcells hcell, ← hi]
    constructor
    · intro hm
      exact .inr ⟨fun heq => honce.1 (heq ▸ hm), .inr hm⟩
    · rintro (⟨-, hbuilding⟩ | ⟨hne, heq | hm⟩)
      · exact (hstate _ hbuilding).elim
      · exact (hne heq).elim
      · exact hm
  · refine (Store.hasKey_changed hcells).mpr (h.keys i ?_)
    rw [hattempts]
    exact List.mem_cons_of_mem _ hi
  · rw [hacquire] at hc
    cases hc

/-- An attempt begins at an empty cell. -/
theorem Seated.enter {j : TableJob} {cell : Cell} (h : t.Seated thread)
    (hf : t'.frames = .filling j :: t.frames) (hcell : t.store.cells[j.cell]? = some cell)
    (hempty : cell.state = .empty) (hkey : t.store.HasKey j.cell j.key)
    (hcells : t'.store.cells = (t.store.changeCell j.cell (.building thread)).cells)
    (hc : t'.control.acquires = false) : t'.Seated thread := by
  have hattempts : t'.attempts = j :: t.attempts := attempts_of_filling hf
  have hnot : ¬ t.store.BuiltBy thread j.cell := fun hb => hb.not_vacant ⟨cell, hcell, hempty⟩
  refine ⟨fun i => ?_, ?_, fun i hi => ?_, fun hacquire => ?_⟩
  · rw [hattempts, List.map_cons, List.mem_cons, h.cells, Store.builtBy_changed hcells hcell]
    constructor
    · rintro (rfl | hb)
      · exact .inl ⟨rfl, rfl⟩
      · exact .inr ⟨fun heq => hnot (heq ▸ hb), hb⟩
    · rintro (⟨rfl, -⟩ | ⟨-, hb⟩)
      · exact .inl rfl
      · exact .inr hb
  · rw [hattempts, List.map_cons, List.nodup_cons]
    exact ⟨fun hm => hnot ((h.cells _).mp hm), h.once⟩
  · rw [hattempts] at hi
    refine (Store.hasKey_changed hcells).mpr ?_
    rcases List.mem_cons.mp hi with rfl | hi
    · exact hkey
    · exact h.keys i hi
  · rw [hacquire] at hc
    cases hc

/-- An attempt does not begin at a cell again. -/
theorem opening_acquires (c : Conformance σ) (p : Protocol) (j : TableJob)
    (arguments : List TableId) : (c.opening p j arguments).acquires = false := by
  unfold Conformance.opening
  split <;> rfl

/-- A thread changes a cell that is empty, or whose table it builds itself. No full
one is touched by this, and none of another thread. -/
theorem touches {j : TableJob} {cell : Cell} {state : CellState}
    (hcell : t.store.cells[j.cell]? = some cell)
    (hopen : cell.state = .empty ∨ cell.state = .building thread)
    (hcells : t'.store.cells = (t.store.changeCell j.cell state).cells)
    (hstate : ∀ u, state = .building u → u = thread)
    (htables : ∀ {i : TableId} {table : WitnessTable}, t.store.tables[i]? = some table →
      t'.store.tables[i]? = some table) :
    t.store.Conserves t'.store
      ∧ ∀ {u : ThreadId}, u ≠ thread → ∀ i, t'.store.BuiltBy u i ↔ t.store.BuiltBy u i := by
  refine ⟨.change hcells hcell (fun table hfull => ?_) htables, fun {u} hu i => ?_⟩
  · rw [hfull] at hopen
    exact hopen.elim nofun nofun
  · rw [Store.builtBy_changed hcells hcell]
    constructor
    · rintro (⟨-, hbuilding⟩ | ⟨-, hb⟩)
      · exact (hu (hstate u hbuilding)).elim
      · exact hb
    · intro hb
      refine .inr ⟨?_, hb⟩
      rintro rfl
      rw [hb.state_eq hcell] at hopen
      exact hopen.elim nofun fun heq => hu (CellState.building.inj heq)

/-- Every step furthers at most the attempt it is about. -/
theorem Builds.furthers (h : Builds lib thread t t') (ht : t.store.Tabled lib)
    (hs : t.Seated thread) (hd : t.Drafted lib) : Furthers lib thread t t' := by
  cases h with
  | aside hc haside hf =>
      have hsame := haside.store
      refine ⟨hsame.tabled ht, hsame.conserves, hs.keep hf hsame.conserves
        (fun _ => hsame.builtBy) fun hacquire => ?_, fun _ _ => hsame.builtBy⟩
      have hnot := haside.control
      rw [hacquire] at hnot
      cases hnot
  | asked hc hown ht' =>
      subst ht'
      refine ⟨ht.cellFor, Store.conserves_cellFor, hs.keep rfl Store.conserves_cellFor
        (fun _ => Store.cellFor_builtBy) fun hacquire => ?_, fun _ _ => Store.cellFor_builtBy⟩
      cases hacquire
      exact t.store.cellFor_hasKey ..
  | taken hc hcell hfull ht' =>
      subst ht'
      exact ⟨ht, .refl _, hs.keep rfl (.refl _) (fun _ => Iff.rfl) nofun, fun _ _ => Iff.rfl⟩
  | begun hc hcell hempty hconf hprot hcells htables hf hc' =>
      obtain ⟨hconserves, hothers⟩ := touches hcell (.inl hempty) hcells
        (fun _ heq => (CellState.building.inj heq).symm) fun h => htables ▸ h
      exact ⟨ht.change hcells hcell nofun htables, hconserves,
        hs.enter hf hcell hempty (hs.acquires hc) hcells (hc' ▸ opening_acquires ..), hothers⟩
  | @succeeded v j draft p hc hf hprot hfull hcells htables hc' =>
      obtain ⟨cell, hcell, hbuilding, hkey⟩ := hs.built hf
      have hworks := hd.control _ ⟨j, _, hf, rfl⟩
      rw [hc] at hworks
      have hdrafts : lib.Drafts j.key.conformance draft := hworks
      have hmeets := hdrafts.meets hprot hfull
      obtain ⟨hconserves, hothers⟩ := touches hcell (.inr hbuilding) hcells nofun
        (Store.tables_kept htables)
      exact ⟨ht.fill hcells hcell htables (hkey ▸ hmeets), hconserves,
        hs.leave hf hcell hcells nofun (hc' ▸ rfl), hothers⟩
  | failed hc hf hcells htables hc' =>
      obtain ⟨cell, hcell, hbuilding, -⟩ := hs.built hf
      obtain ⟨hconserves, hothers⟩ := touches hcell (.inr hbuilding) hcells nofun
        fun h => htables ▸ h
      exact ⟨ht.change hcells hcell nofun htables, hconserves,
        hs.leave hf hcell hcells nofun (hc' ▸ rfl), hothers⟩

end Turn

-- ====================================================== all threads

/-- Nobody has asked for a witness table. -/
def Store.Unbuilt (s : Store) : Prop := s.cells = #[]

/-- There is no cell yet. -/
theorem Store.Unbuilt.none {s : Store} (h : s.Unbuilt) (i : CellId) : s.cells[i]? = none := by
  rw [show s.cells = #[] from h]
  rfl

/-- Where there are no cells they are in order. -/
theorem Store.Unbuilt.tabled {s : Store} (h : s.Unbuilt) : s.Tabled lib where
  distinct := fun ⟨_, hcell, _⟩ _ => by rw [h.none] at hcell; cases hcell
  apart := fun ⟨_, hcell, _⟩ _ => by rw [h.none] at hcell; cases hcell
  meets := fun ⟨_, hcell, _⟩ _ => by rw [h.none] at hcell; cases hcell

namespace Machine

variable {start m m' : Machine σ} {t u : ThreadId} {thread : Thread σ}

/-- Cells and threads say the same about who builds what. -/
structure Tabled (m : Machine σ) (lib : Library σ) : Prop where
  store : m.store.Tabled lib
  threads : ∀ {u : ThreadId} {thread : Thread σ}, m.threads[u]? = some thread →
    (m.turn thread).Seated u
  builders : ∀ {u : ThreadId} {i : CellId}, m.store.BuiltBy u i → u < m.threads.size

/-- At first all is in order. -/
theorem Fresh.tabled (hf : start.Fresh) (hn : start.store.Unbuilt) : start.Tabled lib := by
  have hno : ∀ u i, ¬ start.store.BuiltBy u i := fun u i ⟨_, hcell, _⟩ => by
    rw [hn.none] at hcell
    cases hcell
  refine ⟨hn.tabled, fun {u thread} hu => ?_, fun hb => (hno _ _ hb).elim⟩
  obtain ⟨hframes, p, s, hrun⟩ := hf.running thread (Array.mem_of_getElem? hu)
  refine .start hframes ?_ (hno u)
  show thread.control.acquires = false
  rw [hrun]
  rfl

/-- Threads are there for good. -/
theorem step_size (h : m.step lib t = some m') : m.threads.size ≤ m'.threads.size := by
  obtain ⟨-, moved, -, hmoved, -⟩ := step_builds h
  refine Nat.le_of_not_lt fun hlt => ?_
  have hne : t ≠ m'.threads.size := Nat.ne_of_lt (Array.getElem?_eq_some_iff.mp hmoved).1
  have hkept := step_other h hne (Array.getElem?_eq_getElem hlt)
  exact Nat.lt_irrefl _ (Array.getElem?_eq_some_iff.mp hkept).1

/-- A step keeps cells and tables in order, and conserves them. -/
theorem Tabled.step (h : m.Tabled lib) (hs : m.step lib t = some m')
    (hd : ∀ {thread : Thread σ}, m.threads[t]? = some thread → (m.turn thread).Drafted lib) :
    m'.Tabled lib ∧ m.store.Conserves m'.store := by
  obtain ⟨mover, moved, hmover, hmoved, hbuilds⟩ := step_builds hs
  have hfurthers := hbuilds.furthers h.store (h.threads hmover) (hd hmover)
  refine ⟨⟨hfurthers.tabled, fun {u thread} hu => ?_, fun {u i} hb => ?_⟩, hfurthers.conserves⟩
  · by_cases htu : u = t
    · subst htu
      obtain rfl := Option.some.inj (hmoved.symm.trans hu)
      exact hfurthers.seated
    · have hothers := hfurthers.others htu
      cases hthere : m.threads[u]? with
      | some old =>
          have hold := h.threads hthere
          obtain rfl := Option.some.inj ((step_other hs (Ne.symm htu) hthere).symm.trans hu)
          exact hold.keep rfl hfurthers.conserves hothers fun hc =>
            hfurthers.conserves.keys (hold.acquires hc)
      | none =>
          -- a thread that has been started builds nothing, and nobody did so in its name
          rcases step_others hs (Ne.symm htu) hu with hold | ⟨hframes, p, s, hrun⟩
          · rw [hthere] at hold
            cases hold
          · refine .start hframes ?_ fun i hb => ?_
            · show thread.control.acquires = false
              rw [hrun]
              rfl
            · have hlt := h.builders ((hothers i).mp hb)
              rw [Array.getElem?_eq_getElem hlt] at hthere
              cases hthere
  · by_cases htu : u = t
    · subst htu
      exact (Array.getElem?_eq_some_iff.mp hmoved).1
    · exact Nat.lt_of_lt_of_le (h.builders ((hfurthers.others htu i).mp hb)) (step_size hs)

/-- In every run cells and threads agree. -/
theorem Reachable.tabled (hf : start.Fresh) (hn : start.store.Unbuilt)
    (h : Reachable lib start m) : m.Tabled lib := by
  induction h with
  | refl => exact hf.tabled hn
  | step t h hs ih => exact (ih.step hs (h.drafted hf)).1

/-- Whatever happens, what is in a cell stays there. -/
theorem Reachable.conserves (hf : start.Fresh) (hn : start.store.Unbuilt)
    (h : Reachable lib start m) (h' : Reachable lib m m') : m.store.Conserves m'.store := by
  induction h' with
  | refl => exact .refl _
  | step t h' hs ih =>
      have hreach := h.trans h'
      exact ih.trans ((hreach.tabled hf hn).step hs (hreach.drafted hf)).2

end Machine

end TypeRecords
