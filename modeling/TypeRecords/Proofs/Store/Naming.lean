/-
Which entry a record belongs to.

A registry finds the entry of a record again by the record's key. Two lists
decide what it finds: the *labels* of the entries (registry and key of each)
and the *keys* of the records. Neither is ever changed in place: entries and
records are only added behind those that are there. So whatever has been found
once is found again in every later store, and that is all the other modules
need to know about lookup.

# The two relations between stores

- `Alike`: the same entries and the same keys. This is what a step does that
  only concerns layouts, arenas, ledgers, tables, names or hooks.
- `Extends`: labels and keys may have grown at the end.
-/
import TypeRecords.Program

namespace TypeRecords.Store

-- ====================================================== labels and keys

/-- What each entry is for. -/
def labels (s : Store) : List (RegistryId × Key) :=
  s.entries.toList.map fun e => (e.registry, e.key)

/-- What each record is known by. -/
def keys (s : Store) : List (Option Key) := s.records.toList.map Record.key?

/-- The key of one record. -/
def keyOf (s : Store) (record : RecordId) : Option Key := (s.records[record]?).bind Record.key?

/-- The key of a record is in the list of keys. -/
theorem keyOf_eq (s : Store) (record : RecordId) : s.keyOf record = (s.keys[record]?).join := by
  unfold keyOf keys
  rw [List.getElem?_map, Array.getElem?_toList]
  cases s.records[record]? <;> rfl

/-- The entry of a record is found by its key; a record without one has no entry. -/
theorem entryOf?_eq (s : Store) (registry : RegistryId) (record : RecordId) :
    s.entryOf? registry record = (s.keyOf record).bind (s.find? registry) := by
  unfold entryOf? keyOf
  cases s.records[record]? <;> rfl

/-- The label at an index is that of the entry there. -/
theorem labels_getElem? (s : Store) (i : EntryId) :
    s.labels[i]? = (s.entries[i]?).map fun e => (e.registry, e.key) := by
  unfold labels
  rw [List.getElem?_map, Array.getElem?_toList]

/-- The entry of a key is the first that is labelled with it. -/
theorem find?_eq (s : Store) (registry : RegistryId) (key : Key) :
    s.find? registry key = s.labels.findIdx? fun l => l.1 == registry && l.2 == key := by
  unfold find? labels
  rw [List.findIdx?_map, ← List.findIdx?_toArray]
  rfl

/-- What is found carries the label that was looked for. -/
theorem find?_some {s : Store} {registry : RegistryId} {key : Key} {i : EntryId}
    (h : s.find? registry key = some i) :
    ∃ e, s.entries[i]? = some e ∧ e.registry = registry ∧ e.key = key := by
  unfold find? at h
  obtain ⟨hi, hp, -⟩ := Array.findIdx?_eq_some_iff_getElem.mp h
  simp only [Bool.and_eq_true, beq_iff_eq] at hp
  exact ⟨_, Array.getElem?_eq_getElem hi, hp.1, hp.2⟩

/-- What is not found is nobody's label. -/
theorem find?_none {s : Store} {registry : RegistryId} {key : Key}
    (h : s.find? registry key = none) : (registry, key) ∉ s.labels := by
  rw [find?_eq, List.findIdx?_eq_none_iff] at h
  intro hm
  simpa using h _ hm

/-- Labels that differ from each other lead back to their entries. -/
theorem find?_of_entry {s : Store} (hd : s.labels.Nodup) {i : EntryId} {e : Entry}
    (he : s.entries[i]? = some e) : s.find? e.registry e.key = some i := by
  have hl : s.labels[i]? = some (e.registry, e.key) := by rw [labels_getElem?, he]; rfl
  obtain ⟨hi, hli⟩ := List.getElem?_eq_some_iff.mp hl
  rw [find?_eq, List.findIdx?_eq_some_iff_getElem]
  refine ⟨hi, by simp [hli], fun j hj hp => ?_⟩
  simp only [Bool.and_eq_true, beq_iff_eq] at hp
  have hsame : s.labels[j] = s.labels[i] := by
    rw [hli]
    exact Prod.ext hp.1 hp.2
  exact List.pairwise_iff_getElem.mp hd j i (by omega) hi hj hsame

/-- An entry that is found for a record carries the record's key. -/
theorem entryOf?_some {s : Store} {registry : RegistryId} {record : RecordId} {i : EntryId}
    (h : s.entryOf? registry record = some i) :
    ∃ e, s.entries[i]? = some e ∧ e.registry = registry ∧ s.keyOf record = some e.key := by
  rw [entryOf?_eq] at h
  obtain ⟨key, hk, hf⟩ := Option.bind_eq_some_iff.mp h
  obtain ⟨e, he, hr, hkey⟩ := find?_some hf
  exact ⟨e, he, hr, by rw [hk, hkey]⟩

/-- The entry that carries a record's key is found for the record. -/
theorem entryOf?_of_entry {s : Store} (hd : s.labels.Nodup) {record : RecordId} {i : EntryId}
    {e : Entry} (he : s.entries[i]? = some e) (hk : s.keyOf record = some e.key) :
    s.entryOf? e.registry record = some i := by
  rw [entryOf?_eq, hk]
  exact find?_of_entry hd he

/-- Which entry is found depends on labels and keys alone. -/
theorem entryOf?_congr {s s' : Store} (hl : s'.labels = s.labels) (hk : s'.keys = s.keys)
    (registry : RegistryId) (record : RecordId) :
    s'.entryOf? registry record = s.entryOf? registry record := by
  rw [entryOf?_eq, entryOf?_eq, keyOf_eq, keyOf_eq, hk]
  exact congrArg _ (funext fun key => by rw [find?_eq, find?_eq, hl])

/-- A record with a key exists. -/
theorem lt_size_of_keyOf {s : Store} {record : RecordId} {key : Key}
    (h : s.keyOf record = some key) : record < s.records.size := by
  unfold keyOf at h
  obtain ⟨r, hr, -⟩ := Option.bind_eq_some_iff.mp h
  exact (Array.getElem?_eq_some_iff.mp hr).1

-- ====================================================== growth

/-- Labels and keys stay and may be followed by new ones. -/
structure Extends (s s' : Store) : Prop where
  labels : s.labels <+: s'.labels
  keys : s.keys <+: s'.keys

/-- Nothing needs to be added. -/
theorem Extends.refl (s : Store) : s.Extends s := ⟨List.prefix_rfl, List.prefix_rfl⟩

/-- What is added in two turns is added. -/
theorem Extends.trans {s s' s'' : Store} (h : s.Extends s') (h' : s'.Extends s'') :
    s.Extends s'' :=
  ⟨h.labels.trans h'.labels, h.keys.trans h'.keys⟩

/-- What has been found is found again: new labels come after the old ones. -/
theorem Extends.find? {s s' : Store} (h : s.Extends s') {registry : RegistryId} {key : Key}
    {i : EntryId} (hf : s.find? registry key = some i) : s'.find? registry key = some i := by
  rw [find?_eq] at hf ⊢
  obtain ⟨more, hm⟩ := h.labels
  rw [← hm, List.findIdx?_append, hf]
  rfl

/-- No record goes away. -/
theorem Extends.size_le {s s' : Store} (h : s.Extends s') :
    s.records.size ≤ s'.records.size := by
  have hlength := h.keys.length_le
  unfold Store.keys at hlength
  simp only [List.length_map, Array.length_toList] at hlength
  exact hlength

/-- Nothing becomes of the key of a record that is there. -/
theorem Extends.keyOf_of_lt {s s' : Store} (h : s.Extends s') {record : RecordId}
    (hr : record < s.records.size) : s'.keyOf record = s.keyOf record := by
  have hlt : record < s.keys.length := by
    unfold Store.keys
    rw [List.length_map, Array.length_toList]
    exact hr
  obtain ⟨more, hm⟩ := h.keys
  rw [keyOf_eq, keyOf_eq, ← hm, List.getElem?_append_left hlt]

/-- A record keeps the key it has. -/
theorem Extends.keyOf {s s' : Store} (h : s.Extends s') {record : RecordId} {key : Key}
    (hk : s.keyOf record = some key) : s'.keyOf record = some key := by
  rw [h.keyOf_of_lt (lt_size_of_keyOf hk), hk]

/-- What has been found stays found. -/
theorem Extends.entryOf? {s s' : Store} (h : s.Extends s') {registry : RegistryId}
    {record : RecordId} {i : EntryId} (he : s.entryOf? registry record = some i) :
    s'.entryOf? registry record = some i := by
  rw [entryOf?_eq] at he ⊢
  obtain ⟨key, hk, hf⟩ := Option.bind_eq_some_iff.mp he
  rw [h.keyOf hk]
  exact h.find? hf

/-- Changing an entry without its label changes no labels. -/
theorem labels_changeEntry {s : Store} (i : EntryId) {f : Entry → Entry}
    (hf : ∀ e, s.entries[i]? = some e → (f e).registry = e.registry ∧ (f e).key = e.key) :
    (s.changeEntry i f).labels = s.labels := by
  refine List.ext_getElem? fun j => ?_
  rw [labels_getElem?, labels_getElem?]
  unfold changeEntry
  simp only [Array.getElem?_modify]
  by_cases hij : i = j
  · subst hij
    cases he : s.entries[i]? with
    | none => simp
    | some e => simp [hf e he]
  · simp [hij]

/-- An entry that is changed within its label keeps all labels. -/
theorem labels_of_modify {s s' : Store} {i : EntryId} {f : Entry → Entry}
    (hs : s'.entries = s.entries.modify i f)
    (hf : ∀ e, s.entries[i]? = some e → (f e).registry = e.registry ∧ (f e).key = e.key) :
    s'.labels = s.labels := by
  have h := labels_changeEntry i hf
  unfold labels at h ⊢
  rw [hs]
  exact h

-- ====================================================== alike

/-- The same entries, and the same keys. -/
structure Alike (s s' : Store) : Prop where
  entries : s'.entries = s.entries
  keys : s'.keys = s.keys

namespace Alike

/-- A store is like itself. -/
theorem refl (s : Store) : s.Alike s := ⟨rfl, rfl⟩

/-- Likeness passes on from store to store. -/
theorem trans {s s' s'' : Store} (h : s.Alike s') (h' : s'.Alike s'') : s.Alike s'' :=
  ⟨h'.entries.trans h.entries, h'.keys.trans h.keys⟩

/-- The labels are those of the entries. -/
theorem labels {s s' : Store} (h : s.Alike s') : s'.labels = s.labels := by
  unfold Store.labels
  rw [h.entries]

/-- A store that is alike has grown by nothing. -/
theorem grows {s s' : Store} (h : s.Alike s') : s.Extends s' :=
  ⟨h.labels ▸ List.prefix_rfl, h.keys ▸ List.prefix_rfl⟩

/-- Records have the same keys. -/
theorem keyOf {s s' : Store} (h : s.Alike s') (record : RecordId) :
    s'.keyOf record = s.keyOf record := by
  rw [keyOf_eq, keyOf_eq, h.keys]

/-- Keys lead to the same entries. -/
theorem find? {s s' : Store} (h : s.Alike s') (registry : RegistryId) (key : Key) :
    s'.find? registry key = s.find? registry key := by
  rw [find?_eq, find?_eq, h.labels]

/-- Records lead to the same entries. -/
theorem entryOf? {s s' : Store} (h : s.Alike s') (registry : RegistryId) (record : RecordId) :
    s'.entryOf? registry record = s.entryOf? registry record :=
  entryOf?_congr h.labels h.keys registry record

/-- There are as many records. -/
theorem records_size {s s' : Store} (h : s.Alike s') : s'.records.size = s.records.size := by
  have hk := congrArg List.length h.keys
  simpa [Store.keys] using hk

end Alike

/-- Changing a record without its key. -/
theorem alike_changeRecord (s : Store) (id : RecordId) {f : Record → Record}
    (hf : ∀ r, (f r).key? = r.key?) : s.Alike (s.changeRecord id f) := by
  refine ⟨rfl, List.ext_getElem? fun j => ?_⟩
  unfold keys changeRecord
  simp only [List.getElem?_map, Array.getElem?_toList, Array.getElem?_modify]
  by_cases hij : id = j
  · subst hij
    cases s.records[id]? with
    | none => simp
    | some r => simp [hf r]
  · simp [hij]

/-- Counting changes a ledger only. -/
theorem alike_note (s : Store) (id : RegistryId) (f : Ledger → Ledger) : s.Alike (s.note id f) :=
  ⟨rfl, rfl⟩

/-- Taking a block changes an arena only. -/
theorem alike_takeBlock (s : Store) (id : RegistryId) (size align : Nat) :
    s.Alike (s.takeBlock id size align).1 := by
  unfold takeBlock
  split <;> exact ⟨rfl, rfl⟩

/-- A cell that is looked for may be added, but no entry. -/
theorem alike_cellFor (s : Store) (registry : RegistryId) (conformance : ConformanceId)
    (conforming : RecordId) : s.Alike (s.cellFor registry conformance conforming).1 := by
  unfold cellFor
  split <;> exact ⟨rfl, rfl⟩

/-- Whatever a program does to the store by itself concerns no entry. -/
theorem alike_perform (s : Store) (a : Action) : s.Alike (s.perform a).1 := by
  cases a with
  | publish record layout => exact s.alike_changeRecord record fun _ => rfl
  | storeWord record index value => exact s.alike_changeRecord record fun _ => rfl
  | setSuperclass record superclass => exact s.alike_changeRecord record fun _ => rfl
  | takeBlock registry size align => exact s.alike_takeBlock registry size align
  | returnBlock registry address size =>
      show s.Alike (s.returnBlock registry address size).1
      unfold returnBlock
      split <;> exact ⟨rfl, rfl⟩
  | addHook hook => exact ⟨rfl, rfl⟩
  | clearHooks => exact ⟨rfl, rfl⟩
  | openRegistry config => exact ⟨rfl, rfl⟩
  | share config =>
      simp only [perform]
      split <;> exact ⟨rfl, rfl⟩

end TypeRecords.Store
