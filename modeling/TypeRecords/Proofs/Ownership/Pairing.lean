/-
Which record an entry was made with.

A registry finds an entry by its key, and two registries may keep records of
the same key. But entries and records with keys come into being together, one
of each by the same step, and never by themselves. So the records that have
keys, in the order of their numbers, are the records of the entries in the
order of theirs: the entry of a record is found at its `Store.place`, whatever
the registry, and it is known from the moment the record is there.

This is what `Reachable.paired` says of all runs. It gives each record one entry
(`Paired.place_injective`), and it says of a record that is there already that
a registry which has not made it never will (`Extends.madeBy_iff`).
-/
import TypeRecords.Proofs.Ownership.Advance

namespace TypeRecords

variable {σ : Type}

namespace Store

/-- How many records with keys come before a record; the number of its entry. -/
def place (s : Store) (x : RecordId) : EntryId := (s.keys.take x).countP Option.isSome

/-- The registry has made the record, or is making it. -/
def MadeBy (s : Store) (registry : RegistryId) (x : RecordId) : Prop :=
  (s.keyOf x).isSome ∧ ∃ e, s.entries[s.place x]? = some e ∧ e.registry = registry

/-- Entries and records with keys go together. -/
structure Paired (s : Store) (H : List Hold) : Prop where
  size : s.keys.countP Option.isSome = s.entries.size
  key : ∀ {x : RecordId} {key : Key}, s.keyOf x = some key →
    ∃ e, s.entries[s.place x]? = some e ∧ e.key = key
  record : ∀ {i : EntryId} {e : Entry} {x : RecordId}, s.entries[i]? = some e →
    e.record = some x → s.place x = i
  fresh : ∀ {al : Allocation}, .fresh al ∈ H → s.place al.record = al.entry

variable {s s' : Store} {H : List Hold} {registry : RegistryId} {x y : RecordId}

theorem length_keys (s : Store) : s.keys.length = s.records.size := by
  unfold keys
  rw [List.length_map, Array.length_toList]

/-- The place of a record that is there stays the same. -/
theorem Extends.place (h : s.Extends s') (hx : x ≤ s.records.size) : s'.place x = s.place x := by
  obtain ⟨more, hm⟩ := h.keys
  unfold Store.place
  rw [← hm, List.take_append_of_le_length (by rw [length_keys]; exact hx)]

/-- Of two records with keys the later one has the later place. -/
theorem place_lt (hx : (s.keyOf x).isSome) (hlt : x < y) : s.place x < s.place y := by
  obtain ⟨key, hkey⟩ := Option.isSome_iff_exists.mp hx
  have hsize : x < s.keys.length := by
    rw [length_keys]
    exact lt_size_of_keyOf hkey
  have hsome : (s.keys[x]).isSome = true := by
    rw [keyOf_eq, List.getElem?_eq_getElem hsize] at hkey
    cases hk : s.keys[x] with
    | none => rw [hk] at hkey; cases hkey
    | some k => rfl
  have hsub : (s.keys.take (x + 1)).Sublist (s.keys.take y) :=
    (List.take_prefix_take_left hlt).sublist
  have hcount := hsub.countP_le (p := Option.isSome)
  rw [List.take_add_one, List.getElem?_eq_getElem hsize, List.countP_append] at hcount
  simp only [Option.toList_some, List.countP_cons, List.countP_nil, hsome, ↓reduceIte] at hcount
  exact hcount

namespace Paired

/-- Each record has an entry of its own. -/
theorem place_injective (hx : (s.keyOf x).isSome) (hy : (s.keyOf y).isSome)
    (h : s.place x = s.place y) : x = y := by
  rcases Nat.lt_trichotomy x y with hlt | heq | hlt
  · exact (Nat.ne_of_lt (place_lt hx hlt) h).elim
  · exact heq
  · exact (Nat.ne_of_lt (place_lt hy hlt) h.symm).elim

theorem perm {H' : List Hold} (hp : s.Paired H) (h : H'.Perm H) : s.Paired H' :=
  { hp with fresh := fun hm => hp.fresh (h.mem_iff.mp hm) }

end Paired

theorem length_labels (s : Store) : s.labels.length = s.entries.size := by
  unfold labels
  rw [List.length_map, Array.length_toList]

/-- A record that is added comes after all others. -/
theorem place_size (s : Store) : s.place s.records.size = s.keys.countP Option.isSome := by
  unfold place
  rw [← length_keys, List.take_length]

/-- Who makes a record is known once it is there. -/
theorem Extends.madeBy_iff (h : s.Extends s') (hp : s.Paired H) (hx : x < s.records.size) :
    s'.MadeBy registry x ↔ s.MadeBy registry x := by
  have hplace := h.place (Nat.le_of_lt hx)
  unfold MadeBy
  rw [h.keyOf_of_lt hx, hplace]
  refine and_congr_right fun hkey => ?_
  obtain ⟨key, hkey⟩ := Option.isSome_iff_exists.mp hkey
  obtain ⟨e, he, -⟩ := hp.key hkey
  obtain ⟨e', he', hreg, -⟩ := h.labels_getElem? he
  constructor
  · rintro ⟨y, hy, rfl⟩
    obtain rfl := Option.some.inj (he'.symm.trans hy)
    exact ⟨e, he, hreg.symm⟩
  · rintro ⟨y, hy, rfl⟩
    obtain rfl := Option.some.inj (he.symm.trans hy)
    exact ⟨e', he', hreg⟩

end Store

namespace Turn

variable {lib : Library σ} {a : Actor} {t t' : Turn σ} {others : List Hold}

/-- An allocation in progress was so before, or the step has made its entry and
its record. -/
theorem Shift.fresh (h : Shift lib a t t') {al : Allocation} (hm : .fresh al ∈ t'.holds a.id) :
    .fresh al ∈ t.holds a.id
      ∨ al.entry = t.store.entries.size ∧ al.record = t.store.records.size := by
  cases h with
  | quiet ha hh => exact .inl (hh.mem_iff.mp hm)
  | lose hd ha hh => exact .inl (hh.mem_iff.mpr (List.mem_append_right _ hm))
  | proceed hp ha hh hh' =>
      rcases List.mem_cons.mp (hh'.mem_iff.mp hm) with heq | hrest
      · subst heq
        cases hp
      · exact .inl (hh.mem_iff.mpr (List.mem_cons_of_mem _ hrest))
  | create hc hf he hk hh =>
      rcases List.mem_cons.mp (hh.mem_iff.mp hm) with heq | hrest
      · cases heq
        exact .inr ⟨rfl, rfl⟩
      · exact .inl hrest
  | allocate hc hs he hk hh hh' =>
      rw [hh'] at hm
      rcases List.mem_append.mp hm with hnew | hrest
      · split at hnew
        · cases hnew
        · cases List.mem_singleton.mp hnew
      · exact .inl (hh ▸ List.mem_cons_of_mem _ hrest)
  | publish hc hi he hk hh hh' =>
      rw [hh'] at hm
      rcases List.mem_append.mp hm with hnew | hrest
      · rcases List.mem_cons.mp hnew with heq | hready
        · cases heq
        · obtain ⟨w, -, heq⟩ := List.mem_map.mp hready
          cases heq
      · exact .inl (hh ▸ List.mem_cons_of_mem _ hrest)
  | resume hc hi hr ht he hk hh hh' =>
      rw [hh'] at hm
      rcases List.mem_cons.mp hm with heq | hrest
      · cases heq
      · exact .inl (hh.mem_iff.mpr (List.mem_cons_of_mem _ hrest))
  | forget hc hn ha hh => exact .inl (hh.mem_iff.mpr (List.mem_cons_of_mem _ hm))
  | finish hc hs ha hh => exact .inl (hh ▸ List.mem_cons_of_mem _ hm)
  | suspend hc hcy hw he hk hc' hh hh' =>
      rw [hh'] at hm
      rcases List.mem_cons.mp hm with heq | hrest
      · cases heq
      · exact .inl (hh ▸ List.mem_cons_of_mem _ hrest)
  | park hc hq hi hu he hk hh => exact .inl (hh ▸ List.mem_cons_of_mem _ hm)
  | reclaim hc hi ht he hk hh hh' =>
      rw [hh'] at hm
      rcases List.mem_cons.mp hm with heq | hrest
      · cases heq
      · exact .inl (hh ▸ List.mem_cons_of_mem _ hrest)
  | strand hc hi hs ha hh => exact .inl (hh ▸ List.mem_cons_of_mem _ hm)

/-- An entry that has a record after a step had it before, or the step has
finished its allocation. -/
theorem Shift.recorded (h : Shift lib a t t') (ho : t.store.Owned (t.holds a.id ++ others))
    {i : EntryId} {e' : Entry} {x : RecordId} (he' : t'.store.entries[i]? = some e')
    (hr : e'.record = some x) :
    (∃ e, t.store.entries[i]? = some e ∧ e.record = some x)
      ∨ ∃ al, .fresh al ∈ t.holds a.id ∧ al.entry = i ∧ al.record = x := by
  rcases h.alters ho he' with ⟨e, he, halters⟩ | ⟨_, _, _, _, _, _, -, -, rfl⟩
  · cases halters with
    | kept hr' hs hb hsaved => exact .inl ⟨e, he, hr'.symm.trans hr⟩
    | published hc hi => exact .inl ⟨e, he, hr⟩
    | suspended hc hi hcy => exact .inl ⟨e, he, hr⟩
    | allocated hc hi hr' =>
        exact .inr ⟨_, mem_holds_of_control hc List.mem_cons_self, hi, Option.some.inj hr⟩
  · cases hr

/-- What one step makes, it makes in pairs. -/
theorem Shift.paired (h : Shift lib a t t') (ho : t.store.Owned (t.holds a.id ++ others))
    (hp : t.store.Paired (t.holds a.id ++ others)) :
    t'.store.Paired (t'.holds a.id ++ others) := by
  have hx := h.grows
  have hplaced : ∀ {al : Allocation}, .fresh al ∈ t.holds a.id ++ others →
      t'.store.place al.record = al.entry := fun hm => by
    obtain ⟨_, -, -, -, hkey⟩ := ho.fits hm
    rw [hx.place (Nat.le_of_lt (Store.lt_size_of_keyOf hkey))]
    exact hp.fresh hm
  have hold : ∀ {x : RecordId} {key : Key}, x < t.store.records.size →
      t'.store.keyOf x = some key →
      ∃ e, t'.store.entries[t'.store.place x]? = some e ∧ e.key = key := by
    intro x key hlt hkey
    rw [hx.keyOf_of_lt hlt] at hkey
    obtain ⟨e, he, hek⟩ := hp.key hkey
    obtain ⟨e', he', -, hek'⟩ := hx.labels_getElem? he
    rw [hx.place (Nat.le_of_lt hlt)]
    exact ⟨e', he', hek'.trans hek⟩
  constructor
  case size =>
    rw [← Store.length_labels]
    rcases h.labels with ⟨hl, hk⟩ | ⟨_, _, _, _, _, _, -, -, hl, hk⟩
    · rw [hl, hk, Store.length_labels]
      exact hp.size
    · rw [hl, hk, List.countP_append, List.length_append, Store.length_labels, hp.size]
      rfl
  case key =>
    intro x key hkey
    by_cases hlt : x < t.store.records.size
    · exact hold hlt hkey
    · rcases h.labels with ⟨hl, hk⟩ | ⟨registry, _, _, _, _, key', -, -, hl, hk⟩
      · rw [Store.keyOf_eq, hk, ← Store.keyOf_eq] at hkey
        exact (hlt (Store.lt_size_of_keyOf hkey)).elim
      · -- it is the record that the step has made
        have hlast : x = t.store.records.size := by
          have hsize := Store.lt_size_of_keyOf hkey
          rw [← Store.length_keys, hk, List.length_append, Store.length_keys,
            List.length_singleton] at hsize
          exact Nat.le_antisymm (Nat.le_of_lt_succ hsize) (Nat.not_lt.mp hlt)
        subst hlast
        rw [Store.keyOf_eq, hk, ← Store.length_keys, List.getElem?_concat_length] at hkey
        rw [hx.place (Nat.le_refl _), Store.place_size, hp.size]
        have hlabel : t'.store.labels[t.store.entries.size]? = some (registry, key') := by
          rw [hl, ← Store.length_labels, List.getElem?_concat_length]
        rw [Store.labels_getElem?] at hlabel
        obtain ⟨e, he, hel⟩ := Option.map_eq_some_iff.mp hlabel
        exact ⟨e, he, (Prod.mk.inj hel).2.trans (Option.some.inj hkey)⟩
  case record =>
    intro i e' x he' hr
    rcases h.recorded ho he' hr with ⟨e, he, hr⟩ | ⟨al, hm, rfl, rfl⟩
    · rw [hx.place (Nat.le_of_lt (Store.lt_size_of_keyOf (ho.keyed he hr)))]
      exact hp.record he hr
    · exact hplaced (List.mem_append_left _ hm)
  case fresh =>
    intro al hm
    rcases List.mem_append.mp hm with hown | hother
    · rcases h.fresh hown with hbefore | ⟨hentry, hrecord⟩
      · exact hplaced (List.mem_append_left _ hbefore)
      · rw [hrecord, hx.place (Nat.le_refl _), Store.place_size, hp.size, hentry]
    · exact hplaced (List.mem_append_right _ hother)

end Turn

namespace Machine

variable {lib : Library σ} {start m m' : Machine σ} {t : ThreadId}

theorem Fresh.paired (hf : start.Fresh) : start.store.Paired start.holds where
  size := by
    rw [hf.entries]
    refine List.countP_eq_zero.mpr fun key hkey => ?_
    obtain ⟨x, hx⟩ := List.mem_iff_getElem?.mp hkey
    have hnone := hf.keyOf_none x
    rw [Store.keyOf_eq, hx] at hnone
    rw [show key = none from hnone]
    exact Bool.false_ne_true
  key hkey := by
    rw [hf.keyOf_none] at hkey
    cases hkey
  record he := by
    rw [hf.entries] at he
    simp at he
  fresh hm := by
    obtain ⟨e, he, -⟩ := hf.owned.fits hm
    rw [hf.entries] at he
    simp at he

theorem step_paired (h : m.step lib t = some m') (ho : m.store.Owned m.holds)
    (hp : m.store.Paired m.holds) : m'.store.Paired m'.holds := by
  obtain ⟨-, thread, hthread, hs⟩ := step_cases h
  cases hs with
  | @alone turn hturn =>
      have hperm := (holds_split hthread).symm
      exact ((Turn.step_shift hturn).paired (ho.perm hperm) (hp.perm hperm)).perm
        (holds_after hthread turn)
  | program p' started hc hres hs hm hnew =>
      rw [hs]
      exact hp.perm (holds_program hthread hc hm hnew)

/-- Wherever a process gets to, entries and records with keys go together. -/
theorem Reachable.paired (hf : start.Fresh) (h : Reachable lib start m) :
    m.store.Paired m.holds := by
  induction h with
  | refl => exact hf.paired
  | step t h hs ih => exact step_paired hs (h.owned hf) ih

end Machine

end TypeRecords
