/-
What becomes of an entry.

`Turn.Shift` lists what a step can do. Here the list is read from the side of
one entry (`Shift.alters`): the step leaves all of it that others go by as it
is, or is one of three - it finishes the entry's allocation, publishes an
outcome, or suspends the initialization - or the entry is new.

From this it follows that nothing is taken back (`Store.Advances`): what is
found stays found, a stage only goes up, and an entry keeps its record.
-/
import TypeRecords.Proofs.Ownership.Process

namespace TypeRecords

variable {σ : Type}

-- ====================================================== one entry

/-- What a step of thread `a` makes of entry `i`, which was `e`. -/
inductive Turn.Alters (lib : Library σ) (a : Actor) (t : Turn σ) (i : EntryId) (e : Entry) :
    Entry → Prop
  /-- Its queue may change, and it may be taken up again. -/
  | kept {e' : Entry} (hr : e'.record = e.record) (hs : e'.stage = e.stage)
      (hb : e'.blockedOn = e.blockedOn) (hsaved : e'.saved.isSome → e.saved.isSome) :
      Alters lib a t i e e'
  | allocated {al : Allocation} (hc : t.control = .allocated al) (hi : al.entry = i)
      (hr : e.record = none) :
      Alters lib a t i e (e.finishAllocation a.id al.record (firstStage lib t.store al.record).2)
  | published {d : Drive} {o : StepOutcome} (hc : t.control = .publish d o) (hi : d.entry = i) :
      Alters lib a t i e (e.publish o).1
  | suspended {d : Drive} {dep : Dependency} (hc : t.control = .stopped d dep) (hi : d.entry = i)
      (hcy : t.store.cycle? d.registry d.record dep = none) :
      Alters lib a t i e (e.suspend d.scratch)

namespace Turn

variable {lib : Library σ} {a : Actor} {t t' : Turn σ} {i : EntryId} {e e' : Entry}

namespace Alters

/-- Only a publication says what an entry is blocked on. -/
theorem blockedOn_eq (h : Alters lib a t i e e')
    (hno : ∀ d o, t.control = .publish d o → d.entry ≠ i) : e'.blockedOn = e.blockedOn := by
  cases h with
  | kept hr hs hb hsaved => exact hb
  | allocated hc hi hr => rfl
  | published hc hi => exact (hno _ _ hc hi).elim
  | suspended hc hi hcy => rfl

theorem record_some (h : Alters lib a t i e e') {r : RecordId} (hr : e.record = some r) :
    e'.record = some r := by
  cases h with
  | kept hr' hs hb hsaved => rw [hr', hr]
  | allocated hc hi hr' => rw [hr'] at hr; cases hr
  | published hc hi => exact hr
  | suspended hc hi hcy => exact hr

/-- Stages only go up. -/
theorem stage_le (h : Alters lib a t i e e') (hs : e.Sound) : e.stage ≤ e'.stage := by
  cases h with
  | kept hr hs' hb hsaved =>
      rw [hs']
      exact Nat.le_refl _
  | allocated hc hi hr =>
      rw [(hs.blank hr).1]
      exact Nat.zero_le _
  | published hc hi =>
      rw [e.publish_stage]
      exact e.stage.le_later_left _
  | suspended hc hi hcy => exact Nat.le_refl _

/-- What is parked was parked before, or has just been suspended. -/
theorem parked (h : Alters lib a t i e e') (hs : e.Sound) (hsaved : e'.saved.isSome) :
    e.saved.isSome ∨ ∃ d dep, t.control = .stopped d dep ∧ d.entry = i
      ∧ t.store.cycle? d.registry d.record dep = none := by
  cases h with
  | kept hr hs' hb hkeep => exact .inl (hkeep hsaved)
  | allocated hc hi hr =>
      have hnone : e.saved = none := (hs.blank hr).2.2.1
      have hsome : e.saved.isSome := hsaved
      rw [hnone] at hsome
      cases hsome
  | published hc hi => exact .inl hsaved
  | suspended hc hi hcy => exact .inr ⟨_, _, hc, hi, hcy⟩

end Alters

/-- An entry that is there after a step was there before and has been altered
in one of these ways, or the step has made it. -/
theorem Shift.alters {others : List Hold} (h : Shift lib a t t')
    (ho : t.store.Owned (t.holds a.id ++ others)) (hi : t'.store.entries[i]? = some e') :
    (∃ e, t.store.entries[i]? = some e ∧ Alters lib a t i e e')
      ∨ ∃ registry q c k set key, t.control = .run (.request registry q c k) set
        ∧ i = t.store.entries.size ∧ e' = { registry, key } := by
  have hkept : ∀ {x : Entry}, t.store.entries[i]? = some x → x.record = e'.record →
      x.stage = e'.stage → x.blockedOn = e'.blockedOn → (e'.saved.isSome → x.saved.isSome) →
      ∃ e, t.store.entries[i]? = some e ∧ Alters lib a t i e e' := fun hx hr hs hb hsaved =>
    ⟨_, hx, .kept hr.symm hs.symm hb.symm hsaved⟩
  have hsame : t.store.Alike t'.store → ∃ e, t.store.entries[i]? = some e
      ∧ Alters lib a t i e e' := fun ha => hkept (ha.entries ▸ hi) rfl rfl rfl id
  -- one entry is modified, and it is this one or it is not
  have hmodify : ∀ {j : EntryId} {x x' : Entry} {f : Entry → Entry},
      t.store.entries[j]? = some x → f x = x' → t'.store.entries = t.store.entries.modify j f →
      Alters lib a t j x x' → ∃ e, t.store.entries[i]? = some e ∧ Alters lib a t i e e' := by
    intro j x x' f hx hf he halters
    rw [he, Store.getElem?_modify_entry hx hf] at hi
    split at hi
    · rename_i heq
      obtain rfl := Option.some.inj hi
      exact ⟨x, heq ▸ hx, heq ▸ halters⟩
    · exact hkept hi rfl rfl rfl id
  cases h with
  | quiet ha hh => exact .inl (hsame ha)
  | lose hd ha hh => exact .inl (hsame ha)
  | proceed hp ha hh hh' => exact .inl (hsame ha)
  | forget hc hn ha hh => exact .inl (hsame ha)
  | finish hc hs ha hh => exact .inl (hsame ha)
  | strand hc hown hs ha hh => exact .inl (hsame ha)
  | create hc hf he hk hh =>
      rw [he, Array.getElem?_push] at hi
      split at hi
      · rename_i heq
        obtain rfl := Option.some.inj hi
        exact .inr ⟨_, _, _, _, _, _, hc, heq, rfl⟩
      · exact .inl (hkept hi rfl rfl rfl id)
  | @allocate al stage rest hc hs he hk hh hh' =>
      rw [hh] at ho
      obtain ⟨x, hx, -, hr, -⟩ := ho.fits List.mem_cons_self
      subst hs
      exact .inl (hmodify (j := al.entry) hx rfl he (.allocated hc rfl hr))
  | publish hc hx he hk hh hh' => exact .inl (hmodify hx rfl he (.published hc rfl))
  | @resume d dep w ready x taken record scratch rest hc hx hr ht he hk hh hh' =>
      obtain ⟨-, rfl⟩ := Entry.reclaim?_some ht
      exact .inl (hmodify hx rfl he (.kept rfl rfl rfl nofun))
  | @suspend d dep rest hc hcy hw he hk hc' hh hh' =>
      rw [hh] at ho
      obtain ⟨x, hx, -⟩ := ho.fits List.mem_cons_self
      exact .inl (hmodify (j := d.entry) hx rfl he (.suspended hc rfl hcy))
  | park hc hq hx hu he hk hh => exact .inl (hmodify hx rfl he (.kept rfl rfl rfl id))
  | @reclaim d dep own taken scratch rest hc hx ht he hk hh hh' =>
      obtain ⟨-, rfl⟩ := Entry.reclaim?_some ht
      exact .inl (hmodify hx rfl he (.kept rfl rfl rfl nofun))

/-- Scratch words that are saved after a step were saved before, or the step
has suspended the initialization they belong to. -/
theorem Shift.saved {others : List Hold} {words : Scratch} (h : Shift lib a t t')
    (ho : t.store.Owned (t.holds a.id ++ others)) (hi : t'.store.entries[i]? = some e')
    (hw : e'.saved = some words) :
    (∃ e, t.store.entries[i]? = some e ∧ e.saved = some words ∧ e.record = e'.record)
      ∨ ∃ d dep, t.control = .stopped d dep ∧ e'.record = some d.record ∧ words = d.scratch := by
  have hsame : t.store.Alike t'.store →
      ∃ e, t.store.entries[i]? = some e ∧ e.saved = some words ∧ e.record = e'.record :=
    fun ha => ⟨e', ha.entries ▸ hi, hw, rfl⟩
  -- one entry is modified, and it is this one or it is not
  have hmodify : ∀ {j : EntryId} {x x' : Entry} {f : Entry → Entry} {C : Prop},
      t.store.entries[j]? = some x → f x = x' → t'.store.entries = t.store.entries.modify j f →
      (x' = e' → (x.saved = some words ∧ x.record = e'.record) ∨ C) →
      (∃ e, t.store.entries[i]? = some e ∧ e.saved = some words ∧ e.record = e'.record) ∨ C := by
    intro j x x' f C hx hf he hkept
    rw [he, Store.getElem?_modify_entry hx hf] at hi
    split at hi
    · rename_i heq
      subst heq
      exact (hkept (Option.some.inj hi)).imp_left fun hkept => ⟨x, hx, hkept⟩
    · exact .inl ⟨e', hi, hw, rfl⟩
  cases h with
  | quiet ha hh => exact .inl (hsame ha)
  | lose hd ha hh => exact .inl (hsame ha)
  | proceed hp ha hh hh' => exact .inl (hsame ha)
  | forget hc hn ha hh => exact .inl (hsame ha)
  | finish hc hs ha hh => exact .inl (hsame ha)
  | strand hc hown hs ha hh => exact .inl (hsame ha)
  | create hc hf he hk hh =>
      rw [he, Array.getElem?_push] at hi
      split at hi
      · obtain rfl := Option.some.inj hi
        cases hw
      · exact .inl ⟨e', hi, hw, rfl⟩
  | @allocate al stage rest hc hs he hk hh hh' =>
      rw [hh] at ho
      obtain ⟨x, hx, -, hr, -⟩ := ho.fits List.mem_cons_self
      refine hmodify (j := al.entry) hx rfl he ?_
      rintro rfl
      have hsaved : x.saved = some words := hw
      rw [((ho.sound hx).blank hr).2.2.1] at hsaved
      cases hsaved
  | publish hc hx he hk hh hh' =>
      refine hmodify hx rfl he ?_
      rintro rfl
      exact .inl ⟨hw, rfl⟩
  | resume hc hx hr ht he hk hh hh' =>
      obtain ⟨-, rfl⟩ := Entry.reclaim?_some ht
      refine hmodify hx rfl he ?_
      rintro rfl
      cases hw
  | @suspend d dep rest hc hcy hwait he hk hc' hh hh' =>
      rw [hh] at ho
      obtain ⟨x, hx, hdriven, -⟩ := ho.fits List.mem_cons_self
      refine hmodify (j := d.entry) hx rfl he ?_
      rintro rfl
      exact .inr ⟨d, dep, hc, hdriven.record, (Option.some.inj hw).symm⟩
  | park hc hq hx hu he hk hh =>
      refine hmodify hx rfl he ?_
      rintro rfl
      exact .inl ⟨hw, rfl⟩
  | reclaim hc hx ht he hk hh hh' =>
      obtain ⟨-, rfl⟩ := Entry.reclaim?_some ht
      refine hmodify hx rfl he ?_
      rintro rfl
      cases hw

end Turn

-- ====================================================== the whole store

namespace Store

/-- Nothing has been taken back: what was found is found, stages have only
gone up, and entries have kept their records. -/
structure Advances (s s' : Store) : Prop where
  grows : s.Extends s'
  entries : ∀ {i : EntryId} {e : Entry}, s.entries[i]? = some e → ∃ e', s'.entries[i]? = some e'
    ∧ e'.registry = e.registry ∧ e.stage ≤ e'.stage
    ∧ ∀ r, e.record = some r → e'.record = some r

theorem Advances.refl (s : Store) : s.Advances s :=
  ⟨.refl s, fun he => ⟨_, he, rfl, Nat.le_refl _, fun _ h => h⟩⟩

theorem Extends.labels_getElem? {s s' : Store} (h : s.Extends s') {i : EntryId} {e : Entry}
    (he : s.entries[i]? = some e) :
    ∃ e', s'.entries[i]? = some e' ∧ e'.registry = e.registry ∧ e'.key = e.key := by
  have hl : s.labels[i]? = some (e.registry, e.key) := by
    rw [Store.labels_getElem?, he]
    rfl
  obtain ⟨more, hm⟩ := h.labels
  have hl' : s'.labels[i]? = some (e.registry, e.key) := by
    rw [← hm, List.getElem?_append_left (List.getElem?_eq_some_iff.mp hl).1]
    exact hl
  rw [Store.labels_getElem?] at hl'
  obtain ⟨e', he', heq⟩ := Option.map_eq_some_iff.mp hl'
  exact ⟨e', he', (Prod.mk.inj heq).1, (Prod.mk.inj heq).2⟩

/-- An entry that is found afterwards, for a record that was there before,
was found before if it was there. -/
theorem Extends.entryOf?_back {s s' : Store} (h : s.Extends s') {registry : RegistryId}
    {record : RecordId} {i : EntryId} (hf : s'.entryOf? registry record = some i)
    (hr : record < s.records.size) (hi : i < s.entries.size) :
    s.entryOf? registry record = some i := by
  rw [entryOf?_eq, h.keyOf_of_lt hr] at hf
  rw [entryOf?_eq]
  obtain ⟨key, hk, hf⟩ := Option.bind_eq_some_iff.mp hf
  rw [hk, Option.bind_some]
  obtain ⟨more, hm⟩ := h.labels
  rw [find?_eq, ← hm, List.findIdx?_append] at hf
  rw [find?_eq]
  cases hold : s.labels.findIdx? fun l => l.1 == registry && l.2 == key with
  | some j =>
      rw [hold] at hf
      exact hf
  | none =>
      -- then it would be one of those that were added
      rw [hold, Option.none_or, Option.map_eq_some_iff] at hf
      obtain ⟨j, -, hj⟩ := hf
      have hlength : s.labels.length = s.entries.size := by
        unfold Store.labels
        rw [List.length_map, Array.length_toList]
      have hge : s.entries.size ≤ i := by
        rw [← hj, hlength]
        exact Nat.le_add_left ..
      exact (Nat.not_lt.mpr hge hi).elim

end Store

namespace Turn

variable {lib : Library σ} {a : Actor} {t t' : Turn σ} {others : List Hold}

/-- A step leaves labels and keys as they are, or adds one of each for a
request. -/
theorem Shift.labels (h : Shift lib a t t') :
    (t'.store.labels = t.store.labels ∧ t'.store.keys = t.store.keys)
      ∨ ∃ registry q c k set key, t.control = .run (.request registry q c k) set
        ∧ t.store.find? registry key = none
        ∧ t'.store.labels = t.store.labels ++ [(registry, key)]
        ∧ t'.store.keys = t.store.keys ++ [some key] := by
  cases h with
  | quiet ha hh => exact .inl ⟨ha.labels, ha.keys⟩
  | lose hd ha hh => exact .inl ⟨ha.labels, ha.keys⟩
  | proceed hp ha hh hh' => exact .inl ⟨ha.labels, ha.keys⟩
  | forget hc hn ha hh => exact .inl ⟨ha.labels, ha.keys⟩
  | finish hc hs ha hh => exact .inl ⟨ha.labels, ha.keys⟩
  | strand hc hi hs ha hh => exact .inl ⟨ha.labels, ha.keys⟩
  | create hc hf he hk hh =>
      refine .inr ⟨_, _, _, _, _, _, hc, hf, ?_, hk⟩
      unfold Store.labels
      rw [he, Array.toList_push, List.map_append]
      rfl
  | allocate hc hs he hk hh hh' =>
      exact .inl ⟨Store.labels_of_modify he fun x _ => ⟨rfl, rfl⟩, hk⟩
  | publish hc hi he hk hh hh' =>
      refine .inl ⟨Store.labels_of_modify he fun x hx => ?_, hk⟩
      obtain rfl := Option.some.inj (hi.symm.trans hx)
      exact ⟨rfl, rfl⟩
  | resume hc hi hr ht he hk hh hh' =>
      refine .inl ⟨Store.labels_of_modify he fun x hx => ?_, hk⟩
      obtain rfl := Option.some.inj (hi.symm.trans hx)
      obtain ⟨-, rfl⟩ := Entry.reclaim?_some ht
      exact ⟨rfl, rfl⟩
  | suspend hc hcy hw he hk hc' hh hh' =>
      exact .inl ⟨Store.labels_of_modify he fun x _ => ⟨rfl, rfl⟩, hk⟩
  | park hc hq hi hu he hk hh =>
      refine .inl ⟨Store.labels_of_modify he fun x hx => ?_, hk⟩
      obtain rfl := Option.some.inj (hi.symm.trans hx)
      exact ⟨rfl, rfl⟩
  | reclaim hc hi ht he hk hh hh' =>
      refine .inl ⟨Store.labels_of_modify he fun x hx => ?_, hk⟩
      obtain rfl := Option.some.inj (hi.symm.trans hx)
      obtain ⟨-, rfl⟩ := Entry.reclaim?_some ht
      exact ⟨rfl, rfl⟩

/-- Labels and keys are only added. -/
theorem Shift.grows (h : Shift lib a t t') : t.store.Extends t'.store := by
  rcases h.labels with ⟨hl, hk⟩ | ⟨registry, q, c, k, set, key, -, -, hl, hk⟩
  · exact ⟨hl ▸ List.prefix_rfl, hk ▸ List.prefix_rfl⟩
  · exact ⟨⟨_, hl.symm⟩, ⟨_, hk.symm⟩⟩

theorem Shift.advances (h : Shift lib a t t') (ho : t.store.Owned (t.holds a.id ++ others)) :
    t.store.Advances t'.store := by
  refine ⟨h.grows, fun {i e} he => ?_⟩
  obtain ⟨e', he', hreg, -⟩ := h.grows.labels_getElem? he
  rcases h.alters ho he' with ⟨x, hx, halters⟩ | ⟨-, -, -, -, -, -, -, hnew, -⟩
  · obtain rfl := Option.some.inj (he.symm.trans hx)
    exact ⟨e', he', hreg, halters.stage_le (ho.sound he), fun r hr => halters.record_some hr⟩
  · have hlt := (Array.getElem?_eq_some_iff.mp he).1
    rw [hnew] at hlt
    exact (Nat.lt_irrefl _ hlt).elim

end Turn

namespace Machine

variable {lib : Library σ} {start m m' : Machine σ} {t : ThreadId}

/-- No step of a process takes anything back, whatever else it does. -/
theorem step_advances (h : m.step lib t = some m') (ho : m.store.Owned m.holds) :
    m.store.Advances m'.store := by
  rcases step_shift h with hs | ⟨thread, turn, hthread, rfl, hshift⟩
  · rw [hs]
    exact .refl _
  · exact hshift.advances (ho.perm (holds_split hthread).symm)

end Machine

end TypeRecords
