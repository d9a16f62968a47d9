/-
Fields whose layout may be taken as it is.

A walk over fields takes the layout of each field's record, and the empty
layout if there is none. That is right for a record that nobody completes. A
record of a field is *cleared* for a registry if no other case is left: it has
a layout, or the registry has not made it (`Store.Cleared`). Whether a registry
has made a record is settled once the record is there, so what is cleared stays
so, and whoever has cleared a field once need not look again.

This is what the scratch words of a step are about. They say how many fields
have been passed, in this step or in an earlier one, and all of these are
cleared (`Store.Clears`); from one step to the next the words are kept by the
thread that runs the initialization, or by the entry while it is parked.

# What is looked up

A walk asks for the record of its next field, and goes by the answer. If the
registry has made the record it is the one that is found, and if the answer
says that its layout is known there is one (`Store.Meets`). What is computed by
a program is not found by anyone; it takes a program that tells the truth and
says the same of a field each time (`Turn.candid`).
-/
import TypeRecords.Proofs.Fields.Known
import TypeRecords.Proofs.Ownership.Pairing

namespace TypeRecords

variable {σ : Type}

-- ====================================================== the records of fields

/-- The record of a field, by the number of the field. Which record is computed
for it is what `named` says. -/
def FieldType.record? (named : RecordId → Nat → RecordId) (owner : RecordId)
    (arguments : List RecordId) (index : Nat) : FieldType σ → Option RecordId
  | .argument i => arguments[i]?
  | .fixed record => some record
  | .computed _ => some (named owner index)

/-- The records that are fixed as types of fields have numbers below `n`. -/
def Library.Placed (lib : Library σ) (n : Nat) : Prop :=
  ∀ d ∈ lib.descriptors, ∀ field ∈ d.fields, ∀ y, field.type = .fixed y → y < n

namespace Store

/-- The record of a field of a record. -/
def typeOf? (s : Store) (lib : Library σ) (named : RecordId → Nat → RecordId) (x : RecordId)
    (index : Nat) : Option RecordId :=
  (s.records[x]?).bind fun r => (lib.descriptorOf? r).bind fun d =>
    (d.fields[index]?).bind fun field => field.type.record? named x r.arguments index

/-- The layout of the record may be taken as it is: it has one, or the registry
has not made it. -/
structure Cleared (s : Store) (registry : RegistryId) (y : RecordId) : Prop where
  there : y < s.records.size
  layout : s.MadeBy registry y → (s.records.layoutOf y).isSome

/-- The first `n` fields of the record are cleared. -/
structure Clears (s : Store) (lib : Library σ) (named : RecordId → Nat → RecordId)
    (registry : RegistryId) (x : RecordId) (n : Nat) : Prop where
  there : x < s.records.size
  fields : ∀ k < n, ∀ y, s.typeOf? lib named x k = some y → s.Cleared registry y

/-- What a registry answers to whoever looks `y` up. -/
structure Meets (s : Store) (registry : RegistryId) (y : RecordId) (r : Response) : Prop where
  there : y < s.records.size
  record : s.MadeBy registry y → r.record = y
  layout : .layoutComplete ≤ r.stage → s.Cleared registry y

/-- What becomes of a store, as far as fields are cleared. -/
structure Further (s s' : Store) : Prop where
  grows : s.Extends s'
  records : s.records.Gains s'.records
  paired : ∃ H, s.Paired H

variable {s s' : Store} {lib : Library σ} {named : RecordId → Nat → RecordId} {H : List Hold}
  {registry : RegistryId} {x y : RecordId} {n : Nat} {r : Response}

theorem Further.madeBy_iff (h : s.Further s') (hy : y < s.records.size) :
    s'.MadeBy registry y ↔ s.MadeBy registry y := by
  obtain ⟨H, hp⟩ := h.paired
  exact h.grows.madeBy_iff hp hy

/-- The fields of a record stay of the same type. -/
theorem Further.typeOf? (h : s.Further s') (hx : x < s.records.size) (k : Nat) :
    s'.typeOf? lib named x k = s.typeOf? lib named x k := by
  obtain ⟨r', hr', hgains⟩ := h.records x _ (Array.getElem?_eq_getElem hx)
  unfold Store.typeOf?
  rw [hr', Array.getElem?_eq_getElem hx, Option.bind_some, Option.bind_some,
    hgains.descriptorOf? lib, hgains.arguments]

theorem Cleared.further (hy : s.Cleared registry y) (h : s.Further s') :
    s'.Cleared registry y where
  there := Nat.lt_of_lt_of_le hy.there h.records.size_le
  layout hm := h.records.layoutOf (hy.layout ((h.madeBy_iff hy.there).mp hm))

theorem Clears.further (hx : s.Clears lib named registry x n) (h : s.Further s') :
    s'.Clears lib named registry x n where
  there := Nat.lt_of_lt_of_le hx.there h.records.size_le
  fields k hk y hy := (hx.fields k hk y ((h.typeOf? hx.there k).symm.trans hy)).further h

theorem Meets.further (hr : s.Meets registry y r) (h : s.Further s') : s'.Meets registry y r where
  there := Nat.lt_of_lt_of_le hr.there h.records.size_le
  record hm := hr.record ((h.madeBy_iff hr.there).mp hm)
  layout hstage := (hr.layout hstage).further h

theorem Clears.zero (hx : x < s.records.size) : s.Clears lib named registry x 0 :=
  ⟨hx, fun k hk => (Nat.not_lt_zero k hk).elim⟩

theorem Clears.succ (h : s.Clears lib named registry x n)
    (hn : ∀ y, s.typeOf? lib named x n = some y → s.Cleared registry y) :
    s.Clears lib named registry x (n + 1) := by
  refine ⟨h.there, fun k hk y hy => ?_⟩
  rcases Nat.lt_or_eq_of_le (Nat.le_of_lt_succ hk) with hlt | rfl
  · exact h.fields k hlt y hy
  · exact hn y hy

-- ====================================================== looking up

/-- What a registry has made is found at its place. -/
theorem MadeBy.entryOf? (h : s.MadeBy registry y) (ho : s.Owned H) (hp : s.Paired H) :
    s.entryOf? registry y = some (s.place y) := by
  obtain ⟨hkey, e, he, rfl⟩ := h
  obtain ⟨key, hkey⟩ := Option.isSome_iff_exists.mp hkey
  obtain ⟨e', he', hek⟩ := hp.key hkey
  obtain rfl := Option.some.inj (he.symm.trans he')
  rw [entryOf?_eq, hkey, Option.bind_some, ← hek]
  exact find?_of_entry ho.distinct he

/-- The record of the entry that is found for what the registry has made is
that record. -/
theorem Paired.record_eq {i : EntryId} {e : Entry} (hp : s.Paired H) (ho : s.Owned H)
    (hm : s.MadeBy registry y) (hi : s.entryOf? registry y = some i)
    (he : s.entries[i]? = some e) (hr : e.record = some x) : x = y := by
  obtain rfl := Option.some.inj (hi.symm.trans (hm.entryOf? ho hp))
  exact Paired.place_injective (Option.isSome_iff_exists.mpr ⟨_, ho.keyed he hr⟩) hm.1
    (hp.record he hr)

/-- What a registry has made has a layout where its stage says so. -/
theorem Informed.layout_of_stage (hs : s.Informed lib) (ho : s.Owned H) (hp : s.Paired H)
    (hm : s.MadeBy registry y) (hstage : .layoutComplete ≤ s.stageOf registry y) :
    (s.records.layoutOf y).isSome := by
  have hi := hm.entryOf? ho hp
  obtain ⟨e, he, -⟩ := hm.2
  rw [stageOf_entry hi he (ho.sound he)] at hstage
  cases hr : e.record with
  | none =>
      rw [((ho.sound he).blank hr).1] at hstage
      exact ((by decide : ¬ Stage.layoutComplete ≤ .abstract) hstage).elim
  | some x =>
      obtain rfl := hp.record_eq ho hm hi he hr
      exact hs.known he hr hstage

/-- What is not found has not been made. -/
theorem meets_of_unfound (ho : s.Owned H) (hp : s.Paired H) (hy : y < s.records.size)
    (hi : s.entryOf? registry y = none) : s.Meets registry y (.finished y) := by
  refine ⟨hy, fun _ => rfl, fun _ => ⟨hy, fun hm => ?_⟩⟩
  rw [hm.entryOf? ho hp] at hi
  cases hi

/-- What is found answers with its record, in its stage. -/
theorem meets_of_look {i : EntryId} {e : Entry} {thread : ThreadId} {q : Request}
    (hs : s.Informed lib) (ho : s.Owned H) (hp : s.Paired H) (hy : y < s.records.size)
    (hi : s.entryOf? registry y = some i) (he : s.entries[i]? = some e)
    (hl : e.look thread q = .answer r) : s.Meets registry y r := by
  obtain ⟨hr, hstage, -⟩ := Entry.exact_of_look (ho.sound he) hl
  have hsame : s.MadeBy registry y → r.record = y := fun hm => hp.record_eq ho hm hi he hr
  refine ⟨hy, hsame, fun hlate => ⟨hy, fun hm => ?_⟩⟩
  have hknown := hs.known he hr (hstage.symm ▸ hlate)
  rw [hsame hm] at hknown
  exact hknown

/-- The registry of an answer that is truthful about its stage. -/
theorem meets_of_truthful (hs : s.Informed lib) (ho : s.Owned H) (hp : s.Paired H)
    (hy : r.record < s.records.size) (hstage : r.stage ≤ s.stageOf registry r.record) :
    s.Meets registry r.record r :=
  ⟨hy, fun _ => rfl, fun hlate =>
    ⟨hy, fun hm => hs.layout_of_stage ho hp hm (Nat.le_trans hlate hstage)⟩⟩

end Store

-- ====================================================== walks

/-- A walk has passed the fields before the next one, and all of them are
cleared, as are those that its words speak of. -/
structure FieldWalk.Clear (w : FieldWalk σ) (lib : Library σ)
    (named : RecordId → Nat → RecordId) (s : Store) : Prop where
  todo : ∃ r d, s.records[w.record]? = some r ∧ lib.descriptorOf? r = some d
    ∧ w.todo = d.fields.drop w.index
  words : s.Clears lib named w.registry w.record (w.scratch.get 0)
  passed : s.Clears lib named w.registry w.record w.index

/-- The elements that a walk has passed are cleared. -/
def ElementWalk.Clear (w : ElementWalk) (s : Store) : Prop :=
  ∃ r past, s.records[w.drive.record]? = some r ∧ r.arguments = past ++ w.todo
    ∧ ∀ y ∈ past, s.Cleared w.drive.registry y

/-- In the topmost frame a step waits for what is looked up in a registry. -/
inductive Looks (s : Store) : List (Frame σ) → RegistryId → RecordId → Prop
  | field {w : FieldWalk σ} {d : Drive} {below : List (Frame σ)} {y : RecordId}
      (hy : w.next? s = some y) : Looks s (.laying w :: .stepping d :: below) w.registry y
  | element {w : ElementWalk} {below : List (Frame σ)} {y : RecordId} {rest : List RecordId}
      (hw : w.todo = y :: rest) : Looks s (.measuring w :: below) w.drive.registry y

section

variable {s s' : Store} {lib : Library σ} {named : RecordId → Nat → RecordId}
  {registry : RegistryId} {y : RecordId} {fs : List (Frame σ)}

namespace FieldWalk

variable {w : FieldWalk σ}

theorem Clear.there (h : w.Clear lib named s) : w.record < s.records.size := h.passed.there

theorem Clear.further (h : w.Clear lib named s) (hf : s.Further s') : w.Clear lib named s' := by
  obtain ⟨⟨r, d, hr, hd, hw⟩, hwords, hpassed⟩ := h
  obtain ⟨r', hr', hgains⟩ := hf.records _ _ hr
  exact ⟨⟨r', d, hr', (hgains.descriptorOf? lib).trans hd, hw⟩, hwords.further hf,
    hpassed.further hf⟩

/-- The next field, if there is one. -/
theorem Clear.typeOf? (h : w.Clear lib named s) : s.typeOf? lib named w.record w.index
    = w.todo.head?.bind fun field =>
      field.type.record? named w.record (s.records.argumentsOf w.record) w.index := by
  obtain ⟨r, d, hr, hd, hw⟩ := h.todo
  unfold Store.typeOf? Records.argumentsOf
  rw [hr, Option.bind_some, hd, Option.bind_some, hw, List.head?_drop]

/-- A walk that looks the next record up asks for the record of the field. -/
theorem Clear.next?_eq (h : w.Clear lib named s) (hl : w.looksUp = true) :
    w.next? s = s.typeOf? lib named w.record w.index := by
  rw [h.typeOf?]
  unfold next?
  unfold looksUp at hl
  cases hw : w.todo with
  | nil => rfl
  | cons field rest =>
      rw [hw] at hl
      rw [List.head?_cons, Option.bind_some]
      cases htype : field.type with
      | computed accessor => simp only [htype] at hl; cases hl
      | argument i | fixed record => simp only [htype, FieldType.record?]

/-- And one that has it computed gets the record that is named. -/
theorem Clear.computed (h : w.Clear lib named s) (hl : w.looksUp = false)
    (hy : s.typeOf? lib named w.record w.index = some y) : y = named w.record w.index := by
  rw [h.typeOf?] at hy
  obtain ⟨field, hfield, hy⟩ := Option.bind_eq_some_iff.mp hy
  unfold looksUp at hl
  cases hw : w.todo with
  | nil => rw [hw] at hfield; cases hfield
  | cons next rest =>
      rw [hw] at hfield hl
      cases hfield
      cases htype : field.type with
      | computed accessor =>
          rw [htype] at hy
          exact (Option.some.inj hy).symm
      | argument i | fixed record => simp only [htype] at hl; cases hl

end FieldWalk

theorem FieldWalk.looksUp_of_next? {w : FieldWalk σ} (h : w.next? s = some y) :
    w.looksUp = true := by
  unfold looksUp
  unfold next? at h
  cases hw : w.todo with
  | nil => rfl
  | cons field rest =>
      rw [hw] at h
      cases htype : field.type with
      | computed accessor => simp only [htype] at h; cases h
      | argument i | fixed record => simp only [htype]

theorem ElementWalk.Clear.further {w : ElementWalk} (h : w.Clear s) (hf : s.Further s') :
    w.Clear s' := by
  obtain ⟨r, past, hr, hpast, hall⟩ := h
  obtain ⟨r', hr', hgains⟩ := hf.records _ _ hr
  exact ⟨r', past, hr', hgains.arguments.trans hpast, fun y hy => (hall y hy).further hf⟩

/-- Nothing runs above a frame in which something is looked up. -/
theorem Looks.not_open (h : Looks s fs registry y) : ¬ Open fs := by
  intro hopen
  cases h with
  | @field w d below y hy =>
      have hclosed : w.looksUp = false := hopen
      rw [FieldWalk.looksUp_of_next? hy] at hclosed
      cases hclosed
  | element hw => cases hopen

end

end TypeRecords
