/-
Where the fields of a record are.

A record is *laid out* if its offsets and its layout are those of the
aggregate of its fields, whose records are found by the terms of its
descriptor, or are the elements of the tuple (`Store.LaidOut`). The layouts of
the fields are those they have in the same store.

# Why this stays true

A layout and the offsets that go with it are written once, in effect: the
records of the fields are the same in every later store, their layouts are
what they were, and so a second walk over the fields would write what is there
already. `Store.Lasts` is what becomes of a store as far as this goes, and
everything below that speaks of records in a stage is kept by it.

# What a walk over the fields goes by

A field is passed if its record has a layout (`Store.Reached`). Scratch words
say how many fields have been passed by an earlier step (`Store.Confirms`);
these are not asked for their stage again.
-/
import TypeRecords.Proofs.Fields.Terms
import TypeRecords.Proofs.Finishing.Transitive
import TypeRecords.Proofs.Requests.Serving

namespace TypeRecords

variable {σ : Type}

-- ====================================================== aggregates

namespace Layout

/-- Each field is given one offset. -/
theorem length_place (fields : List Layout) (free : Nat) :
    (place fields free).1.length = fields.length := by
  induction fields generalizing free with
  | nil => rfl
  | cons field rest ih => exact congrArg (· + 1) (ih _)

/-- An aggregate is aligned to a byte at least. -/
theorem one_le_strictestAlign (fields : List Layout) : 1 ≤ strictestAlign fields := by
  induction fields with
  | nil => exact Nat.le_refl 1
  | cons field rest ih => exact Nat.le_trans ih (Nat.le_max_right ..)

/-- The layout of an aggregate is stored as it is. -/
theorem stored_sequence (fields : List Layout) :
    (sequence fields).layout.stored = (sequence fields).layout := by
  unfold stored
  have halign : max (sequence fields).layout.align 1 = (sequence fields).layout.align :=
    Nat.max_eq_left (one_le_strictestAlign fields)
  rw [halign]

end Layout

/-- As many offsets as there are offset words replace all of them. -/
theorem Record.offsets_writeOffsets {r : Record} {offsets : List Nat}
    (h : offsets.length = r.offsets.length) : (r.writeOffsets offsets).offsets = offsets := by
  unfold writeOffsets
  rw [List.take_of_length_le (Nat.le_of_eq h), List.drop_of_length_le (Nat.le_of_eq h.symm),
    List.append_nil]

/-- Offsets are written over offset words, of which there are as many as
before. -/
theorem Record.length_writeOffsets (r : Record) (offsets : List Nat) :
    (r.writeOffsets offsets).offsets.length = r.offsets.length := by
  unfold writeOffsets
  rw [List.length_append, List.length_take, List.length_drop, Nat.min_comm]
  omega

-- ====================================================== what records keep

/-- What becomes of a record: it is made from what it was made from, and a
layout stays, with the offsets that go with it. -/
structure Record.Lasts (r r' : Record) : Prop where
  kind : r'.kind = r.kind
  origin : r'.origin = r.origin
  arguments : r'.arguments = r.arguments
  length : r'.offsets.length = r.offsets.length
  layout : r.layout.isSome → r'.layout = r.layout ∧ r'.offsets = r.offsets

namespace Record.Lasts

variable {r r' r'' : Record}

/-- A record that is left alone loses nothing. -/
theorem refl (r : Record) : r.Lasts r := ⟨rfl, rfl, rfl, rfl, fun _ => ⟨rfl, rfl⟩⟩

/-- What lasts twice, lasts. -/
theorem trans (h : r.Lasts r') (h' : r'.Lasts r'') : r.Lasts r'' := by
  refine ⟨h'.kind.trans h.kind, h'.origin.trans h.origin, h'.arguments.trans h.arguments,
    h'.length.trans h.length, fun hl => ?_⟩
  obtain ⟨hlayout, hoffsets⟩ := h.layout hl
  obtain ⟨hlayout', hoffsets'⟩ := h'.layout (hlayout ▸ hl)
  exact ⟨hlayout'.trans hlayout, hoffsets'.trans hoffsets⟩

/-- A record is known by the same key, which is made of its origin and arguments. -/
theorem key? (h : r.Lasts r') : r'.key? = r.key? := by
  unfold Record.key?
  rw [h.origin, h.arguments]

end Record.Lasts

/-- What becomes of all records. -/
def Records.Lasts (rs rs' : Records) : Prop :=
  ∀ (x : RecordId) (r : Record), rs[x]? = some r → ∃ r', rs'[x]? = some r' ∧ r.Lasts r'

/-- Each record has become another in the way that `R` says. -/
def Records.Become (R : Record → Record → Prop) (rs rs' : Records) : Prop :=
  ∀ (x : RecordId) (r : Record), rs[x]? = some r → ∃ r', rs'[x]? = some r' ∧ R r r'

namespace Records.Become

variable {R : Record → Record → Prop} {rs rs' : Records}

/-- A new record comes last, and the others have become what they were. -/
theorem push (hR : ∀ r, R r r) (rs : Records) (r : Record) : rs.Become R (rs.push r) :=
  fun x old hold => by
    have hlt := (Array.getElem?_eq_some_iff.mp hold).1
    refine ⟨old, ?_, hR old⟩
    rw [Array.getElem?_push, if_neg (Nat.ne_of_lt hlt)]
    exact hold

/-- If one record becomes another in that way, all of them do. -/
theorem modify (hR : ∀ r, R r r) {x : RecordId} {f : Record → Record}
    (hf : ∀ r, rs[x]? = some r → R r (f r)) : rs.Become R (rs.modify x f) := fun y r hr => by
  rw [Array.getElem?_modify]
  by_cases hxy : x = y
  · subst hxy
    rw [if_pos rfl, hr]
    exact ⟨f r, rfl, hf r hr⟩
  · rw [if_neg hxy]
    exact ⟨r, hr, hR r⟩

/-- A record that was there before is what has become of it. -/
theorem back (h : rs.Become R rs') {x : RecordId} {r' : Record} (hx : x < rs.size)
    (hr' : rs'[x]? = some r') : ∃ r, rs[x]? = some r ∧ R r r' := by
  have hr := Array.getElem?_eq_getElem hx
  obtain ⟨r'', hr'', hbecome⟩ := h x _ hr
  obtain rfl := Option.some.inj (hr'.symm.trans hr'')
  exact ⟨_, hr, hbecome⟩

end Records.Become

namespace Records.Lasts

variable {rs rs' rs'' : Records}

/-- Records that are left alone lose nothing. -/
theorem refl (rs : Records) : rs.Lasts rs := fun _ r hr => ⟨r, hr, .refl r⟩

/-- What lasts twice for each record, lasts. -/
theorem trans (h : rs.Lasts rs') (h' : rs'.Lasts rs'') : rs.Lasts rs'' := fun x r hr => by
  obtain ⟨r', hr', hl⟩ := h x r hr
  obtain ⟨r'', hr'', hl'⟩ := h' x r' hr'
  exact ⟨r'', hr'', hl.trans hl'⟩

/-- A new record takes nothing from the others. -/
theorem push (rs : Records) (r : Record) : rs.Lasts (rs.push r) := Become.push .refl rs r

/-- A change to one record that lasts takes nothing from the others. -/
theorem modify {x : RecordId} {f : Record → Record}
    (hf : ∀ r, rs[x]? = some r → r.Lasts (f r)) : rs.Lasts (rs.modify x f) :=
  Become.modify .refl hf

end Records.Lasts

namespace Store

variable {s : Store}

/-- Unless it publishes a layout a program loses nothing that is known of
layouts. -/
theorem perform_lasts (action : Action) (h : ∀ x l, action ≠ .publish x l) :
    s.records.Lasts (s.perform action).1.records := by
  cases action with
  | publish record layout => exact (h record layout rfl).elim
  | storeWord record index value =>
      exact .modify fun r _ => ⟨rfl, rfl, rfl, rfl, fun _ => ⟨rfl, rfl⟩⟩
  | setSuperclass record superclass =>
      exact .modify fun r _ => ⟨rfl, rfl, rfl, rfl, fun _ => ⟨rfl, rfl⟩⟩
  | takeBlock registry size align =>
      show s.records.Lasts (s.takeBlock registry size align).1.records
      rw [records_takeBlock]
      exact .refl s.records
  | returnBlock registry address size =>
      show s.records.Lasts (s.returnBlock registry address size).1.records
      unfold returnBlock
      split <;> exact .refl s.records
  | addHook hook => exact .refl s.records
  | clearHooks => exact .refl s.records
  | openRegistry config => exact .refl s.records
  | share config =>
      simp only [perform]
      split <;> exact .refl s.records

/-- What a program does by itself gives no record a layout, unless it publishes
one. -/
theorem perform_layout (action : Action) (h : ∀ x l, action ≠ .publish x l) (x : RecordId) :
    (s.perform action).1.records.layoutOf x = s.records.layoutOf x := by
  have hmodify : ∀ (y : RecordId) {f : Record → Record}, (∀ r, (f r).layout = r.layout) →
      Records.layoutOf (s.records.modify y f) x = s.records.layoutOf x := by
    intro y f hf
    unfold Records.layoutOf
    rw [Array.getElem?_modify]
    split
    · rename_i hxy
      subst hxy
      cases s.records[y]? with
      | none => rfl
      | some r => exact hf r
    · rfl
  cases action with
  | publish record layout => exact (h record layout rfl).elim
  | storeWord record index value => exact hmodify record fun _ => rfl
  | setSuperclass record superclass => exact hmodify record fun _ => rfl
  | takeBlock registry size align =>
      show Records.layoutOf (s.takeBlock registry size align).1.records x = _
      rw [records_takeBlock]
  | returnBlock registry address size =>
      show Records.layoutOf (s.returnBlock registry address size).1.records x = _
      unfold returnBlock
      split <;> rfl
  | addHook hook => rfl
  | clearHooks => rfl
  | openRegistry config => rfl
  | share config =>
      simp only [perform]
      split <;> rfl

end Store

/-- The records whose layout is that of an aggregate: those that are completed
by laying out their fields, and tuples. -/
inductive Library.Composes (lib : Library σ) (x : RecordId) (r : Record) : Prop
  | struct {id : DescriptorId} {d : Descriptor σ} (ho : r.origin = .generic id)
      (hd : lib.descriptors[id]? = some d) (hc : d.completion = some .structLayout)
  | tuple (ho : r.origin = .tuple)
  | empty (hx : x = Records.emptyTuple)

/-- Whether a layout is that of an aggregate is up to the origin of the record. -/
theorem Library.Composes.congr {lib : Library σ} {x : RecordId} {r r' : Record}
    (h : lib.Composes x r) (ho : r'.origin = r.origin) : lib.Composes x r' := by
  cases h with
  | struct ho' hd hc => exact .struct (ho.trans ho') hd hc
  | tuple ho' => exact .tuple (ho.trans ho')
  | empty hx => exact .empty hx

namespace Store

variable {s s' s'' : Store} {H H' : List Hold} {registry : RegistryId}
  {terms : DescriptorId → List Term} {x y : RecordId} {c : Call}

-- ====================================================== vocabulary

/-- The record needs completion, or is there with its layout. -/
def isUsable (s : Store) (x : RecordId) : Bool :=
  (s.records[x]?).any fun r => r.key?.isSome || r.layout.isSome

/-- The record that a registry keeps under a key. -/
def kept? (s : Store) (registry : RegistryId) (key : Key) : Option RecordId :=
  (s.find? registry key).bind fun i => (s.entries[i]?).bind (·.record)

/-- The record that a registry answers a call with. -/
def recordOf? (s : Store) (registry : RegistryId) : Call → Option RecordId
  | .check record => some record
  | .generic descriptor arguments => s.kept? registry ⟨.generic descriptor, arguments⟩
  | .tuple elements =>
    if elements = [] then some Records.emptyTuple else s.kept? registry ⟨.tuple, elements⟩

/-- The records of a record's fields or elements, in order. -/
def fieldsOf? (s : Store) (registry : RegistryId) (terms : DescriptorId → List Term)
    (r : Record) : Option (List RecordId) :=
  match r.origin with
  | .generic id => Term.records? (s.recordOf? registry) r.arguments (terms id)
  | _ => some r.arguments

/-- The record is laid out by its fields, whose layouts are `layouts`. A class
is laid out as a reference. -/
def LaidOut (s : Store) (registry : RegistryId) (terms : DescriptorId → List Term)
    (x : RecordId) (fields : List RecordId) (layouts : List Layout) : Prop :=
  ∃ r, s.records[x]? = some r ∧ s.fieldsOf? registry terms r = some fields
    ∧ fields.map s.records.layoutOf = layouts.map some
    ∧ r.offsets = (Layout.sequence layouts).offsets
    ∧ r.layout = some (if r.kind = .object then .reference else (Layout.sequence layouts).layout)

/-- The registry has answered the call this way, and the record has not fallen
behind since. -/
structure Told (s : Store) (registry : RegistryId) (c : Call) (r : Response) : Prop where
  record : s.recordOf? registry c = some r.record
  stage : r.stage ≤ s.stageOf registry r.record
  usable : s.isUsable r.record = true

/-- The layout of the record is known. -/
structure Reached (s : Store) (registry : RegistryId) (x : RecordId) : Prop where
  usable : s.isUsable x = true
  stage : .layoutComplete ≤ s.stageOf registry x

/-- Scratch words of a record: the fields they say were passed have a layout. -/
def Confirms (s : Store) (registry : RegistryId) (terms : DescriptorId → List Term)
    (x : RecordId) (words : Scratch) : Prop :=
  ∃ r, s.records[x]? = some r ∧ ∀ id, r.origin = .generic id →
    ∃ passed, Term.records? (s.recordOf? registry) r.arguments ((terms id).take (words.get 0))
      = some passed ∧ ∀ y ∈ passed, s.Reached registry y

-- ====================================================== later stores

/-- What becomes of a store: nothing is taken back, and of records nothing is
lost that is known about their layout. -/
structure Lasts (registry : RegistryId) (s s' : Store) : Prop where
  advances : s.Advances s'
  stages : ∀ {x : RecordId}, x < s.records.size → s.stageOf registry x ≤ s'.stageOf registry x
  records : s.records.Lasts s'.records

namespace Advances

/-- What a registry keeps under a key it keeps for good. -/
theorem kept? (h : s.Advances s') {key : Key} (hk : s.kept? registry key = some x) :
    s'.kept? registry key = some x := by
  obtain ⟨i, hi, hx⟩ := Option.bind_eq_some_iff.mp hk
  obtain ⟨e, he, hr⟩ := Option.bind_eq_some_iff.mp hx
  obtain ⟨e', he', -, -, hrecord⟩ := h.entries he
  unfold Store.kept?
  rw [h.grows.find? hi, Option.bind_some, he', Option.bind_some, hrecord x hr]

/-- A call that has been answered is answered with the same record later. -/
theorem recordOf? (h : s.Advances s') (hc : s.recordOf? registry c = some x) :
    s'.recordOf? registry c = some x := by
  cases c with
  | check record => exact hc
  | generic descriptor arguments => exact h.kept? hc
  | tuple elements =>
      simp only [Store.recordOf?] at hc ⊢
      split at hc
      · rename_i hempty
        rw [if_pos hempty]
        exact hc
      · rename_i hne
        rw [if_neg hne]
        exact h.kept? hc

end Advances

/-- What can be used is there. -/
theorem lt_size_of_usable (h : s.isUsable x = true) : x < s.records.size := by
  unfold isUsable at h
  rw [Option.any_eq_true] at h
  obtain ⟨r, hr, -⟩ := h
  exact (Array.getElem?_eq_some_iff.mp hr).1

/-- A record with a key can be used: it is completed before its layout is needed. -/
theorem isUsable_of_key {key : Key} (h : s.keyOf x = some key) : s.isUsable x = true := by
  obtain ⟨r, hr, hk⟩ := Option.bind_eq_some_iff.mp h
  unfold isUsable
  rw [hr, Option.any_some, hk]
  rfl

/-- A record that is usable and needs no completion has a layout. -/
theorem layout_of_keyless (h : s.isUsable x = true) (hk : s.keyOf x = none) :
    (s.records.layoutOf x).isSome := by
  unfold isUsable at h
  rw [Option.any_eq_true] at h
  obtain ⟨r, hr, h⟩ := h
  unfold keyOf at hk
  rw [hr, Option.bind_some] at hk
  rw [hk, Option.isSome_none, Bool.false_or] at h
  unfold Records.layoutOf
  rw [hr]
  exact h

namespace Lasts

/-- A store that is left alone loses nothing. -/
theorem refl (registry : RegistryId) (s : Store) : s.Lasts registry s :=
  ⟨.refl s, fun _ => Nat.le_refl _, .refl s.records⟩

/-- What lasts from store to store, lasts. -/
theorem trans (h : s.Lasts registry s') (h' : s'.Lasts registry s'') : s.Lasts registry s'' := by
  refine ⟨h.advances.trans h'.advances, fun hx => ?_, h.records.trans h'.records⟩
  exact Nat.le_trans (h.stages hx) (h'.stages (Nat.lt_of_lt_of_le hx h.advances.grows.size_le))

/-- A layout is what it was. -/
theorem layoutOf (h : s.Lasts registry s') {l : Layout} (hx : s.records.layoutOf x = some l) :
    s'.records.layoutOf x = some l := by
  obtain ⟨r, hr, hl⟩ := Option.bind_eq_some_iff.mp hx
  obtain ⟨r', hr', hlasts⟩ := h.records _ _ hr
  unfold Records.layoutOf
  rw [hr', Option.bind_some, (hlasts.layout (hl ▸ rfl)).1, hl]

/-- A record that has a layout keeps one. -/
theorem layout_isSome (h : s.Lasts registry s') (hx : (s.records.layoutOf x).isSome) :
    (s'.records.layoutOf x).isSome := by
  obtain ⟨l, hl⟩ := Option.isSome_iff_exists.mp hx
  rw [h.layoutOf hl]
  rfl

/-- What could be used still can. -/
theorem usable (h : s.Lasts registry s') (hx : s.isUsable x = true) : s'.isUsable x = true := by
  unfold isUsable at hx
  rw [Option.any_eq_true] at hx
  obtain ⟨r, hr, hx⟩ := hx
  obtain ⟨r', hr', hlasts⟩ := h.records _ _ hr
  unfold isUsable
  rw [hr', Option.any_some, hlasts.key?]
  rw [Bool.or_eq_true] at hx ⊢
  exact hx.imp_right fun hl => (hlasts.layout hl).1 ▸ hl

/-- A call leads to the record it led to. -/
theorem recordOf? (h : s.Lasts registry s') (hc : s.recordOf? registry c = some x) :
    s'.recordOf? registry c = some x :=
  h.advances.recordOf? hc

/-- Terms lead to the records they led to. -/
theorem records? (h : s.Lasts registry s') {arguments xs : List RecordId} {es : List Term}
    (hx : Term.records? (s.recordOf? registry) arguments es = some xs) :
    Term.records? (s'.recordOf? registry) arguments es = some xs :=
  Term.records?_mono (fun _ _ => h.recordOf?) hx

/-- An answer stays true. -/
theorem told (h : s.Lasts registry s') {r : Response} (ht : s.Told registry c r) :
    s'.Told registry c r :=
  ⟨h.recordOf? ht.record, Nat.le_trans ht.stage (h.stages (lt_size_of_usable ht.usable)),
    h.usable ht.usable⟩

/-- A layout that is known stays known. -/
theorem reached (h : s.Lasts registry s') (hx : s.Reached registry x) : s'.Reached registry x :=
  ⟨h.usable hx.usable, Nat.le_trans hx.stage (h.stages (lt_size_of_usable hx.usable))⟩

/-- Scratch words go on saying the truth. -/
theorem confirms (h : s.Lasts registry s') {words : Scratch}
    (hc : s.Confirms registry terms x words) : s'.Confirms registry terms x words := by
  obtain ⟨r, hr, hall⟩ := hc
  obtain ⟨r', hr', hlasts⟩ := h.records _ _ hr
  refine ⟨r', hr', fun id ho => ?_⟩
  obtain ⟨passed, hpassed, hreached⟩ := hall id (hlasts.origin.symm.trans ho)
  refine ⟨passed, ?_, fun y hy => h.reached (hreached y hy)⟩
  rw [hlasts.arguments]
  exact h.records? hpassed

/-- The layouts of a list of records are what they were. -/
theorem layouts (h : s.Lasts registry s') {ys : List RecordId} {ls : List Layout}
    (hl : ys.map s.records.layoutOf = ls.map some) :
    ys.map s'.records.layoutOf = ls.map some := by
  rw [← hl]
  refine List.map_congr_left fun y hy => ?_
  have hmem : s.records.layoutOf y ∈ ls.map some := hl ▸ List.mem_map_of_mem hy
  obtain ⟨l, -, hy'⟩ := List.mem_map.mp hmem
  rw [h.layoutOf hy'.symm, hy']

/-- What is laid out stays as it is. -/
theorem laidOut (h : s.Lasts registry s') {fields : List RecordId} {layouts : List Layout}
    (hx : s.LaidOut registry terms x fields layouts) :
    s'.LaidOut registry terms x fields layouts := by
  obtain ⟨r, hr, hfields, hlayouts, hoffsets, hlayout⟩ := hx
  obtain ⟨r', hr', hlasts⟩ := h.records _ _ hr
  obtain ⟨hlayout', hoffsets'⟩ := hlasts.layout (hlayout ▸ rfl)
  refine ⟨r', hr', ?_, h.layouts hlayouts, hoffsets'.trans hoffsets, ?_⟩
  · unfold fieldsOf? at hfields ⊢
    rw [hlasts.origin, hlasts.arguments]
    cases ho : r.origin with
    | generic id =>
        rw [ho] at hfields
        exact h.records? hfields
    | fixed
    | tuple =>
        rw [ho] at hfields
        exact hfields
  · rw [hlayout', hlayout, hlasts.kind]

end Lasts

/-- There is only one way in which a record is laid out. -/
theorem LaidOut.unique {fields fields' : List RecordId} {layouts layouts' : List Layout}
    (h : s.LaidOut registry terms x fields layouts)
    (h' : s.LaidOut registry terms x fields' layouts') :
    fields = fields' ∧ layouts = layouts' := by
  obtain ⟨r, hr, hfields, hlayouts, -⟩ := h
  obtain ⟨r', hr', hfields', hlayouts', -⟩ := h'
  obtain rfl := Option.some.inj (hr.symm.trans hr')
  obtain rfl := Option.some.inj (hfields.symm.trans hfields')
  refine ⟨rfl, ?_⟩
  exact List.map_injective_iff.mpr (fun _ _ => Option.some.inj) (hlayouts.symm.trans hlayouts')

end Store

end TypeRecords
