/-
Walks over fields and elements, and the store they go through.

A walk has passed some fields, whose records have a layout, and notes these
layouts (`Store.Walks`, `Store.Measures`). When it comes to its end what it
writes down is the aggregate of all of them, so the record is laid out
(`Walks.laidOut`, `Measures.laidOut`).

`Store.Sited` is what such a walk relies on between steps: a record that has
reached a stage in which the layout is known has one, a record of fields or
elements that has a layout is laid out, and the scratch words of a parked
initialization confirm what they say.
-/
import TypeRecords.Proofs.Fields.Placing

namespace TypeRecords

variable {σ : Type}

-- ====================================================== records

/-- The record has the offset words that its origin calls for. -/
def Record.Shaped (lib : Library σ) (r : Record) : Prop :=
  match r.origin with
  | .fixed => True
  | .generic id => ∃ d, lib.descriptors[id]? = some d ∧ r.offsets.length = d.fields.length
  | .tuple => r.kind = .tuple ∧ r.offsets.length = r.arguments.length

/-- The record once it is laid out by fields with these layouts. -/
def Record.laidDown (r : Record) (layouts : List Layout) : Record :=
  (r.writeOffsets (Layout.sequence layouts).offsets).publish
    (if r.kind = .object then .reference else (Layout.sequence layouts).layout)

theorem Record.Lasts.shaped {lib : Library σ} {r r' : Record} (h : r.Lasts r')
    (hs : r.Shaped lib) : r'.Shaped lib := by
  unfold Record.Shaped at hs ⊢
  rw [h.origin, h.kind, h.length, h.arguments]
  exact hs

theorem Record.offsets_laidDown {r : Record} {layouts : List Layout}
    (h : layouts.length = r.offsets.length) :
    (r.laidDown layouts).offsets = (Layout.sequence layouts).offsets :=
  Record.offsets_writeOffsets ((Layout.length_place layouts 0).trans h)

theorem Record.layout_laidDown (r : Record) (layouts : List Layout) :
    (r.laidDown layouts).layout
      = some (if r.kind = .object then .reference else (Layout.sequence layouts).layout) := by
  unfold laidDown publish
  split
  · rfl
  · rw [Layout.stored_sequence]

/-- Whoever lays a record out writes what is there already, or there was
nothing. -/
theorem Record.lasts_laidDown {r : Record} {layouts : List Layout}
    (h : layouts.length = r.offsets.length)
    (hr : r.layout.isSome → r.offsets = (Layout.sequence layouts).offsets ∧ r.layout
      = some (if r.kind = .object then .reference else (Layout.sequence layouts).layout)) :
    r.Lasts (r.laidDown layouts) := by
  have hoffsets := Record.offsets_laidDown h
  refine ⟨rfl, rfl, rfl, ?_, fun hl => ?_⟩
  · rw [hoffsets, ← h]
    exact Layout.length_place layouts 0
  · obtain ⟨hoffsets', hlayout'⟩ := hr hl
    exact ⟨(r.layout_laidDown layouts).trans hlayout'.symm, hoffsets.trans hoffsets'.symm⟩

namespace Store

variable {lib : Library σ} {s s' : Store} {H H' : List Hold} {registry : RegistryId}
  {terms : DescriptorId → List Term} {x y : RecordId} {c : Call}

-- ====================================================== walks

/-- A walk over the fields of a record has passed those before the ones to
come. -/
inductive Walks (lib : Library σ) (registry : RegistryId) (terms : DescriptorId → List Term)
    (s : Store) (w : FieldWalk σ) (arguments : List RecordId) (coming : List Term) : Prop
  | intro {r : Record} {id : DescriptorId} {d : Descriptor σ} {past : List Term}
      {passed : List RecordId} (hr : s.records[w.record]? = some r) (ho : r.origin = .generic id)
      (hd : lib.descriptors[id]? = some d) (hc : d.completion = some .structLayout)
      (ha : r.arguments = arguments) (hterms : terms id = past ++ coming)
      (htodo : List.Forall₂ (fun field e => field.type.Reads e) w.todo coming)
      (hindex : past.length = w.index)
      (hpassed : Term.records? (s.recordOf? registry) arguments past = some passed)
      (hreached : ∀ y ∈ passed, s.Reached registry y)
      (hlayouts : passed.map s.records.layoutOf = w.layouts.map some)
      (hregistry : w.registry = registry)
      (hwords : s.Confirms registry terms w.record w.scratch)

/-- A walk over the elements of a tuple has passed those before the ones to
come. -/
def Measures (registry : RegistryId) (s : Store) (w : ElementWalk) : Prop :=
  ∃ r past, s.records[w.drive.record]? = some r ∧ r.origin = .tuple
    ∧ r.arguments = past ++ w.todo ∧ ∀ y ∈ past, s.Reached registry y

theorem Walks.lasts {w : FieldWalk σ} {arguments : List RecordId} {coming : List Term}
    (h : s.Walks lib registry terms w arguments coming) (hl : s.Lasts registry s') :
    s'.Walks lib registry terms w arguments coming := by
  obtain ⟨hr, ho, hd, hc, ha, hterms, htodo, hindex, hpassed, hreached, hlayouts, hreg, hwords⟩ := h
  obtain ⟨r', hr', hlasts⟩ := hl.records _ _ hr
  exact ⟨hr', hlasts.origin.trans ho, hd, hc, hlasts.arguments.trans ha, hterms, htodo, hindex,
    hl.records? hpassed, fun y hy => hl.reached (hreached y hy), hl.layouts hlayouts, hreg,
    hl.confirms hwords⟩

theorem Measures.lasts {w : ElementWalk} (h : s.Measures registry w) (hl : s.Lasts registry s') :
    s'.Measures registry w := by
  obtain ⟨r, past, hr, ho, ha, hreached⟩ := h
  obtain ⟨r', hr', hlasts⟩ := hl.records _ _ hr
  exact ⟨r', past, hr', hlasts.origin.trans ho, hlasts.arguments.trans ha,
    fun y hy => hl.reached (hreached y hy)⟩

/-- Before the first step nothing is confirmed. -/
theorem confirms_zero (hx : x < s.records.size) : s.Confirms registry terms x .zero := by
  refine ⟨_, Array.getElem?_eq_getElem hx, fun id _ => ⟨[], ?_, nofun⟩⟩
  show Term.records? (s.recordOf? registry) _ ((terms id).take 0) = some []
  rw [List.take_zero, Term.records?]

/-- Scratch words that count the fields a walk has passed confirm them. -/
theorem Walks.confirms {w : FieldWalk σ} {arguments : List RecordId} {coming : List Term}
    (h : s.Walks lib registry terms w arguments coming) {words : Scratch}
    (hwords : words.get 0 = w.index) : s.Confirms registry terms w.record words := by
  obtain ⟨hr, ho, hd, hc, ha, hterms, htodo, hindex, hpassed, hreached, hlayouts, hreg, -⟩ := h
  refine ⟨_, hr, fun id ho' => ?_⟩
  obtain rfl := Origin.generic.inj (ho.symm.trans ho')
  refine ⟨_, ?_, hreached⟩
  rw [hwords, hterms, ← hindex, List.take_left, ha]
  exact hpassed

/-- A walk begins with nothing passed. -/
theorem Walks.start {r : Record} {id : DescriptorId} {d : Descriptor σ} {words : Scratch}
    (hlib : lib.Structural terms) (hr : s.records[x]? = some r) (ho : r.origin = .generic id)
    (hd : lib.descriptors[id]? = some d) (hc : d.completion = some .structLayout)
    (hwords : s.Confirms registry terms x words) :
    s.Walks lib registry terms ⟨registry, x, words, d.fields, 0, []⟩ r.arguments (terms id) := by
  have hterms : terms id = [] ++ terms id := rfl
  have hpassed : Term.records? (s.recordOf? registry) r.arguments [] = some [] := by
    rw [Term.records?]
  exact .intro hr ho hd hc rfl hterms ((hlib hd).fields hc) rfl hpassed nofun rfl rfl hwords

/-- A field that was passed by an earlier step has a layout. -/
theorem Walks.reached {w : FieldWalk σ} {arguments : List RecordId} {e : Term} {es : List Term}
    (h : s.Walks lib registry terms w arguments (e :: es)) (hlt : w.index < w.scratch.get 0)
    (hx : e.record? (s.recordOf? registry) arguments = some x) : s.Reached registry x := by
  obtain @⟨r, id, d, past, -, hr, ho, -, -, rfl, hterms, -, hindex, -, -, -, -, hwords⟩ := h
  obtain ⟨r', hr', hwords⟩ := hwords
  obtain rfl := Option.some.inj (hr.symm.trans hr')
  obtain ⟨passed, hpassed, hreached⟩ := hwords id ho
  have hmem : e ∈ (terms id).take (w.scratch.get 0) := by
    rw [List.mem_take_iff_getElem]
    refine ⟨w.index, ?_, ?_⟩
    · rw [hterms, List.length_append, List.length_cons, hindex]
      omega
    · simp [hterms, ← hindex]
  obtain ⟨y, hy, hxy⟩ := Term.mem_records? hpassed hmem
  obtain rfl := Option.some.inj (hx.symm.trans hxy)
  exact hreached x hy

/-- One field more is passed. -/
theorem Walks.next {w : FieldWalk σ} {arguments : List RecordId} {e : Term} {es : List Term}
    {l : Layout} (h : s.Walks lib registry terms w arguments (e :: es))
    (hx : e.record? (s.recordOf? registry) arguments = some x) (hreached : s.Reached registry x)
    (hl : s.records.layoutOf x = some l) :
    s.Walks lib registry terms
      { w with todo := w.todo.tail, index := w.index + 1, layouts := w.layouts ++ [l] }
      arguments es := by
  obtain ⟨hr, ho, hd, hc, ha, hterms, htodo, hindex, hpassed, hreached', hlayouts, hreg, hwords⟩ :=
    h
  refine .intro hr ho hd hc ha (hterms.trans (List.append_cons ..)) ?_ ?_
    (Term.records?_concat hpassed hx) (fun y hy => ?_) ?_ hreg hwords
  · cases hw : w.todo with
    | nil =>
        rw [hw] at htodo
        cases htodo
    | cons field rest =>
        rw [hw] at htodo
        exact (List.forall₂_cons.mp htodo).2
  · rw [List.length_append, hindex]
    rfl
  · rcases List.mem_append.mp hy with hy | hy
    · exact hreached' y hy
    · rw [List.mem_singleton.mp hy]
      exact hreached
  · rw [List.map_append, List.map_append, hlayouts]
    exact congrArg (_ ++ ·) (congrArg ([·]) hl)

/-- One element more is passed. -/
theorem Measures.next {w : ElementWalk} {rest : List RecordId} {stage : Stage}
    (h : s.Measures registry w) (htodo : w.todo = x :: rest) (hx : s.Reached registry x) :
    s.Measures registry { w with todo := rest, stages := w.stages ++ [stage] } := by
  obtain ⟨r, past, hr, ho, ha, hreached⟩ := h
  refine ⟨r, past ++ [x], hr, ho, ?_, fun y hy => ?_⟩
  · rw [ha, htodo]
    exact List.append_cons ..
  · rcases List.mem_append.mp hy with hy | hy
    · exact hreached y hy
    · rw [List.mem_singleton.mp hy]
      exact hx

-- ====================================================== the store between steps

/-- What walks rely on, and what they leave behind. -/
structure Sited (lib : Library σ) (registry : RegistryId) (terms : DescriptorId → List Term)
    (s : Store) : Prop where
  sole : s.Sole registry
  empty : (s.records.layoutOf Records.emptyTuple).isSome
  keyless : s.keyOf Records.emptyTuple = none
  /-- What a record is made from is usable. -/
  arguments : ∀ {x y : RecordId} {r : Record}, s.records[x]? = some r → r.origin ≠ .fixed →
    y ∈ r.arguments → s.isUsable y = true
  shaped : ∀ {x : RecordId} {r : Record}, s.records[x]? = some r → r.Shaped lib
  /-- Where the layout is said to be known there is one. -/
  ready : ∀ {i : EntryId} {e : Entry} {x : RecordId}, s.entries[i]? = some e →
    e.record = some x → .layoutComplete ≤ e.stage → (s.records.layoutOf x).isSome
  /-- What needs no completion has a layout as soon as it is known. -/
  plain : ∀ {i : EntryId} {e : Entry} {x : RecordId} {r : Record} {d : Descriptor σ},
    s.entries[i]? = some e → e.record = some x → s.records[x]? = some r →
    lib.descriptorOf? r = some d → d.completion = none → r.layout.isSome
  laid : ∀ {x : RecordId} {r : Record}, s.records[x]? = some r → r.layout.isSome →
    lib.Composes x r → ∃ fields layouts, s.LaidOut registry terms x fields layouts
  saved : ∀ {i : EntryId} {e : Entry} {x : RecordId} {words : Scratch},
    s.entries[i]? = some e → e.record = some x → e.saved = some words →
    s.Confirms registry terms x words

namespace Sited

theorem empty_usable (hs : s.Sited lib registry terms) :
    s.isUsable Records.emptyTuple = true := by
  obtain ⟨l, hl⟩ := Option.isSome_iff_exists.mp hs.empty
  obtain ⟨r, hr, hlayout⟩ := Option.bind_eq_some_iff.mp hl
  unfold isUsable
  rw [hr, Option.any_some, hlayout]
  exact Bool.or_true _

/-- A record that has reached the stage has a layout. -/
theorem layout_isSome (hs : s.Sited lib registry terms) (ho : s.Owned H)
    (hx : s.Reached registry x) : (s.records.layoutOf x).isSome := by
  cases hi : s.entryOf? registry x with
  | none => exact layout_of_keyless hx.usable (hs.sole.keyOf_none hi)
  | some i =>
      obtain ⟨e, he, -⟩ := entryOf?_some hi
      have hstage := hx.stage
      rw [stageOf_entry hi he (ho.sound he)] at hstage
      cases hr : e.record with
      | none =>
          rw [((ho.sound he).blank hr).1] at hstage
          exact absurd hstage (by decide)
      | some y =>
          obtain rfl := hs.sole.record_eq ho hi he hr
          exact hs.ready he hr hstage

/-- The record of the entry that a call is about answers the call. -/
theorem told_of_sought (hs : s.Sited lib registry terms) (ho : s.Owned H) {i : EntryId}
    {e : Entry} {r : Response} (hi : s.sought? registry c = some i)
    (he : s.entries[i]? = some e) (hr : e.record = some r.record) (hstage : r.stage ≤ e.stage) :
    s.Told registry c r := by
  have hentry := ho.entryOf?_of_record he hr
  rw [hs.sole.entry_registry he] at hentry
  refine ⟨?_, ?_, isUsable_of_key (ho.keyed he hr)⟩
  · have hkept : ∀ key : Key, s.find? registry key = some i →
        s.kept? registry key = some r.record := fun key hf => by
      unfold kept?
      rw [hf, Option.bind_some, he, Option.bind_some, hr]
    cases c with
    | check y => exact congrArg some (hs.sole.record_eq ho hi he hr)
    | generic descriptor arguments => exact hkept _ hi
    | tuple elements =>
        obtain ⟨key, hk, hf⟩ := Option.bind_eq_some_iff.mp hi
        simp only [Call.key?] at hk
        simp only [recordOf?]
        split at hk
        · cases hk
        · rename_i hne
          rw [if_neg hne]
          cases hk
          exact hkept _ hf
  · rw [stageOf_entry hentry he (ho.sound he)]
    exact hstage

/-- A record that is usable and that nothing is kept for answers a check. -/
theorem told_of_unkept (hx : s.isUsable x = true) (hi : s.entryOf? registry x = none) :
    s.Told registry (.check x) (.finished x) := by
  refine ⟨rfl, ?_, hx⟩
  show Stage.complete ≤ s.stageOf registry x
  rw [stageOf_of_none hi]
  exact Nat.le_refl _

end Sited

-- ====================================================== the end of a walk

section

variable {w : FieldWalk σ} {r : Record} {arguments : List RecordId}

theorem Walks.length_layouts (hlib : lib.Structural terms) (hs : s.Sited lib registry terms)
    (h : s.Walks lib registry terms w arguments []) (hr : s.records[w.record]? = some r) :
    w.layouts.length = r.offsets.length := by
  obtain ⟨hr', ho, hd, hc, -, hterms, -, -, hpassed, -, hlayouts, -, -⟩ := h
  obtain rfl := Option.some.inj (hr.symm.trans hr')
  have hshaped := hs.shaped hr
  unfold Record.Shaped at hshaped
  rw [ho] at hshaped
  obtain ⟨d', hd', hoffsets⟩ := hshaped
  obtain rfl := Option.some.inj (hd.symm.trans hd')
  have hlength := congrArg List.length hlayouts
  rw [List.length_map, List.length_map, Term.length_records? hpassed] at hlength
  rw [hoffsets, ((hlib hd).fields hc).length_eq, hterms, List.append_nil, hlength]

/-- What a walk over the fields writes is what is there, or there is nothing
yet. -/
theorem Walks.lasts_laidDown (hlib : lib.Structural terms) (hs : s.Sited lib registry terms)
    (h : s.Walks lib registry terms w arguments []) (hr : s.records[w.record]? = some r) :
    r.Lasts (r.laidDown w.layouts) := by
  refine Record.lasts_laidDown (h.length_layouts hlib hs hr) fun hl => ?_
  obtain ⟨hr', ho, hd, hc, rfl, hterms, -, -, hpassed, -, hlayouts, -, -⟩ := h
  obtain rfl := Option.some.inj (hr.symm.trans hr')
  obtain ⟨fields, layouts, r', hr'', hfields, hlayouts', hoffsets, hlayout⟩ :=
    hs.laid hr hl (.struct ho hd hc)
  obtain rfl := Option.some.inj (hr.symm.trans hr'')
  unfold fieldsOf? at hfields
  rw [ho] at hfields
  dsimp only at hfields
  rw [hterms, List.append_nil, hpassed] at hfields
  obtain rfl := Option.some.inj hfields
  obtain rfl : layouts = w.layouts := List.map_injective_iff.mpr (fun _ _ => Option.some.inj)
    (hlayouts'.symm.trans hlayouts)
  exact ⟨hoffsets, hlayout⟩

/-- At its end a walk over the fields leaves the record laid out. -/
theorem Walks.laidOut (hlib : lib.Structural terms) (hs : s.Sited lib registry terms)
    (h : s.Walks lib registry terms w arguments []) (hr : s.records[w.record]? = some r)
    (hl : s.Lasts registry s') (hr' : s'.records[w.record]? = some (r.laidDown w.layouts)) :
    ∃ fields, s'.LaidOut registry terms w.record fields w.layouts := by
  have hlength := h.length_layouts hlib hs hr
  obtain @⟨_, id, d, past, passed, hr'', ho, hd, hc, rfl, hterms, -, -, hpassed, -, hlayouts, -,
    -⟩ := h
  obtain rfl := Option.some.inj (hr.symm.trans hr'')
  refine ⟨passed, _, hr', ?_, hl.layouts hlayouts, Record.offsets_laidDown hlength,
    r.layout_laidDown w.layouts⟩
  unfold fieldsOf?
  rw [show (r.laidDown w.layouts).origin = .generic id from ho]
  show Term.records? _ r.arguments (terms id) = some passed
  rw [hterms, List.append_nil]
  exact hl.records? hpassed

end

theorem layDown_layout (hx : x < s.records.size) (layouts : List Layout) :
    ((Turn.layDown s x layouts).records.layoutOf x).isSome := by
  show ((s.records.modify x _)[x]?.bind (·.layout)).isSome
  rw [Array.getElem?_modify, if_pos rfl, Array.getElem?_eq_getElem hx]
  rfl

section

variable {r : Record}

/-- A tuple that has no layout yet is laid out by its elements. -/
theorem settleTuple_laidDown (hkind : r.kind = .tuple) (layouts : List Layout) :
    (r.writeOffsets (Layout.sequence layouts).offsets).publish (Layout.sequence layouts).layout
      = r.laidDown layouts := by
  unfold Record.laidDown
  rw [if_neg (by rw [hkind]; decide)]

theorem settleTuple_lasts (s : Store) (x : RecordId) :
    s.records.Lasts (Turn.settleTuple s x).records := by
  unfold Turn.settleTuple
  split
  · exact .refl s.records
  · rename_i hnone
    refine .modify fun r hr => ⟨rfl, rfl, rfl, Record.length_writeOffsets r _, fun hl => ?_⟩
    unfold Records.layoutOf at hnone
    rw [hr] at hnone
    exact (hnone hl).elim

theorem settleTuple_layout (hx : x < s.records.size) :
    ((Turn.settleTuple s x).records.layoutOf x).isSome := by
  unfold Turn.settleTuple
  split
  · assumption
  · show ((s.records.modify x _)[x]?.bind (·.layout)).isSome
    rw [Array.getElem?_modify, if_pos rfl, Array.getElem?_eq_getElem hx]
    rfl

/-- A tuple all of whose elements have a layout is laid out by them. -/
theorem settleTuple_laidOut (hs : s.Sited lib registry terms) (hr : s.records[x]? = some r)
    (ho : r.origin = .tuple) (hall : ∀ y ∈ r.arguments, (s.records.layoutOf y).isSome)
    (hnone : r.layout = none) (hl : s.Lasts registry s')
    (hs' : s'.records = (Turn.settleTuple s x).records) :
    ∃ fields layouts, s'.LaidOut registry terms x fields layouts := by
  have hshaped := hs.shaped hr
  unfold Record.Shaped at hshaped
  rw [ho] at hshaped
  obtain ⟨hkind, hlength⟩ := hshaped
  let layouts := r.arguments.map fun y => (s.records.layoutOf y).getD .empty
  have hlayouts : r.arguments.map s.records.layoutOf = layouts.map some := by
    rw [List.map_map]
    refine List.map_congr_left fun y hy => ?_
    obtain ⟨l, hl⟩ := Option.isSome_iff_exists.mp (hall y hy)
    rw [Function.comp_apply, hl, Option.getD_some]
  have hr' : s'.records[x]? = some (r.laidDown layouts) := by
    rw [hs']
    unfold Turn.settleTuple Records.layoutOf Records.argumentsOf
    rw [hr, Option.bind_some, hnone]
    show (s.records.modify x _)[x]? = _
    rw [Array.getElem?_modify, if_pos rfl, hr, Option.map_some, settleTuple_laidDown hkind]
    rfl
  refine ⟨r.arguments, layouts, _, hr', ?_, hl.layouts hlayouts,
    Record.offsets_laidDown ?_, r.layout_laidDown layouts⟩
  · unfold fieldsOf?
    rw [show (r.laidDown layouts).origin = .tuple from ho]
    rfl
  · rw [hlength, List.length_map]

end

-- ====================================================== allocations

theorem settleLayout_lasts (s : Store) (x : RecordId) (kind : Kind) :
    s.records.Lasts (Turn.settleLayout s x kind).records := by
  unfold Turn.settleLayout
  split
  · exact .refl s.records
  · rename_i hnone
    refine .modify fun r hr => ⟨rfl, rfl, rfl, rfl, fun hl => ?_⟩
    unfold Records.layoutOf at hnone
    rw [hr] at hnone
    exact (hnone hl).elim

theorem settleLayout_layout (hx : x < s.records.size) (kind : Kind) :
    ((Turn.settleLayout s x kind).records.layoutOf x).isSome := by
  unfold Turn.settleLayout
  split
  · assumption
  · show ((s.records.modify x _)[x]?.bind (·.layout)).isSome
    rw [Array.getElem?_modify, if_pos rfl, Array.getElem?_eq_getElem hx]
    rfl

theorem firstStage_lasts (lib : Library σ) (s : Store) (x : RecordId) :
    s.records.Lasts (Turn.firstStage lib s x).1.records := by
  unfold Turn.firstStage
  split
  · exact .refl s.records
  · split
    · exact .refl s.records
    · exact settleLayout_lasts s x _

/-- A record whose layout is known when it is allocated has one. -/
theorem firstStage_layout (h : .layoutComplete ≤ (Turn.firstStage lib s x).2) :
    ((Turn.firstStage lib s x).1.records.layoutOf x).isSome := by
  unfold Turn.firstStage at h ⊢
  have hlate : ¬ Stage.layoutComplete ≤ .abstract := by decide
  split at h
  · exact (hlate h).elim
  · rename_i d hd
    split at h
    · rename_i hc
      rw [if_pos hc]
      unfold inferredStage at h
      split at h
      · assumption
      · exact (hlate h).elim
    · rename_i hc
      rw [if_neg hc]
      obtain ⟨r, hr, -⟩ := Option.bind_eq_some_iff.mp hd
      exact settleLayout_layout (Array.getElem?_eq_some_iff.mp hr).1 d.kind

/-- A record that needs no completion has a layout from then on. -/
theorem firstStage_plain {r : Record} {d : Descriptor σ} (hr : s.records[x]? = some r)
    (hd : lib.descriptorOf? r = some d) (hc : d.completion = none) :
    ((Turn.firstStage lib s x).1.records.layoutOf x).isSome := by
  have hfound : (s.records[x]?).bind lib.descriptorOf? = some d := by
    rw [hr, Option.bind_some, hd]
  unfold Turn.firstStage
  rw [hfound]
  simp only [hc, Option.isSome_none, Bool.false_eq_true, if_false]
  exact settleLayout_layout (Array.getElem?_eq_some_iff.mp hr).1 d.kind

/-- Only a record that needs no completion is given a layout. -/
theorem firstStage_changed {r r' : Record} (hr : s.records[y]? = some r) (hnone : r.layout = none)
    (hr' : (Turn.firstStage lib s x).1.records[y]? = some r') (hl : r'.layout.isSome) :
    ∃ d, lib.descriptorOf? r = some d ∧ d.completion = none := by
  have hsame : s.records[y]? = some r' → False := fun h => by
    obtain rfl := Option.some.inj (hr.symm.trans h)
    rw [hnone] at hl
    cases hl
  unfold Turn.firstStage at hr'
  split at hr'
  · exact (hsame hr').elim
  · rename_i d hd
    split at hr'
    · exact (hsame hr').elim
    · rename_i hc
      unfold Turn.settleLayout at hr'
      split at hr'
      · exact (hsame hr').elim
      · change (s.records.modify x _)[y]? = some r' at hr'
        rw [Array.getElem?_modify] at hr'
        split at hr'
        · rename_i hxy
          subst hxy
          rw [hr, Option.bind_some] at hd
          exact ⟨d, hd, Option.not_isSome_iff_eq_none.mp hc⟩
        · exact (hsame hr').elim

end Store

/-- A step loses nothing that is known of the layout of a record, unless a
program publishes one, or a walk for the record comes to its end. -/
theorem Turn.Writes.lasts {lib : Library σ} {t t' : Turn σ} (h : Turn.Writes lib t t')
    (hact : ∀ x l k s, t.control ≠ .run (.act (.publish x l) k) s) {x : RecordId} {r : Record}
    (hr : t.store.records[x]? = some r)
    (hlay : ∀ w, t.control = .lay w → w.todo = [] → w.record = x →
      r.Lasts (r.laidDown w.layouts)) :
    ∃ r', t'.store.records[x]? = some r' ∧ r.Lasts r' := by
  cases h with
  | same h =>
      rw [h]
      exact ⟨r, hr, .refl r⟩
  | @acted action k s hc h =>
      rw [h]
      refine Store.perform_lasts action (fun y l heq => ?_) x r hr
      subst heq
      exact hact y l k s hc
  | made hc hr' h =>
      rw [h]
      exact Records.Lasts.push t.store.records _ x r hr
  | @settled al hc h =>
      rw [h]
      exact Store.firstStage_lasts lib t.store al.record x r hr
  | @laid w hc hw h =>
      rw [h]
      change ∃ r', (t.store.records.modify w.record (·.laidDown w.layouts))[x]? = some r' ∧ _
      rw [Array.getElem?_modify, hr]
      split
      · rename_i hx
        exact ⟨_, rfl, hlay w hc hw hx⟩
      · exact ⟨r, rfl, .refl r⟩
  | measured hc hw h =>
      rw [h]
      exact Store.settleTuple_lasts t.store _ x r hr

end TypeRecords
