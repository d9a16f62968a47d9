/-
The store that a step leaves behind.

Where threads keep their promises nothing is lost that was known of layouts
(`Turn.step_lasts`), and walks can go on (`Turn.step_sited`). All that is used
of the promises is what the control goes by: a walk that has come to its end
writes the aggregate of fields that have a layout, what is published as having
a layout has one, and scratch words that are saved confirm what they say.
-/
import TypeRecords.Proofs.Fields.Known
import TypeRecords.Proofs.Fields.Passing

namespace TypeRecords

variable {σ : Type}

namespace Turn

variable {lib : Library σ} {a : Actor} {t t' : Turn σ} {registry : RegistryId}
  {terms : DescriptorId → List Term} {others H' : List Hold}

-- ====================================================== what the control goes by

/-- A walk that has come to its end has passed all its fields. -/
theorem Faithful.walks {w : FieldWalk σ} (ht : t.Faithful lib registry terms t.store)
    (hc : t.control = .lay w) (hw : w.todo = []) :
    ∃ arguments, t.store.Walks lib registry terms w arguments [] := by
  obtain ⟨p, hp, -⟩ := ht
  rw [hc] at hp
  obtain ⟨-, arguments, coming, hwalk⟩ := hp
  have hend := hwalk
  obtain ⟨-, -, -, -, -, -, htodo, -, -, -, -, -, -⟩ := hend
  rw [hw] at htodo
  cases htodo
  exact ⟨arguments, hwalk⟩

/-- The elements that a walk has passed have a layout. -/
theorem Faithful.measures {w : ElementWalk} (ht : t.Faithful lib registry terms t.store)
    (hc : t.control = .measure w) : t.store.Measures registry w := by
  obtain ⟨p, hp, -⟩ := ht
  rw [hc] at hp
  exact hp.2.2

/-- What is published as having a layout has one. -/
theorem Faithful.published {d : Drive} {o : StepOutcome}
    (ht : t.Faithful lib registry terms t.store) (hc : t.control = .publish d o)
    (ho : .layoutComplete ≤ o.stage) : (t.store.records.layoutOf d.record).isSome := by
  obtain ⟨p, hp, -⟩ := ht
  rw [hc] at hp
  exact hp.2.2 ho

/-- The scratch words of what stops confirm what they say. -/
theorem Faithful.suspends {d : Drive} {dep : Dependency}
    (ht : t.Faithful lib registry terms t.store) (hc : t.control = .stopped d dep) :
    t.store.Confirms registry terms d.record d.scratch := by
  obtain ⟨p, hp, -⟩ := ht
  rw [hc] at hp
  exact hp.2

-- ====================================================== records

/-- A structured step loses nothing that is known of layouts. -/
theorem Faithful.records_last (ht : t.Faithful lib registry terms t.store) (h : Writes lib t t')
    (hlib : lib.Structural terms) (hs : t.store.Sited lib registry terms)
    (hlaw : t.control.structured registry t.store = true) :
    t.store.records.Lasts t'.store.records := by
  refine fun x r hr => h.lasts (fun x l k s hc => ?_) hr fun w hc hw hx => ?_
  · rw [hc] at hlaw
    cases hlaw
  · obtain ⟨arguments, hwalk⟩ := ht.walks hc hw
    exact hwalk.lasts_laidDown hlib hs (hx ▸ hr)

/-- Where threads keep their promises a step loses nothing that is known of layouts. -/
theorem step_lasts (h : t.step lib a = some t') (hlib : lib.Structural terms)
    (hs : t.store.Sited lib registry terms) (ht : t.Faithful lib registry terms t.store)
    (ho : t.store.Owned (t.holds a.id ++ others)) (ho' : t'.store.Owned H')
    (hlaw : t.control.structured registry t.store = true) : t.store.Lasts registry t'.store := by
  have hadvances := (step_shift h).advances ho
  exact ⟨hadvances, fun hx => hadvances.stageOf_le hs.sole ho ho' hx,
    ht.records_last (step_writes h) hlib hs hlaw⟩

-- ====================================================== the store afterwards

/-- A record that a request makes has the words its origin calls for, is made of
what the call names, and has no layout if it is to be laid out. -/
theorem made_spec {c : Call} {x : RecordId} {r : Record} (hlib : lib.Structural terms)
    (h : lib.made? c = some r) (hx : x ≠ Records.emptyTuple) :
    r.Shaped lib ∧ r.arguments = c.names ∧ (lib.Composes x r → r.layout = none) := by
  cases c with
  | check record => cases h
  | tuple elements =>
      cases h
      exact ⟨⟨rfl, List.length_replicate ..⟩, rfl, fun _ => rfl⟩
  | generic descriptor arguments =>
      obtain ⟨d, hd, rfl⟩ := Option.map_eq_some_iff.mp h
      refine ⟨⟨d, hd, List.length_replicate ..⟩, rfl, fun hcomposes => ?_⟩
      cases hcomposes with
      | empty hempty => exact (hx hempty).elim
      | tuple horigin => cases horigin
      | struct horigin hd' hc =>
          cases horigin
          obtain rfl := Option.some.inj (hd.symm.trans hd')
          show d.layout.bind Layout.visible? = none
          rw [(hlib hd).layout hc]
          rfl

/-- A record of fields or elements that has a layout after a step, and had none
before, is laid out. -/
theorem Writes.laidOut (h : Writes lib t t') (hlib : lib.Structural terms)
    (hs : t.store.Sited lib registry terms) (ho : t.store.Owned H')
    (ht : t.Faithful lib registry terms t.store)
    (hlaw : t.control.structured registry t.store = true) (hl : t.store.Lasts registry t'.store)
    {x : RecordId} {r r' : Record} (hr : t.store.records[x]? = some r) (hnone : r.layout = none)
    (hr' : t'.store.records[x]? = some r') (hsome : r'.layout.isSome)
    (hx : lib.Composes x r) :
    ∃ fields layouts, t'.store.LaidOut registry terms x fields layouts := by
  have hlt := (Array.getElem?_eq_some_iff.mp hr).1
  have hsame : t.store.records[x]? = some r' → False := fun hr' => by
    obtain rfl := Option.some.inj (hr.symm.trans hr')
    rw [hnone] at hsome
    cases hsome
  cases h with
  | same h => exact (hsame (h ▸ hr')).elim
  | @acted action k s hc h =>
      have hlayout := Store.perform_layout (s := t.store) action (fun y l heq => by
        subst heq
        rw [hc] at hlaw
        cases hlaw) x
      unfold Records.layoutOf at hlayout
      rw [← h, hr', hr, Option.bind_some, Option.bind_some, hnone] at hlayout
      rw [hlayout] at hsome
      cases hsome
  | made hc hmade h =>
      rw [h, Array.getElem?_push, if_neg (Nat.ne_of_lt hlt)] at hr'
      exact (hsame hr').elim
  | @settled al hc h =>
      rw [h] at hr'
      -- only a record without completion is given a layout this way
      obtain ⟨d, hd, hplain⟩ := Store.firstStage_changed hr hnone hr' hsome
      unfold Library.descriptorOf? at hd
      cases hx with
      | struct horigin hd' hstruct =>
          rw [horigin] at hd
          obtain rfl := Option.some.inj (hd.symm.trans hd')
          rw [hplain] at hstruct
          cases hstruct
      | tuple horigin =>
          rw [horigin] at hd
          cases hd
      | empty hempty =>
          subst hempty
          have hlayout := hs.empty
          unfold Records.layoutOf at hlayout
          rw [hr, Option.bind_some, hnone] at hlayout
          cases hlayout
  | @laid w hc hw h =>
      obtain ⟨arguments, hwalk⟩ := ht.walks hc hw
      have hmodify : t'.store.records = t.store.records.modify w.record (·.laidDown w.layouts) := h
      by_cases hxw : w.record = x
      · subst hxw
        rw [hmodify, Array.getElem?_modify, if_pos rfl, hr] at hr'
        obtain rfl := Option.some.inj hr'
        obtain ⟨fields, hlaid⟩ := hwalk.laidOut hlib hs hr hl
          (by rw [hmodify, Array.getElem?_modify, if_pos rfl, hr]; rfl)
        exact ⟨fields, w.layouts, hlaid⟩
      · rw [hmodify, Array.getElem?_modify, if_neg hxw] at hr'
        exact (hsame hr').elim
  | @measured w hc hw h =>
      have hmeasures := ht.measures hc
      by_cases hxw : w.drive.record = x
      · subst hxw
        obtain ⟨r'', past, hr'', horigin, hpast, hreached⟩ := hmeasures
        obtain rfl := Option.some.inj (hr.symm.trans hr'')
        rw [hw, List.append_nil] at hpast
        exact Store.settleTuple_laidOut hs hr horigin
          (fun y hy => hs.layout_isSome ho (hreached y (hpast ▸ hy))) hnone hl h
      · rw [h] at hr'
        unfold settleTuple at hr'
        split at hr'
        · exact (hsame hr').elim
        · change (t.store.records.modify w.drive.record _)[x]? = some r' at hr'
          rw [Array.getElem?_modify, if_neg hxw] at hr'
          exact (hsame hr').elim

/-- A step that keeps to what is said about it leaves a store in which walks can
go on. -/
theorem step_sited (h : t.step lib a = some t') (hlib : lib.Structural terms)
    (hs : t.store.Sited lib registry terms) (ht : t.Faithful lib registry terms t.store)
    (ho : t.store.Owned (t.holds a.id ++ others))
    (hlaw : t.control.structured registry t.store = true)
    (hl : t.store.Lasts registry t'.store) : t'.store.Sited lib registry terms := by
  have hshift := step_shift h
  have hwrites := step_writes h
  have hrecord : ∀ {x : RecordId} {r' : Record}, t'.store.records[x]? = some r' →
      (∃ r, t.store.records[x]? = some r ∧ r.Lasts r')
        ∨ ∃ c, (∀ y ∈ c.names, t.store.isUsable y = true) ∧ lib.made? c = some r'
          ∧ x ≠ Records.emptyTuple := by
    intro x r' hr'
    refine (hwrites.record hl.records hr').imp_right ?_
    rintro ⟨registry', q, c, k, s, hc, hmade, rfl⟩
    rw [hc] at hlaw
    refine ⟨c, List.all_eq_true.mp (Bool.and_eq_true_iff.mp hlaw).2, hmade, fun hx => ?_⟩
    exact Nat.ne_of_gt (Store.lt_size_of_usable hs.empty_usable) hx
  refine {
    sole := hshift.sole hs.sole fun registry' q c k set hc => ?_
    empty := hl.layout_isSome hs.empty
    keyless := ?_
    arguments := fun {x y r'} hr' horigin hy => ?_
    shaped := fun {x r'} hr' => ?_
    ready := step_known h ho hs.ready fun _ _ hc hstage => ht.published hc hstage
    plain := step_planned h ho hs.plain
    laid := fun {x r'} hr' hsome hx => ?_
    saved := fun {i e' x words} he' hr' hwords => ?_ }
  · rw [hc] at hlaw
    exact beq_iff_eq.mp (Bool.and_eq_true_iff.mp hlaw).1
  · rw [hl.advances.grows.keyOf_of_lt (Store.lt_size_of_usable hs.empty_usable)]
    exact hs.keyless
  · rcases hrecord hr' with ⟨r, hr, hlasts⟩ | ⟨c, hnames, hmade, hne⟩
    · rw [hlasts.arguments] at hy
      exact hl.usable (hs.arguments hr (hlasts.origin ▸ horigin) hy)
    · rw [(made_spec hlib hmade hne).2.1] at hy
      exact hl.usable (hnames y hy)
  · rcases hrecord hr' with ⟨r, hr, hlasts⟩ | ⟨c, -, hmade, hne⟩
    · exact hlasts.shaped (hs.shaped hr)
    · exact (made_spec hlib hmade hne).1
  · rcases hrecord hr' with ⟨r, hr, hlasts⟩ | ⟨c, -, hmade, hne⟩
    · have hx' := hx.congr hlasts.origin.symm
      cases hlayout : r.layout with
      | none => exact hwrites.laidOut hlib hs ho ht hlaw hl hr hlayout hr' hsome hx'
      | some l =>
          obtain ⟨fields, layouts, hlaid⟩ := hs.laid hr (hlayout ▸ rfl) hx'
          exact ⟨fields, layouts, hl.laidOut hlaid⟩
    · rw [(made_spec hlib hmade hne).2.2 hx] at hsome
      cases hsome
  · rcases hshift.saved ho he' hwords with ⟨e, he, hsaved, hrecord'⟩ | ⟨d, dep, hc, hd, rfl⟩
    · exact hl.confirms (hs.saved he (hrecord'.trans hr') hsaved)
    · obtain rfl := Option.some.inj (hd.symm.trans hr')
      exact hl.confirms (ht.suspends hc)

end Turn

end TypeRecords
