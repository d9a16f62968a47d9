/-
Two ways around the search for an unfinished record.

The search goes through all that a record leads to. Where less will do it is
not asked: a fresh record that refers only to records that were there from the
start is finished at once, and so is a tuple all of whose elements were seen in
the last stage. `Machine.Run.shortcuts_agree` says that nothing is lost by
this. The shortcut and the search come to the same result, in whatever state
the other records are.

# A look at what a record refers to

Records that were there from the start are in the last stage, and so are those
that a walk over the elements of a tuple has seen in it. The search goes no
further than such records (`Graph.Reaches.complete`), so it finds nothing.

# A walk over the elements

While no other thread goes on, the walk sees each element in the stage that it
is in (`Turn.leads_measure`). An element that is not finished for itself stops
the tuple, and the search would have come to it: the tuple refers to it, and
it is not the tuple itself, since elements are older than what they are
elements of (`Store.Tiered`). If there is none the search is asked.
-/
import TypeRecords.Proofs.Finishing.Concluding
import TypeRecords.Proofs.Finishing.Reaching

namespace TypeRecords

variable {σ : Type}

-- ====================================================== the same graph

namespace Store

variable {s s' : Store} {registry : RegistryId}

theorem Alike.stageOf (h : s.Alike s') (registry : RegistryId) (x : RecordId) :
    s'.stageOf registry x = s.stageOf registry x := by
  unfold Store.stageOf
  rw [h.entryOf?, h.entries]

theorem argumentsOf_congr (h : s'.outlines = s.outlines) (x : RecordId) :
    s'.records.argumentsOf x = s.records.argumentsOf x := by
  have heq : ∀ s : Store,
      s.records.argumentsOf x = ((s.outlines[x]?).map Record.arguments).getD [] := by
    intro s
    rw [outlines_getElem?]
    unfold Records.argumentsOf
    cases s.records[x]? <;> rfl
  rw [heq, heq, h]

/-- What a search sees of a store are the stages and the outlines. -/
theorem graph_congr (h : s.Alike s') (ho : s'.outlines = s.outlines) (registry : RegistryId) :
    s'.graph registry = s.graph registry := by
  unfold graph
  rw [h.records_size, funext (referents_congr ho), funext (h.stageOf registry)]

end Store

-- ====================================================== nothing to search for

namespace Search

variable {g : Graph} {initial x : RecordId}

/-- Nothing is reached through records in the last stage. -/
theorem Graph.Reaches.complete (hall : ∀ y ∈ g.referents initial, g.stage y = .complete)
    (h : g.Reaches initial x) : g.stage x = .complete := by
  induction h with
  | direct hx => exact hall _ hx
  | further _ hstage _ ih => cases hstage.symm.trans ih

theorem unfinished_of_complete (hall : ∀ y ∈ g.referents initial, g.stage y = .complete) :
    unfinished g initial = none := by
  cases hfound : unfinished g initial with
  | none => rfl
  | some dep =>
      obtain ⟨-, -, hreach, hstage⟩ := unfinished_found hfound
      rw [hreach.complete hall] at hstage
      exact absurd hstage (by decide)

end Search

/-- A record that was there from the start is in the last stage. -/
theorem Store.stageOf_of_isFixed {s : Store} {x : RecordId} (h : s.isFixed x = true)
    (registry : RegistryId) : s.stageOf registry x = .complete := by
  refine stageOf_of_none ?_
  rw [entryOf?_eq, keyOf_of_isFixed h]
  rfl

/-- What refers only to records that were there from the start has nothing to
wait for. -/
theorem Store.unfinished?_of_refersToFixed {s : Store} {x : RecordId}
    (h : s.refersToFixed x = true) (registry : RegistryId) :
    s.unfinished? registry x = none :=
  Search.unfinished_of_complete fun y hy =>
    Store.stageOf_of_isFixed (List.all_eq_true.mp h y hy) registry

-- ====================================================== elements are older

theorem Record.referents_of_tuple {r : Record} (h : r.kind = .tuple) :
    r.referents = r.arguments := by
  unfold Record.referents
  rw [h]

/-- A tuple refers to its elements alone, and they were there before it. -/
def Store.Tiered (s : Store) : Prop :=
  ∀ (x : RecordId) (r : Record), s.outlines[x]? = some r → r.origin = .tuple →
    r.kind = .tuple ∧ ∀ y ∈ r.arguments, y < x

namespace Turn

variable {lib : Library σ} {a : Actor} {t t' : Turn σ}

theorem Redraws.tiered (h : t.Redraws t') (hs : t.store.Tiered)
    (hnames : ∀ y ∈ t.control.names, y < t.store.records.size) : t'.store.Tiered := by
  intro x r hr horigin
  cases h with
  | same h => exact hs x r (h ▸ hr) horigin
  | superclass hc h =>
      rw [h, List.getElem?_modify] at hr
      obtain ⟨old, hold, rfl⟩ := Option.map_eq_some_iff.mp hr
      have hkept := hs x old hold (by split at horigin <;> exact horigin)
      split <;> exact hkept
  | made hc hrefs htuple h =>
      rw [h] at hr
      rcases Nat.lt_or_ge x t.store.outlines.length with hlt | hge
      · rw [List.getElem?_append_left hlt] at hr
        exact hs x r hr horigin
      · rw [List.getElem?_append_right hge] at hr
        obtain rfl := List.mem_singleton.mp (List.mem_of_getElem? hr)
        refine ⟨htuple horigin, fun y hy => ?_⟩
        rw [Store.length_outlines] at hge
        refine Nat.lt_of_lt_of_le (hnames y ?_) hge
        rw [hc]
        show y ∈ Call.names _
        rw [← hrefs, Record.referents_of_tuple (htuple horigin)]
        exact hy

end Turn

namespace Machine

variable {lib : Library σ} {start m m' : Machine σ} {t : ThreadId}

theorem step_tiered (h : m.step lib t = some m') (hs : m.store.Tiered) (hg : m.Grounded) :
    m'.store.Tiered := by
  obtain ⟨-, thread, hthread, hstepped⟩ := step_cases h
  cases hstepped with
  | alone hturn =>
      exact (Turn.step_outlines hturn).tiered hs (hg thread (Array.mem_of_getElem? hthread))
  | program p' started hc hp hstore hthreads hnew =>
      rw [hstore]
      exact hs

theorem Run.tiered (hf : start.Fresh) (h : Run lib (fun m _ => m.Grounded) start m) :
    m.store.Tiered := by
  induction h with
  | refl =>
      intro x r hr horigin
      rw [Store.outlines_getElem?] at hr
      obtain ⟨old, hold, rfl⟩ := Option.map_eq_some_iff.mp hr
      have hfixed : old.origin = .tuple := horigin
      rw [hf.fixed old (Array.mem_of_getElem? hold)] at hfixed
      cases hfixed
  | step t h hg hs ih => exact step_tiered hs ih hg

end Machine

-- ====================================================== what a tuple's step comes to

/-- Whoever looks at an allocated entry without wanting to wait is told. -/
theorem Entry.Sound.look_poll {e : Entry} (hs : e.Sound) {x : RecordId} (hr : e.record = some x)
    (thread : ThreadId) (stage : Stage) :
    e.look thread (.poll stage) = .answer ⟨x, e.stage⟩ := by
  unfold Entry.look
  rw [hs.snapshot hr]
  rfl

namespace Turn

variable {lib : Library σ} {a : Actor} {t t' : Turn σ}

/-- What a thread comes to while no other thread goes on, up to where it has the
outcome of a step. -/
abbrev Leads (lib : Library σ) (a : Actor) : Turn σ → Turn σ → Prop :=
  Relation.ReflTransGen fun t t' =>
    (∀ d o, t.control ≠ .publish d o) ∧ t.step lib a = some t'

section Walk

variable (hsound : ∀ {i : EntryId} {e : Entry}, t.store.entries[i]? = some e → e.Sound)
include hsound

/-- One element. The registry keeps it, or it is finished. -/
theorem leads_element {w : ElementWalk} {x : RecordId} {rest : List RecordId}
    (hc : t.control = .measure w) (htodo : w.todo = x :: rest)
    (hx : .layoutComplete ≤ t.store.stageOf w.drive.registry x) :
    t.Leads lib a (t.goto (.measure { w with
      todo := rest, stages := w.stages ++ [t.store.stageOf w.drive.registry x] })) := by
  -- the answer is handed to the walk, which goes on
  have hgive : ∀ y, Leads lib a
      (t.push (.measuring w) (.give (.response ⟨y, t.store.stageOf w.drive.registry x⟩) .nothing))
      (t.goto (.measure { w with
        todo := rest, stages := w.stages ++ [t.store.stageOf w.drive.registry x] })) := by
    intro y
    have hsat : (t.store.stageOf w.drive.registry x).satisfies .layoutComplete = true :=
      decide_eq_true hx
    refine .single ⟨nofun, ?_⟩
    show some (measured _ w ⟨y, _⟩) = _
    unfold measured
    rw [htodo]
    simp only [hsat, if_true]
    rfl
  have hmeasure : t.step lib a
      = some (consult { t with frames := .measuring w :: t.frames } w.drive.registry
        (.poll .layoutComplete) x) := by
    unfold step
    rw [hc]
    show some (t.measure w) = _
    unfold measure
    rw [htodo, hc]
  refine .head ⟨by rw [hc]; nofun, hmeasure⟩ ?_
  unfold consult
  cases hi : t.store.entryOf? w.drive.registry x with
  | none =>
      have hlast := hgive x
      rw [Store.stageOf_of_none hi] at hlast ⊢
      exact hlast
  | some i =>
      obtain ⟨e, he, -⟩ := Store.entryOf?_some hi
      have hstage := Store.stageOf_entry hi he (hsound he)
      cases hr : e.record with
      | none =>
          rw [hstage, ((hsound he).blank hr).1] at hx
          exact absurd hx (by decide)
      | some y =>
          refine .head ⟨nofun, ?_⟩ (hgive y)
          show await _ a _ i _ = _
          simp only [await, goto, he, (hsound he).look_poll hr, hstage]
          rfl

/-- All elements that are still to come, each in the stage that it is in. -/
theorem leads_measure {w : ElementWalk} (hc : t.control = .measure w)
    (hall : ∀ x ∈ w.todo, .layoutComplete ≤ t.store.stageOf w.drive.registry x) :
    t.Leads lib a (t.goto (.measure { w with
      todo := [], stages := w.stages ++ w.todo.map (t.store.stageOf w.drive.registry) })) := by
  obtain ⟨d, todo, stages⟩ := w
  induction todo generalizing t stages with
  | nil =>
      rw [List.map_nil, List.append_nil, ← hc]
      exact .refl
  | cons x rest ih =>
      refine (leads_element hsound hc rfl (hall x List.mem_cons_self)).trans ?_
      have hrest := ih (t := t.goto (.measure ⟨d, rest, stages ++ [t.store.stageOf d.registry x]⟩))
        hsound _ rfl fun y hy => hall y (List.mem_cons_of_mem _ hy)
      rw [List.append_assoc] at hrest
      exact hrest

/-- The whole step. Only the tuple's layout and the ledger change. -/
theorem leads_tuple {d : Drive} {r : Record} (hc : t.control = .begin d)
    (hr : t.store.records[d.record]? = some r) (horigin : r.origin = .tuple)
    (hall : ∀ x ∈ r.arguments, .layoutComplete ≤ t.store.stageOf d.registry x) :
    ∃ s, t.store.Alike s ∧ s.outlines = t.store.outlines
      ∧ t.Leads lib a ⟨s, t.shared,
        .publish d (tupleOutcome s d (r.arguments.map (s.stageOf d.registry))), t.frames⟩ := by
  let noted := t.store.note d.registry fun l => { l with steps := l.steps + 1 }
  let s := settleTuple noted d.record
  have hnoted : t.store.Alike noted := Store.alike_note ..
  have hs : noted.Alike s := alike_settleTuple ..
  refine ⟨s, hnoted.trans hs, settleTuple_outlines .., ?_⟩
  let walking : Turn σ := ⟨noted, t.shared, .measure ⟨d, r.arguments, []⟩, t.frames⟩
  have hbegin : t.step lib a = some walking := by
    unfold step
    rw [hc]
    show t.begin lib d = _
    have hthere : noted.records[d.record]? = some r := hr
    simp only [begin, noted] at hthere ⊢
    rw [hthere]
    simp only [horigin]
    rfl
  have hwalk : walking.Leads lib a _ := leads_measure (t := walking) hsound rfl fun x hx => by
    rw [show walking.store = noted from rfl, hnoted.stageOf]
    exact hall x hx
  refine .head ⟨by rw [hc]; nofun, hbegin⟩ (hwalk.tail ⟨nofun, ?_⟩)
  rw [funext (hs.stageOf d.registry)]
  rfl

end Walk

/-- A tuple's step once it has seen all elements in the stages that they are
in. An element that is not finished for itself is one that the search comes to,
too. -/
theorem tupleOutcome_of_stages {s : Store} {d : Drive} {elements : List RecordId}
    (hx : d.record < s.records.size) (hargs : s.records.argumentsOf d.record = elements)
    (hrefs : s.records.referents d.record = elements) (hold : ∀ y ∈ elements, y < d.record) :
    (tupleOutcome s d (elements.map (s.stageOf d.registry)) = .finished
        ∧ s.unfinished? d.registry d.record = none)
      ∨ ∃ y, tupleOutcome s d (elements.map (s.stageOf d.registry))
            = .blocked .nonTransitive ⟨y, .nonTransitive⟩
          ∧ y ≠ d.record ∧ (s.graph d.registry).Reaches d.record y
          ∧ s.stageOf d.registry y < .nonTransitive
          ∧ s.unfinished? d.registry d.record ≠ none := by
  simp only [tupleOutcome, hargs]
  split
  · rename_i hall
    refine .inl ⟨rfl, Search.unfinished_of_complete fun y hy => ?_⟩
    have hmem : y ∈ elements := hrefs ▸ hy
    exact of_decide_eq_true (List.all_eq_true.mp hall _ (List.mem_map_of_mem hmem))
  · split
    · rename_i y stage hfind
      obtain ⟨i, hi⟩ := List.mem_iff_getElem?.mp (List.mem_of_find?_eq_some hfind)
      obtain ⟨hy, hstage⟩ := List.getElem?_zip_eq_some.mp hi
      rw [List.getElem?_map, hy] at hstage
      obtain rfl : s.stageOf d.registry y = stage := Option.some.inj hstage
      have hmem := List.mem_of_getElem? hy
      have hbelow : s.stageOf d.registry y < .nonTransitive :=
        of_decide_eq_true (List.find?_some hfind :)
      have hne : y ≠ d.record := Nat.ne_of_lt (hold y hmem)
      have hdirect : y ∈ (s.graph d.registry).referents d.record := by
        rw [show (s.graph d.registry).referents d.record = elements from hrefs]
        exact hmem
      refine .inr ⟨y, rfl, hne, .direct hdirect, hbelow, fun hnone => ?_⟩
      obtain ⟨met, hfirst, hmet⟩ := Search.unfinished_none hnone
      rcases hmet y (hfirst y hdirect (Nat.lt_trans (hold y hmem) hx)) with heq | hdone | ⟨hself, -⟩
      · exact hne heq
      · rw [show s.stageOf d.registry y = .complete from hdone] at hbelow
        exact absurd hbelow (by decide)
      · exact Nat.not_le_of_lt hbelow hself
    · unfold closing
      cases hsearch : s.unfinished? d.registry d.record with
      | none => exact .inl ⟨rfl, rfl⟩
      | some dep =>
          obtain ⟨target, required⟩ := dep
          obtain ⟨hreq, hne, hreach, hstage⟩ := Search.unfinished_found hsearch
          obtain rfl : required = .nonTransitive := hreq
          exact .inr ⟨target, rfl, hne, hreach, hstage, Option.some_ne_none _⟩

end Turn

-- ====================================================== in a process

namespace Machine

variable {lib : Library σ} {start m : Machine σ}

/-- Wherever a process gets to, a shortcut and the search come to the same
result:

- what refers only to records that were there from the start has nothing to
  wait for;
- the step of a tuple whose elements all have a layout, with no other thread
  going on, comes to its end without changing anything that the search sees. It
  finishes the tuple exactly when the search on the tuple finds nothing.
  Otherwise the tuple is finished for itself, and waits for another record that
  it leads to and that is not. -/
theorem Run.shortcuts_agree (hf : start.Fresh) (h : Run lib (fun m _ => m.Grounded) start m)
    (registry : RegistryId) :
    (∀ x, m.store.refersToFixed x = true → m.store.unfinished? registry x = none)
    ∧ ∀ (t : Turn σ) (a : Actor) (d : Drive) (r : Record), t.store = m.store →
      t.control = .begin d → d.registry = registry → m.store.records[d.record]? = some r →
      r.origin = .tuple → (∀ y ∈ r.arguments, .layoutComplete ≤ m.store.stageOf registry y) →
      ∃ t' o, t.Leads lib a t' ∧ t'.control = .publish d o ∧ t'.frames = t.frames
        ∧ t'.store.graph registry = m.store.graph registry
        ∧ (o = .finished ↔ m.store.unfinished? registry d.record = none)
        ∧ (o ≠ .finished → ∃ y, o = .blocked .nonTransitive ⟨y, .nonTransitive⟩ ∧ y ≠ d.record
          ∧ (m.store.graph registry).Reaches d.record y
          ∧ m.store.stageOf registry y < .nonTransitive) := by
  refine ⟨fun x hx => Store.unfinished?_of_refersToFixed hx registry, ?_⟩
  rintro t a d r hstore hc rfl hr horigin hall
  obtain ⟨hkind, hold⟩ := h.tiered hf d.record r.outline
    (by rw [Store.outlines_getElem?, hr]; rfl) horigin
  have hrefs : m.store.records.referents d.record = r.arguments := by
    unfold Records.referents
    rw [hr]
    exact Record.referents_of_tuple hkind
  have hargs : m.store.records.argumentsOf d.record = r.arguments := by
    unfold Records.argumentsOf
    rw [hr]
  have hsound : ∀ {i : EntryId} {e : Entry}, t.store.entries[i]? = some e → e.Sound :=
    fun he => (h.reachable.owned hf).sound (hstore ▸ he)
  obtain ⟨s, hs, hlines, hleads⟩ : ∃ s, t.store.Alike s ∧ s.outlines = t.store.outlines
      ∧ t.Leads lib a ⟨s, _, _, _⟩ :=
    Turn.leads_tuple hsound hc (hstore ▸ hr) horigin (hstore ▸ hall)
  rw [hstore] at hs hlines
  have hgraph := Store.graph_congr hs hlines d.registry
  have hsearch : s.unfinished? d.registry d.record = m.store.unfinished? d.registry d.record :=
    congrArg (Search.unfinished · d.record) hgraph
  refine ⟨_, _, hleads, rfl, rfl, hgraph, ?_⟩
  rcases Turn.tupleOutcome_of_stages (s := s) (d := d)
      (hs.records_size ▸ (Array.getElem?_eq_some_iff.mp hr).1)
      ((Store.argumentsOf_congr hlines d.record).trans hargs)
      ((Store.referents_congr hlines d.record).trans hrefs) hold with
    ⟨hout, hnone⟩ | ⟨y, hout, hne, hreach, hstage, hsome⟩
  · rw [hsearch] at hnone
    exact ⟨iff_of_true hout hnone, fun h => (h hout).elim⟩
  · rw [hsearch] at hsome
    rw [hgraph] at hreach
    rw [hs.stageOf] at hstage
    refine ⟨iff_of_false (fun h => ?_) hsome, fun _ => ⟨y, hout, hne, hreach, hstage⟩⟩
    cases hout.symm.trans h

/-- A box that waits for its lid, and a lid that asks for a pair of the box and
another record while the box has a layout and no more. -/
def lidded : Library Unit :=
  { bare with
    descriptors := #[
      { name := "Box"
        kind := .struct
        parameters := 0
        fields := []
        layout := none
        words := []
        instantiate := none
        completion := some (.callback fun registry record =>
          .scratch (·.map (· + 1)) fun w =>
            if w.contains 1 then
              .request registry (.poll .complete) (.generic 1 []) fun r =>
                .act (.publish record (.scalar 8)) fun _ => .done (some ⟨r.record, .complete⟩)
            else .done none) },
      { name := "Lid"
        kind := .struct
        parameters := 0
        fields := []
        layout := none
        words := []
        instantiate := none
        completion := some (.callback fun registry _ =>
          .scratch (·.map (· + 1)) fun w =>
            .request registry (.poll .complete) (.generic 0 []) fun r =>
              if w.contains 1 then .done (some ⟨r.record, .layoutComplete⟩)
              else .request registry (.poll .complete) (.tuple [r.record, 0]) fun _ =>
                .done none) }] }

/-- The step of the pair comes upon the box. -/
theorem Run.shortcuts_agree_lidded :
    ∃ (start m : Machine Unit) (t t' : Turn Unit) (d : Drive) (r : Record), start.Fresh
      ∧ Run lidded (fun m _ => m.Grounded) start m ∧ t.store = m.store ∧ t.control = .begin d
      ∧ m.store.records[d.record]? = some r ∧ r.origin = .tuple
      ∧ (∀ y ∈ r.arguments, .layoutComplete ≤ m.store.stageOf 0 y)
      ∧ t.Leads lidded ⟨0, "main"⟩ t'
      ∧ ∃ y, t'.control = .publish d (.blocked .nonTransitive ⟨y, .nonTransitive⟩) := by
  let start : Machine Unit :=
    launch .standard () (.request 0 (.poll .complete) (.generic 0 []) fun _ => .done ())
  have hfresh : start.Fresh := fresh_launch _ () _
  obtain ⟨m, hrun, htuple, hsearch⟩ : ∃ m : Machine Unit,
      Run lidded (fun m _ => m.Grounded) start m
        ∧ (m.store.records[12]?).any (fun r : Record => decide (r.origin = .tuple
          ∧ ∀ y ∈ r.arguments, .layoutComplete ≤ m.store.stageOf 0 y)) = true
        ∧ m.store.unfinished? 0 12 ≠ none :=
    ⟨start.walk lidded 30, .walk (by decide +kernel), by decide +kernel, by decide +kernel⟩
  obtain ⟨r, hr, hd⟩ := (Option.any_eq_true ..).mp htuple
  obtain ⟨horigin, hall⟩ := of_decide_eq_true hd
  let d : Drive := ⟨0, 2, 12, .poll .complete, .abstract, .zero⟩
  obtain ⟨t', o, hleads, hc', -, -, hfinished, hblocked⟩ :=
    (Run.shortcuts_agree hfresh hrun 0).2 ⟨m.store, (), .begin d, []⟩ ⟨0, "main"⟩ d r rfl rfl rfl hr
      horigin hall
  obtain ⟨y, rfl, -⟩ := hblocked fun h => hsearch (hfinished.mp h)
  exact ⟨start, m, _, t', d, r, hfresh, hrun, rfl, rfl, hr, horigin, hall, hleads, y, hc'⟩

end Machine

end TypeRecords
