/-
Layouts are right wherever they can be seen.

A record that is completed by laying out its fields, or a tuple, that has come
to the stage where it is finished for itself is laid out: its offsets are
those of the aggregate of its fields' layouts, and its layout is that of the
aggregate, or a reference for a class. The layouts of the fields are the ones
they have at that moment, and all of this stays as it is for the rest of the
run (`Run.struct_layout`). Fields may be of any type that is made from the
arguments, to any depth, and there may be any number of threads; faults may
unwind.

# What programs have to keep to

Records are completed by laying out their fields, or need no completion, and
nothing runs when one is made (`Library.Structural`); programs make their
requests in one registry, name records it has made or that have a layout, and
leave it to the registry to lay records out (`Control.structured`).

# The argument

Each thread keeps its promises (`Turn.Faithful.step`), so the store stays one
that walks can rely on (`Turn.step_sited`), and none of them disturbs what the
others go by, since nothing is lost that was known (`Turn.step_lasts`).
-/
import TypeRecords.Proofs.Fields.Siting

namespace TypeRecords

variable {σ : Type}

namespace Turn

variable {lib : Library σ} {t t' : Turn σ} {registry : RegistryId}
  {terms : DescriptorId → List Term}

/-- A thread that has just been started owes nothing. -/
theorem Faithful.start {p : Program σ Value} {s : Setting σ} {store : Store}
    (hc : t.control = .run p s) (hf : t.frames = []) : t.Faithful lib registry terms store := by
  refine ⟨.free, ?_, hf ▸ trivial⟩
  rw [hc]
  exact ⟨trivial, fun _ _ _ => trivial⟩

/-- What a program goes on as comes to what the program would have come to. -/
theorem met_of_resumes {p p' : Program σ Value} {promise : Promise} {s : Store}
    (hp : Machine.Resumes p p') (h : promise.Met registry s p.Fetches) :
    promise.Met registry s p'.Fetches := by
  cases hp with
  | spawn name body k t => exact h.imp fun _ _ hk => hk t
  | join other k => exact h
  | settle other k b => exact h.imp fun _ _ hk => hk b

theorem Faithful.program {p p' : Program σ Value} {s : Setting σ} {store : Store}
    (ht : t.Faithful lib registry terms store) (hc : t.control = .run p s)
    (hp : Machine.Resumes p p') (hc' : t'.control = .run p' s) (hf : t'.frames = t.frames) :
    t'.Faithful lib registry terms store := by
  obtain ⟨promise, howes, hfs⟩ := ht
  rw [hc] at howes
  refine ⟨promise, ?_, hf ▸ hfs⟩
  rw [hc']
  exact ⟨met_of_resumes hp howes.1, howes.2⟩

end Turn

namespace Machine

variable {lib : Library σ} {start m m' : Machine σ} {registry : RegistryId}
  {terms : DescriptorId → List Term} {t : ThreadId}

/-- The step of thread `t` keeps to one registry, to what is usable, and leaves
layouts to the registry. -/
def Structured (registry : RegistryId) (m : Machine σ) (t : ThreadId) : Prop :=
  ∀ thread ∈ m.threads[t]?, thread.control.structured registry m.store = true

instance (registry : RegistryId) (m : Machine σ) (t : ThreadId) :
    Decidable (m.Structured registry t) :=
  inferInstanceAs (Decidable (∀ thread ∈ m.threads[t]?, _ = _))

/-- Walks can rely on the store, and all threads keep their promises. -/
structure Faithful (lib : Library σ) (registry : RegistryId) (terms : DescriptorId → List Term)
    (m : Machine σ) : Prop where
  sited : m.store.Sited lib registry terms
  threads : ∀ {u : ThreadId} {thread : Thread σ}, m.threads[u]? = some thread →
    (m.turn thread).Faithful lib registry terms m.store

theorem Faithful.step (hm : m.Faithful lib registry terms) (h : m.step lib t = some m')
    (hlib : lib.Structural terms) (hlaw : m.Structured registry t)
    (ho : m.store.Owned m.holds) :
    m.store.Lasts registry m'.store ∧ m'.Faithful lib registry terms := by
  have ho' := step_owned h ho
  -- either one thread has stepped by itself, or the store is what it was
  obtain ⟨hl, hs'⟩ : m.store.Lasts registry m'.store ∧ m'.store.Sited lib registry terms := by
    obtain ⟨-, thread, hthread, hs⟩ := step_cases h
    cases hs with
    | @alone turn hturn =>
        have hown := ho.perm (holds_split hthread).symm
        have hl := Turn.step_lasts hturn hlib hm.sited (hm.threads hthread) hown ho'
          (hlaw thread hthread)
        exact ⟨hl, Turn.step_sited hturn hlib hm.sited (hm.threads hthread) hown
          (hlaw thread hthread) hl⟩
    | program p' started hc hp hstore hthreads hnew =>
        rw [hstore]
        exact ⟨.refl registry m.store, hm.sited⟩
  refine ⟨hl, hs', fun hu => step_threads (P := fun t => t.Faithful lib registry terms t.store) h
    (fun {thread turn} hthread hturn hstore => ?_)
    (fun hthread hc hp hstore => ?_) (fun hu => (hm.threads hu).lasts hl)
    (fun hframes ⟨p, s, hrun⟩ => .start hrun hframes) hu⟩
  · rw [hstore] at hl hs' ho'
    exact (hm.threads hthread).step hturn hlib hm.sited hs' (ho.perm (holds_split hthread).symm)
      ho' (hlaw thread hthread) hl
  · exact ((hm.threads hthread).lasts hl).program hc hp rfl rfl

theorem Fresh.faithful (hf : start.Fresh)
    (hempty : start.store.records[Records.emptyTuple]? = some .emptyTuple)
    (registry : RegistryId) : start.Faithful lib registry terms := by
  have hno : ∀ {i : EntryId} {e : Entry}, start.store.entries[i]? ≠ some e := by simp [hf.entries]
  have hfixed : ∀ {x : RecordId} {r : Record}, start.store.records[x]? = some r →
      r.origin = .fixed := fun hr => hf.fixed _ (Array.mem_of_getElem? hr)
  refine ⟨{
    sole := hf.sole registry
    empty := by
      unfold Records.layoutOf
      rw [hempty]
      rfl
    keyless := hf.keyOf_none _
    arguments := fun hr horigin _ => (horigin (hfixed hr)).elim
    shaped := fun {x r} hr => by
      unfold Record.Shaped
      rw [hfixed hr]
      trivial
    ready := fun he => (hno he).elim
    plain := fun he => (hno he).elim
    laid := fun {x r} hr _ hx => ?_
    saved := fun he => (hno he).elim }, fun {u thread} hu => ?_⟩
  · cases hx with
    | struct horigin _ _ => rw [hfixed hr] at horigin; cases horigin
    | tuple horigin => rw [hfixed hr] at horigin; cases horigin
    | empty hx =>
        subst hx
        exact ⟨[], [], _, hempty, rfl, rfl, rfl, rfl⟩
  · obtain ⟨hframes, p, s, hrun⟩ := hf.running thread (Array.mem_of_getElem? hu)
    exact .start hrun hframes

theorem Run.faithful (hlib : lib.Structural terms) (hf : start.Fresh)
    (hempty : start.store.records[Records.emptyTuple]? = some .emptyTuple)
    (h : Run lib (fun m t => m.Structured registry t) start m) :
    m.Faithful lib registry terms := by
  induction h with
  | refl => exact hf.faithful hempty registry
  | step t h hlaw hs ih => exact (ih.step hs hlib hlaw (h.reachable.owned hf)).2

/-- However far a run goes on, nothing is lost that was known of layouts. -/
theorem Run.lasts (hlib : lib.Structural terms) (hf : start.Fresh)
    (hempty : start.store.records[Records.emptyTuple]? = some .emptyTuple)
    (h : Run lib (fun m t => m.Structured registry t) start m)
    (h' : Run lib (fun m t => m.Structured registry t) m m') :
    m.store.Lasts registry m'.store := by
  have hm := h.faithful hlib hf hempty
  suffices hboth : m.store.Lasts registry m'.store ∧ m'.Faithful lib registry terms from hboth.1
  induction h' with
  | refl => exact ⟨.refl registry m.store, hm⟩
  | step t h' hlaw hs ih =>
      obtain ⟨hl, hfaithful⟩ := ih
      obtain ⟨hl', hfaithful'⟩ :=
        hfaithful.step hs hlib hlaw ((h.reachable.trans h'.reachable).owned hf)
      exact ⟨hl.trans hl', hfaithful'⟩

/-- Layouts are right as soon as they can be relied on. Take a record that is
completed by laying out its fields, or a tuple, at a moment of a run when its
stage says that it is finished for itself. Its fields have records and these
have layouts; its offsets are those of their aggregate, in the order of the
fields, and so is its layout, but that a class is laid out as a reference. At
every later moment it has the same fields, and they have the same layouts, and
all of this is so. -/
theorem Run.struct_layout (hlib : lib.Structural terms) (hf : start.Fresh)
    (hempty : start.store.records[Records.emptyTuple]? = some .emptyTuple)
    (h : Run lib (fun m t => m.Structured registry t) start m) {x : RecordId} {r : Record}
    (hr : m.store.records[x]? = some r) (hx : lib.Composes x r)
    (hs : .nonTransitive ≤ m.store.stageOf registry x) :
    ∃ fields layouts, ∀ m', Run lib (fun m t => m.Structured registry t) m m' →
      m'.store.LaidOut registry terms x fields layouts := by
  have hm := h.faithful hlib hf hempty
  have husable : m.store.isUsable x = true := by
    have hkeyed : r.key?.isSome → m.store.isUsable x = true := fun hk => by
      unfold Store.isUsable
      rw [hr, Option.any_some, hk]
      rfl
    cases hx with
    | struct ho hd hc => exact hkeyed (by unfold Record.key?; rw [ho]; rfl)
    | tuple ho => exact hkeyed (by unfold Record.key?; rw [ho]; rfl)
    | empty hx => exact hx ▸ hm.sited.empty_usable
  have hlayout := hm.sited.layout_isSome (h.reachable.owned hf)
    ⟨husable, Nat.le_trans (by decide : Stage.layoutComplete ≤ .nonTransitive) hs⟩
  unfold Records.layoutOf at hlayout
  rw [hr, Option.bind_some] at hlayout
  obtain ⟨fields, layouts, hlaid⟩ := hm.sited.laid hr hlayout hx
  exact ⟨fields, layouts, fun m' h' => (h.lasts hlib hf hempty h').laidOut hlaid⟩

/-- A struct of two fields of its parameter, and a class that has a point of
pairs: its accessor requests the pair first. -/
def nodes : Library Unit :=
  { bare with
    descriptors := #[
      { name := "Point"
        kind := .struct
        parameters := 1
        fields := [⟨"x", .argument 0⟩, ⟨"y", .argument 0⟩]
        layout := none
        words := []
        instantiate := none
        completion := some .structLayout },
      { name := "Node"
        kind := .object
        parameters := 1
        fields := [
          ⟨"tag", .fixed 0⟩,
          ⟨"place", .computed fun registry q arguments =>
            match arguments with
            | [x] => .request registry q (.tuple [x, x]) fun pair =>
              .request registry q (.generic 0 [pair.record]) .done
            | _ => .fail .refused⟩]
        layout := none
        words := []
        instantiate := none
        completion := some .structLayout }] }

/-- The types of the fields of `nodes`. -/
def nodeTerms : DescriptorId → List Term
  | 0 => [.argument 0, .argument 0]
  | 1 => [.fixed 0, .apply 0 [.tuple [.argument 0, .argument 0]]]
  | _ => []

theorem nodes_structural : nodes.Structural nodeTerms := by
  intro id d hd
  match id, hd with
  | 0, hd =>
      obtain rfl := Option.some.inj hd
      exact ⟨rfl, .inr rfl, fun _ => rfl, fun _ => .cons rfl (.cons rfl .nil)⟩
  | 1, hd =>
      obtain rfl := Option.some.inj hd
      refine ⟨rfl, .inr rfl, fun _ => rfl, fun _ => .cons rfl (.cons ?_ .nil)⟩
      intro registry q arguments
      match arguments with
      | [] | _ :: _ :: _ => trivial
      | [x] =>
          -- the record of the pair is what the accessor was told
          refine fun pair r => ⟨.generic 0 [pair.record], List.mem_cons_self, fun look hl => ?_⟩
          have hpair : look (.tuple [x, x]) = some pair.record :=
            hl.told (.tuple [x, x], pair) (List.mem_cons_of_mem _ List.mem_cons_self)
          simp [Term.call?, Term.records?, hl.checked, hpair]

/-- A node is requested, and a tuple after it. By the time the node has come
back the tuple is not there yet; it makes no difference to the node. -/
theorem struct_layout_node :
    ∃ (start m : Machine Unit) (r : Record), nodes.Structural nodeTerms ∧ start.Fresh
      ∧ start.store.records[Records.emptyTuple]? = some .emptyTuple
      ∧ Run nodes (fun m t => m.Structured 0 t) start m ∧ m.store.records[10]? = some r
      ∧ nodes.Composes 10 r ∧ .nonTransitive ≤ m.store.stageOf 0 10
      ∧ ∃ fields layouts, ∀ m', Run nodes (fun m t => m.Structured 0 t) m m' →
        m'.store.LaidOut 0 nodeTerms 10 fields layouts := by
  let start : Machine Unit := launch .standard () (.request 0 .complete (.generic 1 [3]) fun r =>
    .request 0 .complete (.tuple [6, r.record]) fun _ => .done ())
  have hrun : Run nodes (fun m t => m.Structured 0 t) start (start.walk nodes 38) :=
    .walk (by decide +kernel)
  obtain ⟨r, hr, horigin⟩ : ∃ r, (start.walk nodes 38).store.records[10]? = some r
      ∧ r.origin = .generic 1 :=
    Option.map_eq_some_iff.mp (by decide +kernel :
      ((start.walk nodes 38).store.records[10]?).map (·.origin) = some (.generic 1))
  have hx : nodes.Composes 10 r := .struct horigin rfl rfl
  have hstage : .nonTransitive ≤ (start.walk nodes 38).store.stageOf 0 10 := by decide +kernel
  exact ⟨start, start.walk nodes 38, r, nodes_structural, fresh_launch _ () _, rfl, hrun, hr, hx,
    hstage, Run.struct_layout nodes_structural (fresh_launch _ () _) rfl hrun hr hx hstage⟩

end Machine

end TypeRecords
