/-
No empty layout stands in for a record that is still to be laid out.

A walk over fields, and the end of a walk over elements, take the empty layout
for a record that has none. They do so only for records that the registry of
the step does not keep. These are finished for it whatever they look like: it
will never lay them out. For records that it keeps, a stage in which the layout
is known means that there is one (`Reachable.known`), and a walk passes none
that it has not found in such a stage, now or in an earlier step.

Both together are `Fresh.layout_known`. That it says nothing of other records is
no accident: a record whose layout comes from elsewhere is finished from the
start, whether or not it has come (`foreign_unlaid`).
-/
import TypeRecords.Proofs.Fields.Tracking

namespace TypeRecords

variable {σ : Type}

namespace Turn

/-- With its next step the thread lets the empty layout stand in for that of
`y`, in a step of a registry: it takes it for a field whose record is `y`, or
for the element `y` of a tuple. -/
inductive Substitutes (lib : Library σ) (named : RecordId → Nat → RecordId) (t : Turn σ) :
    RegistryId → RecordId → Prop
  | field {w : FieldWalk σ} {r : Response} {y : RecordId} (ht : t.told? = some (w, r))
      (hon : ¬ (w.scratch.get 0 ≤ w.index ∧ ¬ r.stage.satisfies .layoutComplete = true))
      (hnone : t.store.records.layoutOf r.record = none)
      (hy : t.store.typeOf? lib named w.record w.index = some y) :
      Substitutes lib named t w.registry y
  | element {w : ElementWalk} {y : RecordId} (hc : t.control = .measure w) (hw : w.todo = [])
      (hnone : t.store.records.layoutOf w.drive.record = none)
      (hy : y ∈ t.store.records.argumentsOf w.drive.record)
      (hempty : t.store.records.layoutOf y = none) :
      Substitutes lib named t w.drive.registry y

variable {lib : Library σ} {named : RecordId → Nat → RecordId} {a : Actor} {t : Turn σ}
  {others : List Hold} {registry : RegistryId} {y : RecordId}

/-- Whom the empty layout stands in for has not been made by the registry of
the step. -/
theorem Substitutes.unmade (h : t.Substitutes lib named registry y) (ht : t.Tracks lib named)
    (hi : t.store.Informed lib) (ho : t.store.Owned (t.holds a.id ++ others))
    (hp : t.store.Paired (t.holds a.id ++ others)) (hcandid : t.candid named = true) :
    ¬ t.store.MadeBy registry y := by
  intro hm
  have hlayout : ∀ {registry : RegistryId} {y : RecordId}, t.store.Cleared registry y →
      t.store.MadeBy registry y → t.store.records.layoutOf y ≠ none := fun hclear hm hnone => by
    have hsome := hclear.layout hm
    rw [hnone] at hsome
    cases hsome
  cases h with
  | field htold hon hnone hy =>
      obtain ⟨⟨left, hc⟩, d, below, hf⟩ := told?_some.mp htold
      have hmeets := ht.field hi ho hp hcandid hc hf hy
      exact hlayout (ht.passes hf hmeets hon hy) hm (hmeets.record hm ▸ hnone)
  | @element w y hc hw hnone hy hempty =>
      obtain ⟨r, past, hr, hpast, hall⟩ := ht.measure w hc
      unfold Records.argumentsOf at hy
      rw [hr] at hy
      rw [hw, List.append_nil] at hpast
      exact hlayout (hall y (hpast ▸ hy)) hm hempty

/-- Whether a step's walk is about to do so, for a field. -/
def passes (lib : Library σ) (named : RecordId → Nat → RecordId) (t : Turn σ)
    (registry : RegistryId) (y : RecordId) : Bool :=
  t.told?.any fun (w, r) =>
    w.registry == registry && decide (r.stage.satisfies .layoutComplete = true)
      && (t.store.records.layoutOf r.record).isNone
      && t.store.typeOf? lib named w.record w.index == some y

theorem substitutes_of_passes (h : t.passes lib named registry y = true) :
    t.Substitutes lib named registry y := by
  unfold passes at h
  cases ht : t.told? with
  | none =>
      rw [ht] at h
      cases h
  | some told =>
      rw [ht] at h
      simp only [Option.any_some, Bool.and_eq_true, beq_iff_eq, decide_eq_true_eq,
        Option.isNone_iff_eq_none] at h
      obtain ⟨⟨⟨rfl, hlate⟩, hnone⟩, hy⟩ := h
      exact .field ht (fun hon => hon.2 hlate) hnone hy

end Turn

namespace Machine

variable {lib : Library σ} {named : RecordId → Nat → RecordId} {start : Machine σ}

/-- A record that its registry keeps has a layout as soon as its stage says so. And
no step lets the empty layout stand in for such a record, as long as programs
that compute the types of fields tell the truth. -/
theorem Fresh.layout_known (hlib : lib.Stock) (hf : start.Fresh) (hwhole : start.store.Whole)
    (hplaced : lib.Placed start.store.records.size) :
    (∀ m, Reachable lib start m → ∀ registry key x, m.store.Keeps registry key x →
        .layoutComplete ≤ m.store.stageOf registry x → (m.store.records.layoutOf x).isSome)
      ∧ ∀ m, Run lib (fun m _ => m.Grounded ∧ m.Candid named) start m → m.Candid named →
        ∀ thread ∈ m.threads, ∀ registry y,
          (m.turn thread).Substitutes lib named registry y → ∀ key,
          ¬ m.store.Keeps registry key y := by
  refine ⟨fun m h registry key x hx hstage => h.known hlib hf hx hstage,
    fun m h hcandid thread hthread registry y hsub key hkeeps => ?_⟩
  have hr := h.reachable
  obtain ⟨u, hu⟩ := Array.getElem?_of_mem hthread
  have hperm := (holds_split hu).symm
  have ho := (hr.owned hf).perm hperm
  have hp := (hr.paired hf).perm hperm
  exact hsub.unmade (a := ⟨u, thread.name⟩) ((h.tracked hlib hf hwhole hplaced).threads hu)
    (hr.informed hlib hf).store ho hp (hcandid thread hthread) (hkeeps.madeBy ho hp)

-- ====================================================== types from elsewhere

private theorem substitutes_of_single {m : Machine σ} {named : RecordId → Nat → RecordId}
    {registry : RegistryId} {y : RecordId} (hone : m.threads.size = 1)
    (hall : ∀ thread ∈ m.threads, (m.turn thread).passes lib named registry y = true) :
    ∃ thread ∈ m.threads, (m.turn thread).Substitutes lib named registry y := by
  obtain ⟨thread, ht, hpasses⟩ := single_thread hone hall
  exact ⟨thread, ht ▸ Array.mem_singleton.mpr rfl, Turn.substitutes_of_passes hpasses⟩

/-- A type of two fields: one is of a type whose layout comes from elsewhere, and
the other of the type that it is applied to. -/
def holder : Library Unit :=
  { bare with
    descriptors := #[
      { name := "Holder"
        kind := .struct
        parameters := 1
        fields := [⟨"handle", .fixed 10⟩, ⟨"value", .argument 0⟩]
        layout := none
        words := []
        instantiate := none
        completion := some .structLayout }] }

private theorem holder_stock : holder.Stock := fun {id d} hd => by
  obtain rfl := Array.mem_singleton.mp (Array.mem_of_getElem? hd)
  exact .inr rfl

/-- A process that requests the type once, before the layout from elsewhere has
come. -/
private def early : Machine Unit :=
  { launch .standard () (.request 0 .complete (.generic 0 [3]) fun _ => .done ()) with
    store :=
      { registries := #[.new .standard]
        records := Records.builtins.push (.ofForeign "Foreign" none) } }

private theorem early_fresh : early.Fresh where
  entries := rfl
  fixed := by
    show ∀ r ∈ Records.builtins.push _, r.origin = .fixed
    decide
  running := (fresh_launch .standard () _).running

private theorem early_run (n : Nat) (h : n ≤ 14) :
    Run holder (fun m _ => m.Grounded ∧ m.Candid fun _ _ => 0) early (early.walk holder n) := by
  have hall : ∀ k < 14, ((early.walk holder k).Grounded
      ∧ (early.walk holder k).Candid fun _ _ => 0)
      ∧ ((early.walk holder k).step holder 0).isSome = true := by
    decide +kernel
  exact .walk fun k hk => hall k (Nat.lt_of_lt_of_le hk h)

/-- The type is laid out, and what comes from elsewhere is taken as empty. -/
theorem layout_known_holder :
    ∃ start m m' : Machine Unit, start.Fresh ∧ holder.Stock ∧ start.store.Whole
      ∧ holder.Placed start.store.records.size
      ∧ Run holder (fun m _ => m.Grounded ∧ m.Candid fun _ _ => 0) start m
      ∧ Reachable holder start m'
      ∧ (∃ key, m'.store.Keeps 0 key 11) ∧ .layoutComplete ≤ m'.store.stageOf 0 11
      ∧ (m'.store.records.layoutOf 11).isSome
      ∧ ∃ thread ∈ m.threads, (m.turn thread).Substitutes holder (fun _ _ => 0) 0 10
        ∧ ∀ key, ¬ m.store.Keeps 0 key 10 := by
  have hplaced : holder.Placed early.store.records.size := by
    intro d hd field hf y htype
    obtain rfl := Array.mem_singleton.mp hd
    simp only [List.mem_cons, List.not_mem_nil, or_false] at hf
    rcases hf with rfl | rfl <;> cases htype
    decide
  have hend : ((early.walk holder 14).store.entries[0]?).map (fun e => (e.registry, e.record))
        = some (0, some 11)
      ∧ .layoutComplete ≤ (early.walk holder 14).store.stageOf 0 11 := by
    decide +kernel
  have hthere : (early.walk holder 4).threads.size = 1
      ∧ ∀ thread ∈ (early.walk holder 4).threads,
        ((early.walk holder 4).turn thread).passes holder (fun _ _ => 0) 0 10 = true := by
    decide +kernel
  obtain ⟨hentry, hstage⟩ := hend
  obtain ⟨hone, hpasses⟩ := hthere
  obtain ⟨thread, hmem, hsub⟩ := substitutes_of_single hone hpasses
  obtain ⟨e, he, hshape⟩ := Option.map_eq_some_iff.mp hentry
  obtain ⟨hregistry, hrecord⟩ := Prod.mk.inj hshape
  have hkeeps : (early.walk holder 14).store.Keeps 0 e.key 11 := ⟨0, e, he, hregistry, rfl, hrecord⟩
  obtain ⟨hknown, hunmade⟩ :=
    @Fresh.layout_known Unit holder (fun _ _ => 0) early holder_stock early_fresh
      (by decide +kernel) hplaced
  exact ⟨early, early.walk holder 4, early.walk holder 14, early_fresh, holder_stock,
    by decide +kernel, hplaced, early_run 4 (by decide), (early_run 14 (by decide)).reachable,
    ⟨_, hkeeps⟩, hstage, hknown _ (early_run 14 (by decide)).reachable 0 _ 11 hkeeps hstage,
    thread, hmem, hsub, hunmade _ (early_run 4 (by decide))
      (by decide +kernel) thread hmem 0 10 hsub⟩

/-- A type whose only field is of the type itself, says its accessor, and is
finished. -/
def boaster : Library Unit :=
  { bare with
    descriptors := #[
      { name := "Boaster"
        kind := .struct
        parameters := 0
        fields := [⟨"self", .computed fun registry _ _ =>
          .request registry (.poll .abstract) (.generic 0 []) fun r =>
            .done ⟨r.record, .complete⟩⟩]
        layout := none
        words := []
        instantiate := none
        completion := some .structLayout }] }

private theorem boaster_stock : boaster.Stock := fun {id d} hd => by
  obtain rfl := Array.mem_singleton.mp (Array.mem_of_getElem? hd)
  exact .inr rfl

private def boasting : Machine Unit :=
  launch .standard () (.request 0 .complete (.generic 0 []) fun _ => .done ())

/-- A record whose layout comes from elsewhere is complete for every registry,
and a type with a field of it is laid out as if the field were empty. And a
record that the registry is about to lay out is passed over where a program
says that it is finished. -/
theorem foreign_unlaid :
    (∃ start m : Machine Unit, start.Fresh ∧ holder.Stock
        ∧ Run holder (fun m _ => m.Grounded ∧ m.Candid fun _ _ => 0) start m
        ∧ m.store.stageOf 0 10 = .complete ∧ m.store.records.layoutOf 10 = none
        ∧ ∃ thread ∈ m.threads, (m.turn thread).Substitutes holder (fun _ _ => 0) 0 10)
      ∧ ∃ (start m : Machine Unit) (key : Key), start.Fresh ∧ boaster.Stock
        ∧ Reachable boaster start m ∧ m.store.Keeps 0 key 10
        ∧ m.store.stageOf 0 10 = .abstract
        ∧ ∃ thread ∈ m.threads, (m.turn thread).Substitutes boaster (fun _ _ => 10) 0 10 := by
  constructor
  · have hfacts : (early.walk holder 4).store.stageOf 0 10 = .complete
        ∧ (early.walk holder 4).store.records.layoutOf 10 = none
        ∧ (early.walk holder 4).threads.size = 1
        ∧ ∀ thread ∈ (early.walk holder 4).threads,
          ((early.walk holder 4).turn thread).passes holder (fun _ _ => 0) 0 10 = true := by
      decide +kernel
    obtain ⟨hstage, hnone, hone, hpasses⟩ := hfacts
    exact ⟨early, _, early_fresh, holder_stock, early_run 4 (by decide), hstage, hnone,
      substitutes_of_single hone hpasses⟩
  · have hfacts : ((boasting.walk boaster 8).store.entries[0]?).map
          (fun e => (e.registry, e.record)) = some (0, some 10)
        ∧ (boasting.walk boaster 8).store.stageOf 0 10 = .abstract
        ∧ (boasting.walk boaster 8).threads.size = 1
        ∧ ∀ thread ∈ (boasting.walk boaster 8).threads,
          ((boasting.walk boaster 8).turn thread).passes boaster (fun _ _ => 10) 0 10 = true := by
      decide +kernel
    obtain ⟨hentry, hstage, hone, hpasses⟩ := hfacts
    obtain ⟨e, he, hshape⟩ := Option.map_eq_some_iff.mp hentry
    obtain ⟨hregistry, hrecord⟩ := Prod.mk.inj hshape
    exact ⟨boasting, _, e.key, fresh_launch _ () _, boaster_stock, .walk _ _,
      ⟨0, e, he, hregistry, rfl, hrecord⟩, hstage, substitutes_of_single hone hpasses⟩

end Machine

end TypeRecords
