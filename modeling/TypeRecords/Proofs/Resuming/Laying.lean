/-
A walk over the fields of a record, from its beginning to its outcome.

The walk begins with scratch words that count some fields (`Scratch.count`) whose
layouts are known already, and goes from field to field. Between two of them it has
passed those before the next one (`FieldWalk.Passed`); at a field it waits for the
record (`Turn.Fetching`). Its outcome is that all fields are known, or that the next
one was not when the walk was told of it. Then the words count the fields before that
one. `Turn.Laying` puts this together for the thread, `Laying.step` says that a step of the
thread keeps to it until the frame that waits for the outcome is gone.

The words that a walk began with decide something in one place only: if they count a
field, the walk goes past it whatever it is told of the record. But then it is told that
the layout is known (`Laying.ready`).
-/
import TypeRecords.Proofs.Resuming.Fetching

namespace TypeRecords

variable {σ : Type}

-- ====================================================== scratch words

/-- The scratch words of a walk that has passed `n` fields. -/
def Scratch.count (n : Nat) : Scratch := Scratch.zero.set 0 n (Nat.zero_lt_succ 3)

@[simp] theorem Scratch.count_get (n : Nat) : (Scratch.count n).get 0 = n :=
  Vector.getElem_set_self _

@[simp] theorem Scratch.count_set (n m : Nat) :
    Vector.set (Scratch.count n) 0 m (by decide) = Scratch.count m :=
  Vector.set_set ..

theorem Scratch.count_zero : Scratch.count 0 = .zero := rfl

-- ====================================================== fields

namespace Store

variable {lib : Library σ} {s s' : Store} {since : Store → Prop} {registry : RegistryId}
  {terms : DescriptorId → List Term} {x : RecordId} {k n : Nat} {e : Term}
  {arguments : List RecordId} {fields fields' : List (Field σ)}

/-- The record is completed by laying out these fields. -/
inductive Struct (lib : Library σ) (s : Store) (x : RecordId) : List (Field σ) → Prop
  | intro {r : Record} {id : DescriptorId} {d : Descriptor σ} (hr : s.records[x]? = some r)
      (ho : r.origin = .generic id) (hd : lib.descriptors[id]? = some d)
      (hc : d.completion = some .structLayout) : Struct lib s x d.fields

/-- The type of a field of the record is what the term says of the arguments. -/
inductive Typed (terms : DescriptorId → List Term) (s : Store) (x : RecordId) (k : Nat) (e : Term)
    (arguments : List RecordId) : Prop
  | intro {r : Record} {id : DescriptorId} (hr : s.records[x]? = some r)
      (ho : r.origin = .generic id) (ha : r.arguments = arguments) (he : (terms id)[k]? = some e)

theorem Struct.unique (h : s.Struct lib x fields) (h' : s.Struct lib x fields') :
    fields = fields' := by
  obtain ⟨hr, ho, hd, -⟩ := h
  obtain ⟨hr', ho', hd', -⟩ := h'
  obtain rfl := Option.some.inj (hr.symm.trans hr')
  obtain rfl := Origin.generic.inj (ho.symm.trans ho')
  obtain rfl := Option.some.inj (hd.symm.trans hd')
  rfl

theorem Struct.gains (h : s.Struct lib x fields) (hr : s.records.Gains s'.records) :
    s'.Struct lib x fields := by
  obtain ⟨hrecord, ho, hd, hc⟩ := h
  obtain ⟨r', hr', hgains⟩ := hr x _ hrecord
  exact .intro hr' (hgains.origin.trans ho) hd hc

/-- A field has the type that its term says. -/
theorem Struct.typed (h : s.Struct lib x fields) (hlib : lib.Reads terms) {field : Field σ}
    (hk : fields[k]? = some field) :
    ∃ e arguments, s.Typed terms x k e arguments ∧ field.type.Reads e
      ∧ s.records.argumentsOf x = arguments := by
  obtain @⟨r, id, d, hr, ho, hd, hc⟩ := h
  have hreads := hlib hd hc
  obtain ⟨hlt, rfl⟩ := List.getElem?_eq_some_iff.mp hk
  have hlt' : k < (terms id).length := hreads.length_eq ▸ hlt
  refine ⟨_, r.arguments, .intro hr ho rfl (List.getElem?_eq_getElem hlt'),
    List.forall₂_iff_get.mp hreads |>.2 k hlt hlt', ?_⟩
  unfold Records.argumentsOf
  rw [hr]

theorem Typed.gains (h : s.Typed terms x k e arguments) (hr : s.records.Gains s'.records) :
    s'.Typed terms x k e arguments := by
  obtain ⟨hrecord, ho, ha, he⟩ := h
  obtain ⟨r', hr', hgains⟩ := hr x _ hrecord
  exact .intro hr' (hgains.origin.trans ho) (hgains.arguments.trans ha) he

/-- What answers the term answers the field. -/
theorem Typed.tells {r : Response} (h : s.Typed terms x k e arguments)
    (hr : s.Meant since registry e arguments r) : s.Tells since registry terms x k r := by
  obtain ⟨hrecord, ho, rfl, he⟩ := h
  refine ⟨?_, hr.supports⟩
  rw [fieldOf?_eq hrecord ho, he]
  exact hr.record

end Store

-- ====================================================== walks

section

variable (lib : Library σ) (registry : RegistryId) (terms : DescriptorId → List Term)
  (since : Store → Prop) (x : RecordId) (n : Nat)

/-- The words count fields whose layouts are known. -/
def Store.Counts (s : Store) (words : Scratch) : Prop :=
  ∃ k, words = .count k ∧ s.Attests registry terms x k

/-- A walk over the fields of `x` that has begun with words that count `n` fields has
passed the fields before the next one. -/
structure FieldWalk.Passed (s : Store) (w : FieldWalk σ) : Prop where
  registry_eq : w.registry = registry
  record : w.record = x
  scratch : w.scratch = .count n
  todo : ∃ fields, s.Struct lib x fields ∧ w.todo = fields.drop w.index
  past : s.Attests registry terms x w.index

/-- What a walk over the fields of `x` comes to. -/
inductive Store.Comes (s : Store) : Option Dependency → Scratch → Prop
  /-- All fields are known, and the layout is written. -/
  | known {fields : List (Field σ)} {k : Nat} (hx : s.Struct lib x fields)
      (hall : s.Attests registry terms x fields.length) (hk : s.Attests registry terms x k)
      (hlaid : (s.records.layoutOf x).isSome) : Comes s none (.count k)
  /-- The field is the first one that is not, or was not when the walk was told of it. -/
  | stops {k : Nat} {y : RecordId} (hk : s.Attests registry terms x k)
      (hy : s.fieldOf? registry terms x k = some y)
      (hbehind : ∃ s', since s' ∧ s'.Attests registry terms x k
        ∧ ¬ .layoutComplete ≤ s'.stageOf registry y) :
      Comes s (some ⟨y, .layoutComplete⟩) (.count k)

/-- A walk over the fields of `x`, whose outcome is awaited in the first frame of
`base`, is under way. -/
inductive Turn.Laying (base : List (Frame σ)) (t : Turn σ) : Prop
  | goes {w : FieldWalk σ} (hw : w.Passed lib registry terms x n t.store) (hf : t.frames = base)
      (hc : t.control = .lay w)
  | finds {w : FieldWalk σ} {e : Term} {arguments : List RecordId}
      (hw : w.Passed lib registry terms x n t.store)
      (htyped : t.store.Typed terms x w.index e arguments)
      (hfetch : t.Fetching (fun s => since s ∧ s.Attests registry terms x w.index) registry e
        arguments (.laying w :: base))
  /-- It has come to its outcome. -/
  | left {dep : Option Dependency} {words : Scratch} (hf : t.frames = base)
      (hc : t.control = .give (.dependency dep) (.scratch words))
      (hcomes : t.store.Comes lib registry terms since x dep words)
  | fails (hfault : t.Faults base)

end

/-- The records that are fixed as types of fields are there. -/
theorem Store.Domestic.placed_fixed {lib : Library σ} {registry : RegistryId} {s : Store}
    {x y : RecordId} {fields : List (Field σ)} {field : Field σ} (hs : s.Domestic lib registry)
    (hx : s.Struct lib x fields) (hf : field ∈ fields) (htype : field.type = .fixed y) :
    y < s.records.size := by
  obtain ⟨hr, ho, hd, hc⟩ := hx
  exact hs.placed _ (Array.mem_of_getElem? hd) field hf y htype

section

variable {lib : Library σ} {registry : RegistryId} {terms : DescriptorId → List Term}
  {since since' : Store → Prop} {s s' : Store} {x : RecordId} {n k : Nat} {w : FieldWalk σ}

theorem Store.Counts.zero (s : Store) (registry : RegistryId) (terms : DescriptorId → List Term)
    (x : RecordId) : s.Counts registry terms x .zero :=
  ⟨0, Scratch.count_zero.symm, .zero s registry terms x⟩

theorem Store.Rises.counts {words : Scratch} (h : s.Rises registry s')
    (hw : s.Counts registry terms x words) : s'.Counts registry terms x words := by
  obtain ⟨k, rfl, hk⟩ := hw
  exact ⟨k, rfl, h.attests hk⟩

theorem FieldWalk.Passed.rises (h : w.Passed lib registry terms x n s)
    (hr : s.Rises registry s') : w.Passed lib registry terms x n s' := by
  obtain ⟨fields, hx, htodo⟩ := h.todo
  exact { h with todo := ⟨fields, hx.gains hr.records, htodo⟩, past := hr.attests h.past }

/-- A walk begins with nothing passed. -/
theorem FieldWalk.Passed.start {fields : List (Field σ)} (hx : s.Struct lib x fields) :
    FieldWalk.Passed lib registry terms x n s ⟨registry, x, .count n, fields, 0, []⟩ :=
  ⟨rfl, rfl, rfl, ⟨fields, hx, rfl⟩, .zero s registry terms x⟩

theorem Store.Comes.rises {dep : Option Dependency} {words : Scratch}
    (h : s.Comes lib registry terms since x dep words) (hr : s.Rises registry s') :
    s'.Comes lib registry terms since x dep words := by
  cases h with
  | known hx hall hk hlaid =>
      exact .known (hx.gains hr.records) (hr.attests hall) (hr.attests hk)
        (hr.records.layoutOf hlaid)
  | stops hk hy hbehind => exact .stops (hr.attests hk) (hr.fieldOf? hy) hbehind

/-- The words that are left behind count fields whose layouts are known. -/
theorem Store.Comes.counts {dep : Option Dependency} {words : Scratch}
    (h : s.Comes lib registry terms since x dep words) : s.Counts registry terms x words := by
  cases h with
  | known hx hall hk hlaid => exact ⟨_, rfl, hk⟩
  | stops hk hy hbehind => exact ⟨_, rfl, hk⟩

end

-- ====================================================== who waits for a walk

/-- Whether a frame waits for a layout. -/
def Frame.layout : Frame σ → Bool
  | .stepping _ => true
  | .forLayout .. => true
  | _ => false

/-- The topmost frame waits for a layout. -/
def Awaited (frames : List (Frame σ)) : Prop :=
  ∃ f below, frames = f :: below ∧ f.layout = true

/-- A walk that waits for a record is waited for itself. -/
def Frame.Awaited : Frame σ → List (Frame σ) → Prop
  | .laying _, below => TypeRecords.Awaited below
  | _, _ => True

namespace Turn

variable {lib : Library σ} {a : Actor} {t t' : Turn σ}

/-- So is one that goes on. -/
structure WalksAwaited (t : Turn σ) : Prop where
  control : ∀ w, t.control = .lay w → Awaited t.frames
  frames : Layered Frame.Awaited t.frames

theorem WalksAwaited.step (ht : t.WalksAwaited) (h : t.step lib a = some t') :
    t'.WalksAwaited := by
  refine ⟨fun w hc' => ?_, layered_step ht.frames h fun f above hopens habove => ?_⟩
  · cases walks_of_step h hc' with
    | begin hc ht' hs => exact ⟨_, _, ht' ▸ startLayout_frames .., rfl⟩
    | program hc ht' => exact ⟨_, _, ht' ▸ startLayout_frames .., rfl⟩
    | field hc hf ht' =>
        have hlayers := ht.frames
        rw [hf] at hlayers
        rw [ht', laid_frames]
        exact hlayers.1
  · cases hopens with
    | laying hc =>
        rw [above_of_lay hc habove]
        exact ht.control _ hc
    | @call p st f hc hcall => cases f <;> trivial
    | _ => trivial

end Turn

/-- Whoever walks over the fields of a record does so for a frame that waits for it. -/
theorem Machine.Reachable.awaited {lib : Library σ} {start m : Machine σ} (hf : start.Fresh)
    (h : Reachable lib start m) {u : ThreadId} {thread : Thread σ}
    (hu : m.threads[u]? = some thread) : (m.turn thread).WalksAwaited := by
  induction h generalizing u thread with
  | refl =>
      obtain ⟨hframes, p, st, hrun⟩ := hf.running _ (Array.mem_of_getElem? hu)
      refine ⟨fun w hc => ?_, ?_⟩
      · cases hrun.symm.trans hc
      · show Layered Frame.Awaited thread.frames
        rw [hframes]
        trivial
  | @step m m' t h hs ih =>
      refine step_threads (P := Turn.WalksAwaited) hs
        (fun hthread hturn _ => (ih hthread).step hturn)
        (fun hthread hc hres hstore => ⟨nofun, (ih hthread).frames⟩)
        (fun hthread => ⟨(ih hthread).control, (ih hthread).frames⟩)
        (fun {new} hframes ⟨p, st, hrun⟩ => ⟨fun w hc => ?_, ?_⟩) hu
      · cases hrun.symm.trans hc
      · show Layered Frame.Awaited new.frames
        rw [hframes]
        trivial

namespace Turn

variable {lib : Library σ} {a : Actor} {t t' : Turn σ} {registry : RegistryId}
  {terms : DescriptorId → List Term} {since : Store → Prop} {s₀ : Store} {x : RecordId} {n : Nat}
  {base below : List (Frame σ)} {f : Frame σ} {others H' : List Hold} {w : FieldWalk σ}

theorem Laying.rises (h : t.Laying lib registry terms since x n base)
    (hr : t.store.Rises registry t'.store) (hc : t'.control = t.control)
    (hf : t'.frames = t.frames) : t'.Laying lib registry terms since x n base := by
  cases h with
  | goes hw hf' hc' => exact .goes (hw.rises hr) (hf.trans hf') (hc.trans hc')
  | finds hw htyped hfetch =>
      exact .finds (hw.rises hr) (htyped.gains hr.records) (hfetch.rises hr hc hf)
  | left hf' hc' hcomes => exact .left (hf.trans hf') (hc.trans hc') (hcomes.rises hr)
  | fails hfault => exact .fails (hfault.congr hc hf)

theorem Laying.resumes {p p' : Program σ Value} {st : Setting σ}
    (h : t.Laying lib registry terms since x n base) (hc : t.control = .run p st)
    (hp : Machine.Resumes p p') (hs : t'.store = t.store) (hc' : t'.control = .run p' st)
    (hf : t'.frames = t.frames) : t'.Laying lib registry terms since x n base := by
  cases h with
  | goes hw hf' hlay => cases hc.symm.trans hlay
  | finds hw htyped hfetch =>
      exact .finds (hs ▸ hw) (hs ▸ htyped) (hfetch.resumes hc hp hs hc' hf)
  | left hf' hgive hcomes => cases hc.symm.trans hgive
  | fails hfault => exact .fails (hfault.resumes hc hf)

-- ====================================================== one field

/-- A record that is there is looked up. -/
theorem consult_looks {e : Term} {arguments : List RecordId} {y : RecordId} {q : Request}
    (hs : t.store.Domestic lib registry) (ho : t.store.Owned others) (hsince : since t.store)
    (hy : y < t.store.records.size) (hcall : ∀ look, e.call? look arguments = some (.check y)) :
    (t.consult registry q y).Fetching since registry e arguments t.frames := by
  have hstore := consult_store t registry q y
  refine .looks hcall (by rw [hstore]; exact hy) (consult_attends.mono rfl rfl ?_ fun r hr => ?_)
  · rw [hstore]
    exact fun _ h => h
  · rw [hstore]
    exact hr.hears hs ho (fun z hz => List.mem_singleton.mp hz ▸ hy) hsince

/-- A walk goes on to its next field: the record is looked up, or a program is run for
it, or there is no such argument. -/
theorem lay_finds (hlib : lib.Reads terms) (hs : t.store.Domestic lib registry)
    (ho : t.store.Owned others) (hsince : since t.store)
    (hw : w.Passed lib registry terms x n t.store) (htodo : w.todo ≠ [])
    (h : FieldLaid t a w t') :
    (∃ e arguments, t.store.Typed terms x w.index e arguments
        ∧ t'.Fetching (fun s => since s ∧ s.Attests registry terms x w.index) registry e
          arguments (.laying w :: t.frames))
      ∨ t'.Faults t.frames := by
  -- what is read of the next field is the next term
  have hnext : ∀ {field : Field σ} {rest : List (Field σ)}, w.todo = field :: rest →
      ∃ e arguments fields, t.store.Struct lib x fields ∧ field ∈ fields
        ∧ t.store.Typed terms x w.index e arguments ∧ field.type.Reads e
        ∧ t.store.records.argumentsOf x = arguments := fun {field rest} htodo => by
    obtain ⟨fields, hx, hdrop⟩ := hw.todo
    have hfield : fields[w.index]? = some field := by
      rw [← Nat.add_zero w.index, ← List.getElem?_drop, ← hdrop, htodo]
      rfl
    obtain ⟨e, arguments, htyped, hreads, harguments⟩ := hx.typed hlib hfield
    exact ⟨e, arguments, fields, hx, List.mem_of_getElem? hfield, htyped, hreads, harguments⟩
  cases h with
  | done hdone => exact (htodo hdone).elim
  | lack => exact .inr (.failing rfl rfl)
  | compute htodo htype =>
      obtain ⟨e, arguments, -, -, -, htyped, hreads, harguments⟩ := hnext htodo
      rw [htype] at hreads
      refine .inl ⟨e, arguments, htyped, .runs rfl rfl nofun ⟨[], nofun, ?_⟩⟩
      rw [hw.record, harguments, hw.registry_eq]
      refine (hreads registry (.poll .layoutComplete) arguments).bind fun r heard hgood => ?_
      rintro r' ⟨⟩
      exact hgood
  | @consult field rest y htodo hrecord =>
      obtain ⟨e, arguments, fields, hx, hmem, htyped, hreads, harguments⟩ := hnext htodo
      have hcall : y < t.store.records.size ∧ ∀ look, e.call? look arguments = some (.check y) := by
        rw [hw.record, harguments] at hrecord
        rcases hrecord with htype | ⟨i, htype, hy⟩
        · rw [htype] at hreads
          obtain rfl : e = .fixed y := hreads
          exact ⟨hs.placed_fixed hx hmem htype, fun look => by rw [Term.call?]⟩
        · rw [htype] at hreads
          obtain rfl : e = .argument i := hreads
          obtain ⟨hr, -, rfl, -⟩ := htyped
          exact ⟨hs.founded hr (List.mem_of_getElem? hy), fun look => by rw [Term.call?, hy]; rfl⟩
      rw [hw.registry_eq]
      exact .inl ⟨e, arguments, htyped,
        consult_looks (t := { t with frames := .laying w :: t.frames }) hs ho ⟨hsince, hw.past⟩
          hcall.1 hcall.2⟩

-- ====================================================== the whole walk

/-- Of a field that its words count a walk is told that the layout is known. -/
theorem laid_ready {e : Term} {arguments : List RecordId} {r : Response}
    (hw : w.Passed lib registry terms x n t.store)
    (htyped : t.store.Typed terms x w.index e arguments)
    (hr : t.store.Meant (fun s => since s ∧ s.Attests registry terms x w.index) registry e
      arguments r)
    (hsince : since t.store) (hfirst : ∀ s, since s → s₀.Rises registry s)
    (hn : s₀.Attests registry terms x n) (hk : w.index < n) : .layoutComplete ≤ r.stage :=
  (htyped.tells hr).ready ⟨hsince, hw.past⟩ (fun s hs => hfirst s hs.1) hn hk

/-- A walk is told of the record of a field: it stops there, or goes on. -/
theorem laid_lays {e : Term} {arguments : List RecordId} {r : Response}
    (hw : w.Passed lib registry terms x n t.store)
    (htyped : t.store.Typed terms x w.index e arguments)
    (hr : t.store.Meant (fun s => since s ∧ s.Attests registry terms x w.index) registry e
      arguments r)
    (hsince : since t.store) (hfirst : ∀ s, since s → s₀.Rises registry s)
    (hn : s₀.Attests registry terms x n) :
    (t.laid w r).Laying lib registry terms since x n t.frames := by
  have htells := htyped.tells hr
  unfold laid
  split
  · rename_i hstop
    have hlate : ¬ Stage.layoutComplete ≤ r.stage :=
      fun hle => hstop.2 (Stage.satisfies_iff.mpr hle)
    obtain ⟨s', ⟨hs', hpast⟩, hstage⟩ := htells.supports.made
    refine .left rfl rfl ?_
    rw [hw.scratch, Scratch.count_set]
    exact .stops hw.past htells.record ⟨s', hs', hpast, hstage ▸ hlate⟩
  · rename_i hon
    have hready : Stage.layoutComplete ≤ r.stage := by
      by_cases hk : w.index < n
      · exact laid_ready hw htyped hr hsince hfirst hn hk
      · have hcount : w.scratch[0] = n := by rw [hw.scratch]; exact Scratch.count_get n
        have hsatisfies := Decidable.not_not.mp fun hno => hon ⟨hcount ▸ Nat.le_of_not_lt hk, hno⟩
        exact Stage.satisfies_iff.mp hsatisfies
    obtain ⟨fields, hx, htodo⟩ := hw.todo
    refine .goes ?_ rfl rfl
    refine ⟨hw.registry_eq, hw.record, hw.scratch, ⟨fields, hx, ?_⟩,
      hw.past.succ htells.record (htells.supports.known hready)⟩
    show w.todo.tail = _
    rw [htodo, List.tail_drop]

/-- A walk that has passed all fields has come to its outcome. -/
theorem lay_ends (hw : w.Passed lib registry terms x n t.store) (htodo : w.todo = [])
    (h : FieldLaid t a w t') (hr : t.store.Rises registry t'.store) :
    t'.Laying lib registry terms since x n t.frames := by
  have hpast := (hw.rises hr).past
  obtain ⟨fields, hx, hdrop⟩ := (hw.rises hr).todo
  have hall : fields.length ≤ w.index := List.drop_eq_nil_iff.mp (hdrop.symm.trans htodo)
  have hthere : w.record < t.store.records.size := by
    obtain ⟨fields, hx, -⟩ := hw.todo
    obtain ⟨hr, -⟩ := hx
    exact hw.record ▸ (Array.getElem?_eq_some_iff.mp hr).1
  cases h with
  | done =>
      refine .left rfl (by rw [hw.scratch, Scratch.count_set]) (.known hx
        (fun k hk => hpast k (Nat.lt_of_lt_of_le hk hall)) hpast ?_)
      rw [← hw.record]
      exact Store.layDown_layout hthere w.layouts
  | consult htodo' | compute htodo' | lack htodo' => cases htodo.symm.trans htodo'

/-- Until the frame that waits for the outcome is gone, a step keeps the walk under way. -/
theorem Laying.step (hl : t.Laying lib registry terms since x n (f :: below))
    (hin : StepsIn lib registry a t t') (hlib : lib.Reads terms) (hf : f.layout = true)
    (hover : below.length < t'.frames.length) (hsince : since t.store) (hsince' : since t'.store)
    (hfirst : ∀ s, since s → s₀.Rises registry s) (hn : s₀.Attests registry terms x n) :
    t'.Laying lib registry terms since x n (f :: below) := by
  have h := hin.step
  have hr := hin.rises
  -- what is handed to the frame, or unwinds past it, takes it off
  have hgone : t.frames = f :: below →
      (∃ v left, t.control = .give v left) ∨ (∃ e, t.control = .unwind e) → False := by
    intro hframes hc
    rw [frame_dropped hframes (fun j hj => by rw [hj] at hf; cases hf) hc h] at hover
    exact Nat.lt_irrefl _ hover
  cases hl with
  | @goes w hw hframes hc =>
      have hlaid := step_lay hc h
      by_cases htodo : w.todo = []
      · exact hframes ▸ lay_ends hw htodo hlaid hr
      · obtain ⟨others, ho⟩ := hin.owned
        rcases lay_finds hlib hin.domestic ho hsince hw htodo hlaid
          with ⟨e, arguments, htyped, hfetch⟩ | hfault
        · rw [hframes] at hfetch
          exact .finds (hw.rises hr) (htyped.gains hr.records) hfetch
        · rw [hframes] at hfault
          exact .fails hfault
  | @finds w e arguments hw htyped hfetch =>
      rcases hfetch.step hin rfl ⟨hsince', hr.attests hw.past⟩
        with hnext | ⟨hframes, ⟨v, left, hc⟩ | ⟨e, hc⟩⟩
      · exact .finds (hw.rises hr) (htyped.gains hr.records) hnext
      · unfold Turn.step at h
        rw [hc] at h
        unfold give at h
        simp only [hframes] at h
        cases v with
        | response r =>
            cases h
            exact laid_lays (t := { t with frames := f :: below }) hw htyped
              (hfetch.meant hframes hc) hsince hfirst hn
        | _ => cases h
      · have hgone := step_unwind hc h
        exact .fails (.failing (unwind_frames hframes hgone) (unwind_fails hframes rfl hgone))
  | left hframes hc hcomes => exact (hgone hframes (.inl ⟨_, _, hc⟩)).elim
  | fails hfault =>
      rcases hfault.step h with hnext | ⟨hframes, hc⟩
      · exact .fails hnext
      · exact (hgone hframes (.inr hc)).elim

/-- Nothing below is touched. -/
theorem Laying.stands (hl : t.Laying lib registry terms since x n base) :
    ∃ gs, t.frames = gs ++ base := by
  cases hl with
  | goes hw hf hc => exact ⟨[], hf⟩
  | @finds w e arguments hw htyped hfetch =>
      obtain ⟨gs, hf⟩ := hfetch.stands
      exact ⟨gs ++ [.laying w], hf.trans (List.append_cons ..)⟩
  | left hf hc hcomes => exact ⟨[], hf⟩
  | fails hfault => exact hfault.stands

/-- Between two fields. -/
theorem Laying.between (hl : t.Laying lib registry terms since x n base) (hf : t.frames = base)
    (hc : t.control = .lay w) : w.Passed lib registry terms x n t.store := by
  cases hl with
  | goes hw hf' hlay =>
      cases hc.symm.trans hlay
      exact hw
  | finds hw htyped hfetch =>
      obtain ⟨gs, hf'⟩ := hfetch.stands
      have hlength := congrArg List.length (hf.symm.trans hf')
      rw [List.length_append, List.length_cons] at hlength
      omega
  | left hf' hgive hcomes => cases hc.symm.trans hgive
  | fails hfault =>
      cases hfault with
      | above gs g hf' hg =>
          have hlength := congrArg List.length (hf.symm.trans hf')
          rw [List.length_append, List.length_cons] at hlength
          omega
      | failing hf' hfails => rw [hc] at hfails; cases hfails

/-- What is handed to the first frame, and what has been left behind. -/
def hands? (t : Turn σ) : Option (Value × Local) :=
  match t.control with
  | .give v left => some (v, left)
  | _ => none

theorem give_of_hands {v : Value} {left : Local} (h : t.hands? = some (v, left)) :
    t.control = .give v left := by
  unfold hands? at h
  split at h
  · cases h
    assumption
  · cases h

/-- What the first frame of `base` is handed is the outcome of the walk. -/
theorem Laying.hands {dep : Option Dependency} {left : Local}
    (hl : t.Laying lib registry terms since x n base) (hf : t.frames = base)
    (hc : t.control = .give (.dependency dep) left) :
    ∃ words, left = .scratch words ∧ t.store.Comes lib registry terms since x dep words := by
  cases hl with
  | goes hw hf' hlay => cases hc.symm.trans hlay
  | finds hw htyped hfetch =>
      obtain ⟨gs, hf'⟩ := hfetch.stands
      have hlength := congrArg List.length (hf.symm.trans hf')
      rw [List.length_append, List.length_cons] at hlength
      omega
  | left hf' hgive hcomes =>
      cases hc.symm.trans hgive
      exact ⟨_, rfl, hcomes⟩
  | fails hfault =>
      cases hfault with
      | above gs g hf' hg =>
          have hlength := congrArg List.length (hf.symm.trans hf')
          rw [List.length_append, List.length_cons] at hlength
          omega
      | failing hf' hfails => rw [hc] at hfails; cases hfails

/-- The words that a walk began with do not make it go past a field that it would not go
past without them. -/
theorem Laying.ready {r : Response} {left : Local}
    (hl : t.Laying lib registry terms since x n base) (hframes : t.frames = .laying w :: base)
    (hc : t.control = .give (.response r) left) (hsince : since t.store)
    (hfirst : ∀ s, since s → s₀.Rises registry s) (hn : s₀.Attests registry terms x n) :
    w.scratch = .count n ∧ (w.index < n → .layoutComplete ≤ r.stage) := by
  -- one frame stands above `base`
  have hone : ∀ {gs : List (Frame σ)} {g : Frame σ}, t.frames = gs ++ g :: base →
      g = .laying w := fun {gs g} hf => by
    have hsame : [.laying w] ++ base = (gs ++ [g]) ++ base :=
      (hframes.symm.trans hf).trans (List.append_cons gs g base)
    have hlast := congrArg List.getLast? (List.append_cancel_right hsame)
    rw [List.getLast?_concat] at hlast
    exact (Option.some.inj hlast).symm
  have hno : t.frames ≠ base := fun hf => by
    have hlength := congrArg List.length (hframes.symm.trans hf)
    rw [List.length_cons] at hlength
    omega
  cases hl with
  | goes hw hf => exact (hno hf).elim
  | left hf => exact (hno hf).elim
  | fails hfault =>
      cases hfault with
      | above gs g hf hg =>
          rw [hone hf] at hg
          cases hg
      | failing hf => exact (hno hf).elim
  | finds hw htyped hfetch =>
      obtain ⟨gs, hf⟩ := hfetch.stands
      cases hone hf
      exact ⟨hw.scratch, laid_ready hw htyped (hfetch.meant hframes hc) hsince hfirst hn⟩

end Turn

end TypeRecords
