/-
What is known of the records of fields, and what answers say of it.

A process keeps to one registry if all requests of its programs are made there and
name records that are there (`Control.staysIn`). Every record is then fixed or the
registry's own, so there is one entry for each that may have one, and the stage of a
record only goes up (`Store.Rises`).

The record of a field is the one that its term stands for, once that is known
(`Store.fieldOf?`). A record whose layout is known is one that a walk over fields may
pass; scratch words claim this of the first fields of their record
(`Store.Attests`). What they claim stays true.

A response is about a record that is there, in no later a stage than it is in by now.
And it does not fall behind: its stage is the one that the record was in at some moment
since the request was made (`Store.Supports`). So if the layout of the record was known
before, the response says so (`Tells.ready`). This is what a walk relies on where it does
not look at the stage.
-/
import TypeRecords.Proofs.Fields.Clearing

namespace TypeRecords

variable {σ : Type}

-- ====================================================== one registry

/-- Whether the next step makes requests in the one registry only, of records that
are there. -/
def Control.staysIn (registry : RegistryId) (s : Store) : Control σ → Bool
  | .run (.request r _ c _) _ => r == registry && c.names.all (· < s.records.size)
  | _ => true

theorem Control.staysIn_request {registry r : RegistryId} {s : Store} {q : Request} {c : Call}
    {k : Response → Program σ Value} {st : Setting σ}
    (h : (Control.run (.request r q c k) st).staysIn registry s = true) :
    r = registry ∧ ∀ y ∈ c.names, y < s.records.size := by
  obtain ⟨hr, hnames⟩ := Bool.and_eq_true_iff.mp h
  exact ⟨beq_iff_eq.mp hr, fun y hy => of_decide_eq_true (List.all_eq_true.mp hnames y hy)⟩

/-- Where records are laid out by their fields, the types of the fields are what the
terms say. -/
def Library.Reads (lib : Library σ) (terms : DescriptorId → List Term) : Prop :=
  ∀ {id : DescriptorId} {d : Descriptor σ}, lib.descriptors[id]? = some d →
    d.completion = some .structLayout →
    List.Forall₂ (fun field e => field.type.Reads e) d.fields (terms id)

theorem Record.Gains.trans {r r' r'' : Record} (h : r.Gains r') (h' : r'.Gains r'') :
    r.Gains r'' :=
  ⟨h'.origin.trans h.origin, h'.arguments.trans h.arguments, fun hl => h'.layout (h.layout hl)⟩

namespace Store

variable {lib : Library σ} {s₀ s s' s'' : Store} {since : Store → Prop} {H H' : List Hold}
  {registry : RegistryId} {terms : DescriptorId → List Term} {x y : RecordId} {k n : Nat} {c : Call}
  {r : Response}

/-- A store of one registry: every record is fixed, or the registry's own. -/
structure Domestic (lib : Library σ) (registry : RegistryId) (s : Store) : Prop where
  sole : s.Sole registry
  empty : Records.emptyTuple < s.records.size
  keyless : s.keyOf Records.emptyTuple = none
  founded : ∀ {x y : RecordId} {r : Record}, s.records[x]? = some r → y ∈ r.arguments →
    y < s.records.size
  placed : lib.Placed s.records.size

-- ====================================================== fields

/-- The record of a field, by the number of the field, once it is known. -/
def fieldOf? (s : Store) (registry : RegistryId) (terms : DescriptorId → List Term)
    (x : RecordId) (k : Nat) : Option RecordId :=
  (s.records[x]?).bind fun r =>
    match r.origin with
    | .generic id => ((terms id)[k]?).bind fun e => e.record? (s.recordOf? registry) r.arguments
    | _ => none

/-- The layout of the record is known. -/
structure Known (s : Store) (registry : RegistryId) (y : RecordId) : Prop where
  there : y < s.records.size
  stage : .layoutComplete ≤ s.stageOf registry y

/-- The records of the first `n` fields are known, and so are their layouts. -/
def Attests (s : Store) (registry : RegistryId) (terms : DescriptorId → List Term)
    (x : RecordId) (n : Nat) : Prop :=
  ∀ k < n, ∃ y, s.fieldOf? registry terms x k = some y ∧ s.Known registry y

/-- What the response says of its record is so, and was so in a store that has come up
`since`. -/
structure Supports (s : Store) (since : Store → Prop) (registry : RegistryId) (r : Response) :
    Prop where
  there : r.record < s.records.size
  stage : r.stage ≤ s.stageOf registry r.record
  made : ∃ s', since s' ∧ s'.stageOf registry r.record = r.stage

/-- The call is answered with this response. -/
structure Hears (s : Store) (since : Store → Prop) (registry : RegistryId) (c : Call)
    (r : Response) : Prop where
  record : s.recordOf? registry c = some r.record
  supports : s.Supports since registry r

/-- A field is answered with this response. -/
structure Tells (s : Store) (since : Store → Prop) (registry : RegistryId)
    (terms : DescriptorId → List Term) (x : RecordId) (k : Nat) (r : Response) : Prop where
  record : s.fieldOf? registry terms x k = some r.record
  supports : s.Supports since registry r

theorem fieldOf?_eq {r : Record} {id : DescriptorId} (hr : s.records[x]? = some r)
    (ho : r.origin = .generic id) : s.fieldOf? registry terms x k
      = ((terms id)[k]?).bind fun e => e.record? (s.recordOf? registry) r.arguments := by
  unfold fieldOf?
  rw [hr, Option.bind_some, ho]

/-- A response that says that the layout of its record is known is right. -/
theorem Supports.known (h : s.Supports since registry r) (hstage : .layoutComplete ≤ r.stage) :
    s.Known registry r.record :=
  ⟨h.there, Nat.le_trans hstage h.stage⟩

theorem Attests.zero (s : Store) (registry : RegistryId) (terms : DescriptorId → List Term)
    (x : RecordId) : s.Attests registry terms x 0 :=
  fun k hk => (Nat.not_lt_zero k hk).elim

/-- One field more. -/
theorem Attests.succ (h : s.Attests registry terms x n)
    (hy : s.fieldOf? registry terms x n = some y) (hknown : s.Known registry y) :
    s.Attests registry terms x (n + 1) := by
  intro k hk
  rcases Nat.lt_or_eq_of_le (Nat.le_of_lt_succ hk) with hlt | rfl
  · exact h k hlt
  · exact ⟨y, hy, hknown⟩

-- ====================================================== later stores

/-- What becomes of a store: nothing is taken back, and no record falls behind. -/
structure Rises (registry : RegistryId) (s s' : Store) : Prop where
  advances : s.Advances s'
  stages : ∀ {y : RecordId}, y < s.records.size → s.stageOf registry y ≤ s'.stageOf registry y
  records : s.records.Gains s'.records

namespace Rises

theorem refl (registry : RegistryId) (s : Store) : s.Rises registry s :=
  ⟨.refl s, fun _ => Nat.le_refl _, .refl s.records⟩

theorem trans (h : s.Rises registry s') (h' : s'.Rises registry s'') : s.Rises registry s'' := by
  refine ⟨h.advances.trans h'.advances, fun hy => ?_, fun x r hr => ?_⟩
  · exact Nat.le_trans (h.stages hy) (h'.stages (Nat.lt_of_lt_of_le hy h.records.size_le))
  · obtain ⟨r', hr', hgains⟩ := h.records x r hr
    obtain ⟨r'', hr'', hgains'⟩ := h'.records x r' hr'
    exact ⟨r'', hr'', hgains.trans hgains'⟩

theorem known (h : s.Rises registry s') (hy : s.Known registry y) : s'.Known registry y :=
  ⟨Nat.lt_of_lt_of_le hy.there h.records.size_le, Nat.le_trans hy.stage (h.stages hy.there)⟩

/-- Once it is known, the record of a field stays the same. -/
theorem fieldOf? (h : s.Rises registry s') (hy : s.fieldOf? registry terms x k = some y) :
    s'.fieldOf? registry terms x k = some y := by
  obtain ⟨r, hr, hy⟩ := Option.bind_eq_some_iff.mp hy
  obtain ⟨r', hr', hgains⟩ := h.records x r hr
  cases ho : r.origin with
  | generic id =>
      rw [ho] at hy
      obtain ⟨e, he, hrecord⟩ := Option.bind_eq_some_iff.mp hy
      rw [fieldOf?_eq hr' (hgains.origin.trans ho), he, Option.bind_some, hgains.arguments]
      exact Term.record?_mono (fun _ _ => h.advances.recordOf?) hrecord
  | fixed | tuple => rw [ho] at hy; cases hy

theorem attests (h : s.Rises registry s') (hx : s.Attests registry terms x n) :
    s'.Attests registry terms x n := by
  intro k hk
  obtain ⟨y, hy, hknown⟩ := hx k hk
  exact ⟨y, h.fieldOf? hy, h.known hknown⟩

theorem supports (h : s.Rises registry s') (hr : s.Supports since registry r) :
    s'.Supports since registry r :=
  ⟨Nat.lt_of_lt_of_le hr.there h.records.size_le, Nat.le_trans hr.stage (h.stages hr.there),
    hr.made⟩

theorem hears (h : s.Rises registry s') (hr : s.Hears since registry c r) :
    s'.Hears since registry c r :=
  ⟨h.advances.recordOf? hr.record, h.supports hr.supports⟩

end Rises

/-- Whatever a field is answered with, if its layout was known before the request was
made the answer says so. -/
theorem Tells.ready (h : s.Tells since registry terms x k r) (hs : since s)
    (hfirst : ∀ s', since s' → s₀.Rises registry s') (hn : s₀.Attests registry terms x n)
    (hk : k < n) : .layoutComplete ≤ r.stage := by
  obtain ⟨y, hy, hknown⟩ := hn k hk
  obtain rfl := Option.some.inj (((hfirst s hs).fieldOf? hy).symm.trans h.record)
  obtain ⟨s', hs', hstage⟩ := h.supports.made
  rw [← hstage]
  exact ((hfirst s' hs').known hknown).stage

-- ====================================================== answers

/-- What a registry answers says what is so at that moment. -/
theorem Answers.hears {q : Request} (h : s.Answers registry q c r)
    (hs : s.Domestic lib registry) (ho : s.Owned H) (hnames : ∀ y ∈ c.names, y < s.records.size)
    (hsince : since s) : s.Hears since registry c r := by
  have hstage := h.stageOf_eq ho hs.keyless
  have hthere : r.record < s.records.size := by
    rcases h with ⟨i, -, e, he, hr, -, -⟩ | ⟨-, -, rfl | ⟨-, hr⟩⟩
    · exact lt_size_of_keyOf (ho.keyed he hr)
    · exact hnames _ List.mem_cons_self
    · exact hr ▸ hs.empty
  refine ⟨?_, hthere, Stage.le_of_eq hstage.symm, s, hsince, hstage⟩
  rcases h with ⟨i, hi, e, he, hr, -, -⟩ | ⟨-, -, rfl | ⟨rfl, hr⟩⟩
  · have hkept : ∀ key : Key, s.find? registry key = some i →
        s.kept? registry key = some r.record := fun key hf => by
      unfold kept?
      rw [hf, Option.bind_some, he, Option.bind_some, hr]
    cases c with
    | check y => exact congrArg some (hs.sole.record_eq ho hi he hr)
    | generic descriptor arguments => exact hkept _ hi
    | tuple elements =>
        obtain ⟨key, hkey, hf⟩ := Option.bind_eq_some_iff.mp hi
        simp only [Call.key?] at hkey
        simp only [recordOf?]
        split at hkey
        · cases hkey
        · rename_i hne
          rw [if_neg hne]
          cases hkey
          exact hkept _ hf
  · rfl
  · rw [hr]
    rfl

end Store

-- ====================================================== steps

namespace Turn

variable {lib : Library σ} {a : Actor} {t t' : Turn σ} {registry : RegistryId}

/-- A step of a thread in a process that keeps to one registry. -/
structure StepsIn (lib : Library σ) (registry : RegistryId) (a : Actor) (t t' : Turn σ) : Prop where
  step : t.step lib a = some t'
  law : t.control.staysIn registry t.store = true
  domestic : t.store.Domestic lib registry
  owned : ∃ others, t.store.Owned (t.holds a.id ++ others)
  owned_after : ∃ H, t'.store.Owned H

/-- It leaves a store of one registry. -/
theorem StepsIn.domestic_after (h : StepsIn lib registry a t t') :
    t'.store.Domestic lib registry := by
  obtain ⟨hstep, hlaw, hs, -, -⟩ := h
  have hshift := step_shift hstep
  have hwrites := step_writes hstep
  have hsize := hwrites.gains.size_le
  refine {
    sole := hshift.sole hs.sole fun registry' q c k st hc =>
      (Control.staysIn_request (hc ▸ hlaw)).1
    empty := Nat.lt_of_lt_of_le hs.empty hsize
    keyless := (hshift.grows.keyOf_of_lt hs.empty).trans hs.keyless
    founded := fun {x y r'} hr' hy => ?_
    placed := fun d hd field hf y htype =>
      Nat.lt_of_lt_of_le (hs.placed d hd field hf y htype) hsize }
  rcases hwrites.record hwrites.gains hr' with ⟨r, hr, hgains⟩ | ⟨_, _, c, _, _, hc, hmade, -⟩
  · exact Nat.lt_of_lt_of_le (hs.founded hr (hgains.arguments ▸ hy)) hsize
  · rw [Library.arguments_of_made hmade] at hy
    exact Nat.lt_of_lt_of_le ((Control.staysIn_request (hc ▸ hlaw)).2 y hy) hsize

theorem StepsIn.rises (h : StepsIn lib registry a t t') : t.store.Rises registry t'.store := by
  obtain ⟨hstep, -, hs, ⟨others, ho⟩, H, ho'⟩ := h
  have hadvances := (step_shift hstep).advances ho
  exact ⟨hadvances, fun hy => hadvances.stageOf_le hs.sole ho ho' hy, (step_writes hstep).gains⟩

end Turn

namespace Machine

variable {lib : Library σ} {start m m' : Machine σ} {registry : RegistryId} {t : ThreadId}

/-- The step of thread `t` makes requests in the one registry only, of records that are
there. -/
def StaysIn (registry : RegistryId) (m : Machine σ) (t : ThreadId) : Prop :=
  ∀ thread ∈ m.threads[t]?, thread.control.staysIn registry m.store = true

instance (registry : RegistryId) (m : Machine σ) (t : ThreadId) :
    Decidable (m.StaysIn registry t) :=
  inferInstanceAs (Decidable (∀ thread ∈ m.threads[t]?, _ = _))

/-- A step of a process in one registry is one of a thread, or the store stays as it is. -/
theorem step_stepsIn (h : m.step lib t = some m') (hs : m.store.Domestic lib registry)
    (ho : m.store.Owned m.holds) (hlaw : m.StaysIn registry t) {thread : Thread σ}
    (ht : m.threads[t]? = some thread) {turn : Turn σ}
    (hturn : (m.turn thread).step lib ⟨t, thread.name⟩ = some turn)
    (hstore : m'.store = turn.store) :
    Turn.StepsIn lib registry ⟨t, thread.name⟩ (m.turn thread) turn :=
  ⟨hturn, hlaw thread ht, hs, ⟨_, ho.perm (holds_split ht).symm⟩, _, hstore ▸ step_owned h ho⟩

theorem step_domestic (h : m.step lib t = some m') (hs : m.store.Domestic lib registry)
    (ho : m.store.Owned m.holds) (hlaw : m.StaysIn registry t) :
    m'.store.Domestic lib registry := by
  obtain ⟨-, thread, hthread, hstepped⟩ := step_cases h
  cases hstepped with
  | alone hturn => exact (step_stepsIn h hs ho hlaw hthread hturn rfl).domestic_after
  | program p' started hc hp hstore hthreads hnew => exact hstore ▸ hs

theorem step_rises (h : m.step lib t = some m') (hs : m.store.Domestic lib registry)
    (ho : m.store.Owned m.holds) (hlaw : m.StaysIn registry t) :
    m.store.Rises registry m'.store := by
  obtain ⟨-, thread, hthread, hstepped⟩ := step_cases h
  cases hstepped with
  | alone hturn => exact (step_stepsIn h hs ho hlaw hthread hturn rfl).rises
  | program p' started hc hp hstore hthreads hnew =>
      rw [hstore]
      exact .refl registry m.store

/-- A process starts with records that are all fixed. -/
theorem Fresh.domestic (hf : start.Fresh) (hwhole : start.store.Whole)
    (hempty : Records.emptyTuple < start.store.records.size)
    (hplaced : lib.Placed start.store.records.size) (registry : RegistryId) :
    start.store.Domestic lib registry where
  sole := hf.sole registry
  empty := hempty
  keyless := hf.keyOf_none _
  founded hr hy := hwhole _ (Array.mem_of_getElem? hr) _ (Record.mem_referents_of_argument hy)
  placed := hplaced

/-- From whatever state a run in one registry goes on, nothing is taken back. -/
theorem Run.keeps (h : Run lib (fun m t => m.StaysIn registry t) m m')
    (hs : m.store.Domestic lib registry) (ho : m.store.Owned m.holds) :
    m'.store.Domestic lib registry ∧ m'.store.Owned m'.holds
      ∧ m.store.Rises registry m'.store := by
  induction h with
  | refl => exact ⟨hs, ho, .refl registry m.store⟩
  | step t h hlaw hstep ih =>
      obtain ⟨hs', ho', hrises⟩ := ih
      exact ⟨step_domestic hstep hs' ho' hlaw, step_owned hstep ho',
        hrises.trans (step_rises hstep hs' ho' hlaw)⟩

end Machine

end TypeRecords
