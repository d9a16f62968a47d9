/-
What steps and walks have cleared.

All that a thread passes over is cleared, frame by frame (`Turn.Tracks`), and so
is what the scratch words of an initialization speak of, wherever they are kept
(`Store.Tracked`).

A step of the thread keeps this: a walk that goes on has cleared one field more
(`Tracks.settled`), and the words that it leaves behind count the fields it has
passed (`Tracks.step_words`). Where an initialization is interrupted its words
go with it to the entry, and from there to whoever takes it up
(`Shift.carries`). The steps of other threads cannot disturb it, since what is
cleared stays so.

A walk goes by what it is told. For a record that is looked up this is the
answer of the registry, from the moment it is asked for (`Control.About`). For
one that a program computes it is what the program says, and of the programs it
is assumed that they tell the truth (`Turn.candid`).
-/
import TypeRecords.Proofs.Fields.Clearing

namespace TypeRecords

variable {σ : Type}

-- ====================================================== vocabulary

/-- The initialization that a hold is for. -/
def Hold.drive? : Hold → Option Drive
  | .active _ d => some d
  | .concluding _ d _ => some d
  | .stopping _ d _ => some d
  | .leaving d _ => some d
  | _ => none

/-- What is cleared for a store and those who hold its entries. -/
structure Store.Tracked (lib : Library σ) (named : RecordId → Nat → RecordId) (s : Store)
    (H : List Hold) : Prop where
  founded : ∀ {x y : RecordId} {r : Record}, s.records[x]? = some r → y ∈ r.arguments →
    y < s.records.size
  placed : lib.Placed s.records.size
  saved : ∀ {i : EntryId} {e : Entry} {x : RecordId} {words : Scratch},
    s.entries[i]? = some e → e.record = some x → e.saved = some words →
    s.Clears lib named e.registry x (words.get 0)
  drives : ∀ {hold : Hold} {d : Drive}, hold ∈ H → hold.drive? = some d →
    s.Clears lib named d.registry d.record (d.scratch.get 0)

theorem Store.Tracked.perm {lib : Library σ} {named : RecordId → Nat → RecordId} {s : Store}
    {H H' : List Hold} (hs : s.Tracked lib named H) (h : H'.Perm H) : s.Tracked lib named H' :=
  { hs with drives := fun hm hd => hs.drives (h.mem_iff.mp hm) hd }

def Frame.Tracks (lib : Library σ) (named : RecordId → Nat → RecordId) (s : Store) :
    Frame σ → List (Frame σ) → Prop
  | .laying w, .stepping _ :: _ => w.Clear lib named s
  | .measuring w, _ => w.Clear s
  | _, _ => True

/-- Where `y` is looked up the control is about `y`: it awaits the entry of `y`,
or brings an answer for it. -/
def Control.About (s : Store) (registry : RegistryId) (y : RecordId) : Control σ → Prop
  | .await _ i _ => s.entryOf? registry y = some i
  | .give (.response r) _ => s.Meets registry y r
  | _ => True

section

variable {lib : Library σ} {named : RecordId → Nat → RecordId} {s : Store} {H : List Hold}
  {y : RecordId}

/-- The record of the next field is there. -/
theorem FieldWalk.Clear.next_there {w : FieldWalk σ} (hw : w.Clear lib named s)
    (hs : s.Tracked lib named H) (hy : w.next? s = some y) : y < s.records.size := by
  obtain ⟨r, desc, hr, hd, htodo⟩ := hw.todo
  unfold FieldWalk.next? at hy
  cases hrest : w.todo with
  | nil => rw [hrest] at hy; cases hy
  | cons field rest =>
      have hfield : field ∈ desc.fields :=
        List.mem_of_mem_drop (htodo ▸ hrest ▸ List.mem_cons_self)
      rw [hrest] at hy
      cases htype : field.type with
      | computed accessor => simp only [htype] at hy; cases hy
      | fixed record =>
          simp only [htype] at hy
          cases hy
          unfold Library.descriptorOf? at hd
          split at hd
          · exact hs.placed desc (Array.mem_of_getElem? hd) field hfield _ htype
          · cases hd
      | argument i =>
          simp only [htype] at hy
          unfold Records.argumentsOf at hy
          rw [hr] at hy
          exact hs.founded hr (List.mem_of_getElem? hy)

/-- So is the next element. -/
theorem ElementWalk.Clear.next_there {w : ElementWalk} {rest : List RecordId} (hw : w.Clear s)
    (hs : s.Tracked lib named H) (hy : w.todo = y :: rest) : y < s.records.size := by
  obtain ⟨r, past, hr, hpast, -⟩ := hw
  refine hs.founded hr ?_
  rw [hpast, hy]
  exact List.mem_append_right _ List.mem_cons_self

/-- A walk begins with the words of its step, and has passed nothing. -/
theorem FieldWalk.Clear.begin {d : Drive} {r : Record} {desc : Descriptor σ}
    (hr : s.records[d.record]? = some r) (hd : lib.descriptorOf? r = some desc)
    (hw : s.Clears lib named d.registry d.record (d.scratch.get 0)) :
    FieldWalk.Clear ⟨d.registry, d.record, d.scratch, desc.fields, 0, []⟩ lib named s :=
  ⟨⟨r, desc, hr, hd, rfl⟩, hw, .zero hw.there⟩

/-- The words that a walk leaves behind speak of the fields it has passed. -/
theorem FieldWalk.Clear.left {w : FieldWalk σ} {words : Scratch} (hw : w.Clear lib named s)
    (h : words.get 0 = w.index) : s.Clears lib named w.registry w.record (words.get 0) := by
  rw [h]
  exact hw.passed

theorem Frame.Tracks.further {s' : Store} {f : Frame σ} {below : List (Frame σ)}
    (h : f.Tracks lib named s below) (hs : s.Further s') : f.Tracks lib named s' below := by
  cases f with
  | laying w =>
      cases below with
      | nil => trivial
      | cons g below =>
          cases g with
          | stepping d => exact FieldWalk.Clear.further h hs
          | _ => trivial
  | measuring w => exact ElementWalk.Clear.further h hs
  | _ => trivial

end

namespace Turn

/-- What is cleared for a thread. -/
structure Tracks (lib : Library σ) (named : RecordId → Nat → RecordId) (t : Turn σ) : Prop where
  walk : ∀ w d below, t.control = .lay w → t.frames = .stepping d :: below →
    w.Clear lib named t.store
  measure : ∀ w, t.control = .measure w → w.Clear t.store
  /-- What it hands to a step. -/
  words : ∀ v words d below, t.control = .give v (.scratch words) →
    t.frames = .stepping d :: below → t.store.Clears lib named d.registry d.record (words.get 0)
  about : ∀ registry y, Looks t.store t.frames registry y →
    t.control.About t.store registry y
  frames : Layered (Frame.Tracks lib named t.store) t.frames

/-- The walk over fields that a step waits for, when it is about to go on, and
what it is told. -/
def told? (t : Turn σ) : Option (FieldWalk σ × Response) :=
  match t.control, t.frames with
  | .give (.response r) _, .laying w :: .stepping _ :: _ => some (w, r)
  | _, _ => none

/-- A program that has computed the type of a field answers with the record that
is named, in no later a stage than it is in. -/
def candid (named : RecordId → Nat → RecordId) (t : Turn σ) : Bool :=
  t.told?.all fun (w, r) =>
    w.looksUp || (r.record == named w.record w.index && decide (r.record < t.store.records.size)
      && decide (r.stage ≤ t.store.stageOf w.registry r.record))

theorem told?_some {t : Turn σ} {w : FieldWalk σ} {r : Response} :
    t.told? = some (w, r) ↔ (∃ left, t.control = .give (.response r) left)
      ∧ ∃ d below, t.frames = .laying w :: .stepping d :: below := by
  unfold told?
  constructor
  · intro h
    split at h
    · rename_i hc hf
      cases h
      exact ⟨⟨_, hc⟩, _, _, hf⟩
    · cases h
  · rintro ⟨⟨left, hc⟩, d, below, hf⟩
    rw [hc, hf]

variable {lib : Library σ} {named : RecordId → Nat → RecordId} {a : Actor} {t t' : Turn σ}
  {others : List Hold} {registry : RegistryId} {y : RecordId}

-- ====================================================== the topmost frame

theorem Tracks.laying {w : FieldWalk σ} {d : Drive} {below : List (Frame σ)}
    (ht : t.Tracks lib named) (hf : t.frames = .laying w :: .stepping d :: below) :
    w.Clear lib named t.store := by
  have hframes := ht.frames
  rw [hf] at hframes
  exact hframes.1

theorem Tracks.measuring {w : ElementWalk} {below : List (Frame σ)} (ht : t.Tracks lib named)
    (hf : t.frames = .measuring w :: below) : w.Clear t.store := by
  have hframes := ht.frames
  rw [hf] at hframes
  exact hframes.1

/-- Whatever is looked up is there. -/
theorem Tracks.looks_there {H : List Hold} (ht : t.Tracks lib named)
    (hs : t.store.Tracked lib named H) (h : Looks t.store t.frames registry y) :
    y < t.store.records.size := by
  have hframes := ht.frames
  revert h hframes
  generalize t.frames = fs
  intro h hframes
  cases h with
  | field hy => exact FieldWalk.Clear.next_there hframes.1 hs hy
  | element hw => exact ElementWalk.Clear.next_there hframes.1 hs hw

/-- The answer that a field gets is one for the record of the field. -/
theorem Tracks.field {w : FieldWalk σ} {d : Drive} {below : List (Frame σ)} {r : Response}
    {left : Local} (ht : t.Tracks lib named) (hs : t.store.Informed lib)
    (ho : t.store.Owned (t.holds a.id ++ others)) (hp : t.store.Paired (t.holds a.id ++ others))
    (hcandid : t.candid named = true) (hc : t.control = .give (.response r) left)
    (hf : t.frames = .laying w :: .stepping d :: below)
    (hy : t.store.typeOf? lib named w.record w.index = some y) : t.store.Meets w.registry y r := by
  have hw := ht.laying hf
  cases hl : w.looksUp with
  | true =>
      have hhears := ht.about w.registry y (hf ▸ .field ((hw.next?_eq hl).trans hy))
      rw [hc] at hhears
      exact hhears
  | false =>
      unfold candid at hcandid
      rw [told?_some.mpr ⟨⟨left, hc⟩, d, below, hf⟩] at hcandid
      simp only [Option.all_some, hl, Bool.false_or, Bool.and_eq_true, beq_iff_eq,
        decide_eq_true_eq] at hcandid
      obtain ⟨⟨hrecord, hthere⟩, hstage⟩ := hcandid
      have hmeets := Store.meets_of_truthful hs ho hp hthere hstage
      rw [hw.computed hl hy, ← hrecord]
      exact hmeets

/-- A field that a walk goes past is cleared. -/
theorem Tracks.passes {w : FieldWalk σ} {d : Drive} {below : List (Frame σ)} {r : Response}
    (ht : t.Tracks lib named) (hf : t.frames = .laying w :: .stepping d :: below)
    (hmeets : t.store.Meets w.registry y r)
    (hon : ¬ (w.scratch.get 0 ≤ w.index ∧ ¬ r.stage.satisfies .layoutComplete = true))
    (hy : t.store.typeOf? lib named w.record w.index = some y) :
    t.store.Cleared w.registry y := by
  by_cases hearlier : w.scratch.get 0 ≤ w.index
  · have hlate := Decidable.not_not.mp fun hno => hon ⟨hearlier, hno⟩
    exact hmeets.layout (Stage.satisfies_iff.mp hlate)
  · exact (ht.laying hf).words.fields w.index (Nat.not_le.mp hearlier) y hy

-- ====================================================== scratch words

/-- A step that has come to its outcome is about to publish it. -/
theorem control_of_concluding {u u' : ThreadId} {d : Drive} {o : StepOutcome}
    (hm : .concluding u' d o ∈ t.holds u) : t.control = .publish d o := by
  rcases List.mem_append.mp hm with hm | hm
  · cases hc : t.control with
    | publish d' o' =>
        rw [hc] at hm
        cases List.mem_singleton.mp hm
        rfl
    | release d' dep ready =>
        rw [hc] at hm
        rcases List.mem_cons.mp hm with heq | hm
        · cases heq
        · obtain ⟨w, -, heq⟩ := List.mem_map.mp hm
          cases heq
    | _ => rw [hc] at hm; cases hm <;> rename_i hm <;> cases hm
  · obtain ⟨f, -, hm⟩ := List.mem_flatMap.mp hm
    cases f with
    | releasing d' dep ready =>
        rcases List.mem_cons.mp hm with heq | hm
        · cases heq
        · obtain ⟨w, -, heq⟩ := List.mem_map.mp hm
          cases heq
    | _ => cases hm <;> rename_i hm <;> cases hm

/-- Where the scratch words come from that a thread has for an initialization
after a step. -/
inductive Carries (a : Actor) (t t' : Turn σ) (d' : Drive) : Prop
  /-- It had them. -/
  | kept {hold : Hold} {d : Drive} (hm : hold ∈ t.holds a.id) (hd : hold.drive? = some d)
      (hregistry : d'.registry = d.registry) (hrecord : d'.record = d.record)
      (hwords : d'.scratch = d.scratch)
  /-- There has been no step before. -/
  | fresh {al : Allocation} (hm : .fresh al ∈ t.holds a.id) (hrecord : d'.record = al.record)
      (hwords : d'.scratch = .zero)
  /-- The entry has kept them. -/
  | saved {i : EntryId} {e : Entry} (he : t.store.entries[i]? = some e)
      (hregistry : e.registry = d'.registry) (hrecord : e.record = some d'.record)
      (hwords : e.saved = some d'.scratch)
  /-- A step has left them behind. -/
  | concluded {o : StepOutcome} (hc : t'.control = .publish d' o)

theorem Shift.carries (h : Shift lib a t t') (ho : t.store.Owned (t.holds a.id ++ others))
    {hold : Hold} {d' : Drive} (hm : hold ∈ t'.holds a.id) (hd : hold.drive? = some d') :
    Carries a t t' d' := by
  have hkept : ∀ {hold : Hold} {d : Drive}, hold ∈ t.holds a.id → hold.drive? = some d →
      d'.registry = d.registry → d'.record = d.record → d'.scratch = d.scratch →
      Carries a t t' d' := fun hm hd => .kept hm hd
  have hsame : hold ∈ t.holds a.id → Carries a t t' d' := fun hm => hkept hm hd rfl rfl rfl
  have hready : ∀ {registry : RegistryId} {ws : List Waiter},
      hold ∉ ws.map (Hold.ready registry) := fun hw => by
    obtain ⟨w, -, rfl⟩ := List.mem_map.mp hw
    cases hd
  cases h with
  | quiet ha hh => exact hsame (hh.mem_iff.mp hm)
  | lose hdis ha hh => exact hsame (hh.mem_iff.mpr (List.mem_append_right _ hm))
  | forget hc hn ha hh => exact hsame (hh.mem_iff.mpr (List.mem_cons_of_mem _ hm))
  | finish hc hs ha hh => exact hsame (hh ▸ List.mem_cons_of_mem _ hm)
  | strand hc hi hs ha hh => exact hsame (hh ▸ List.mem_cons_of_mem _ hm)
  | park hc hq hi hu he hk hh => exact hsame (hh ▸ List.mem_cons_of_mem _ hm)
  | create hc hf he hk hh =>
      rcases List.mem_cons.mp (hh.mem_iff.mp hm) with rfl | hm
      · cases hd
      · exact hsame hm
  | proceed hp ha hh hh' =>
      have hfirst := hh.mem_iff.mpr List.mem_cons_self
      rcases List.mem_cons.mp (hh'.mem_iff.mp hm) with rfl | hrest
      · cases hp with
        | conclude words ho =>
            cases hd
            exact .concluded (control_of_concluding hm)
        | again hu =>
            cases hd
            exact hkept hfirst rfl rfl rfl rfl
      · exact hsame (hh.mem_iff.mpr (List.mem_cons_of_mem _ hrest))
  | allocate hc hs he hk hh hh' =>
      rw [hh'] at hm
      rcases List.mem_append.mp hm with hnew | hrest
      · split at hnew
        · cases hnew
        · obtain rfl := List.mem_singleton.mp hnew
          cases hd
          exact .fresh (hh ▸ List.mem_cons_self) rfl rfl
      · exact hsame (hh ▸ List.mem_cons_of_mem _ hrest)
  | @publish d o e rest hc hi he hk hh hh' =>
      rw [hh'] at hm
      rcases List.mem_append.mp hm with hnew | hrest
      · rcases List.mem_cons.mp hnew with rfl | hw
        · cases hd
          exact .kept (d := d) (hh ▸ List.mem_cons_self) rfl rfl rfl rfl
        · exact (hready hw).elim
      · exact hsame (hh ▸ List.mem_cons_of_mem _ hrest)
  | resume hc hi hr ht he hk hh hh' =>
      have hfirst := hh.mem_iff.mpr List.mem_cons_self
      obtain ⟨hreg, -⟩ := ho.suits (List.mem_append_left others hfirst) hi
      rw [hh'] at hm
      rcases List.mem_cons.mp hm with rfl | hrest
      · cases hd
        exact .saved hi hreg hr (Entry.reclaim?_some ht).1
      · exact hsame (hh.mem_iff.mpr (List.mem_cons_of_mem _ hrest))
  | suspend hc hcy hw he hk hc' hh hh' =>
      rw [hh'] at hm
      rcases List.mem_cons.mp hm with rfl | hrest
      · cases hd
        exact hkept (hh ▸ List.mem_cons_self) rfl rfl rfl rfl
      · exact hsame (hh ▸ List.mem_cons_of_mem _ hrest)
  | @reclaim d dep own taken scratch rest hc hi ht he hk hh hh' =>
      have hfirst : .leaving d dep ∈ t.holds a.id := hh ▸ List.mem_cons_self
      have hleft : own.Left d dep := ho.suits (List.mem_append_left others hfirst) hi
      rw [hh'] at hm
      rcases List.mem_cons.mp hm with rfl | hrest
      · cases hd
        exact .saved hi hleft.registry hleft.record (Entry.reclaim?_some ht).1
      · exact hsame (hh ▸ List.mem_cons_of_mem _ hrest)

/-- The words that a step leaves behind when it comes to its outcome count
fields that are cleared. -/
theorem Tracks.concludes (ht : t.Tracks lib named) (hstands : t.Stands)
    (hs : t.store.Tracked lib named (t.holds a.id ++ others)) (h : t.step lib a = some t')
    {d' : Drive} {o : StepOutcome} (hc' : t'.control = .publish d' o) :
    t.store.Clears lib named d'.registry d'.record (d'.scratch.get 0) := by
  have hheld : ∀ {d : Drive}, .active a.id d ∈ t.holds a.id →
      t.store.Clears lib named d.registry d.record (d.scratch.get 0) := fun hm =>
    hs.drives (List.mem_append_left _ hm) rfl
  cases step_concludes hstands h hc' with
  | closing s hc hr horigin hn hout => exact hheld (mem_holds_of_control hc List.mem_cons_self)
  | tuple hc hstore hd hout =>
      rw [hd]
      exact hheld (mem_holds_of_control hc List.mem_cons_self)
  | element hc hf hd hout =>
      rw [hd]
      exact hheld (mem_holds_of_frame (hf ▸ List.mem_cons_self) List.mem_cons_self)
  | @stopped d dep words rest hc hf hstore hd hout =>
      rw [hd]
      exact ht.words _ words d rest hc hf
  | @finished d words rest s hc hf hstore hd hout =>
      rw [hd]
      exact ht.words _ words d rest hc hf

theorem step_further (h : t.step lib a = some t')
    (hp : t.store.Paired (t.holds a.id ++ others)) : t.store.Further t'.store :=
  ⟨(step_shift h).grows, (step_writes h).gains, _, hp⟩

/-- Whatever a thread does, what is kept for it and for others is cleared. -/
theorem Tracks.tracked (ht : t.Tracks lib named) (hstands : t.Stands)
    (hs : t.store.Tracked lib named (t.holds a.id ++ others))
    (ho : t.store.Owned (t.holds a.id ++ others)) (hp : t.store.Paired (t.holds a.id ++ others))
    (hnames : ∀ x ∈ t.control.names, x < t.store.records.size) (h : t.step lib a = some t') :
    t'.store.Tracked lib named (t'.holds a.id ++ others) := by
  have hshift := step_shift h
  have hfurther := step_further h hp
  have hsize := hfurther.records.size_le
  refine {
    founded := fun {x y r'} hr' hy => ?_
    placed := fun d hd field hf y htype =>
      Nat.lt_of_lt_of_le (hs.placed d hd field hf y htype) hsize
    saved := fun {i e' x words} he' hr' hw => ?_
    drives := fun {hold d'} hm hd => ?_ }
  · rcases (step_writes h).record hfurther.records hr' with
      ⟨r, hr, hgains⟩ | ⟨_, _, c, _, _, hc, hmade, -⟩
    · rw [hgains.arguments] at hy
      exact Nat.lt_of_lt_of_le (hs.founded hr hy) hsize
    · rw [Library.arguments_of_made hmade] at hy
      rw [hc] at hnames
      exact Nat.lt_of_lt_of_le (hnames y hy) hsize
  · have hregistry : ∀ {e : Entry}, t.store.entries[i]? = some e → e'.registry = e.registry :=
      fun he => by
        obtain ⟨e'', he'', hreg, -⟩ := hfurther.grows.labels_getElem? he
        obtain rfl := Option.some.inj (he'.symm.trans he'')
        exact hreg
    rcases hshift.saved ho he' hw with ⟨e, he, hsaved, hrecord⟩ | ⟨d, dep, hc, hd, rfl⟩
    · rw [hregistry he]
      exact (hs.saved he (hrecord.trans hr') hsaved).further hfurther
    · -- it has been suspended, and the entry is the one of its record
      obtain rfl := Option.some.inj (hd.symm.trans hr')
      have hm : .stopping a.id d (some dep) ∈ t.holds a.id ++ others :=
        List.mem_append_left _ (mem_holds_of_control hc List.mem_cons_self)
      obtain ⟨e, he, hdriven, -⟩ := ho.fits hm
      have hplace : t'.store.place d.record = d.entry := by
        have hthere := Store.lt_size_of_keyOf (ho.keyed he hdriven.record)
        rw [hfurther.grows.place (Nat.le_of_lt hthere)]
        exact hp.record he hdriven.record
      have hi : d.entry = i := hplace.symm.trans ((hshift.paired ho hp).record he' hr')
      obtain rfl := hi
      rw [hregistry he, hdriven.registry]
      exact (hs.drives hm rfl).further hfurther
  · rcases List.mem_append.mp hm with hm | hm
    · cases hshift.carries ho hm hd with
      | kept hold hdrive hregistry hrecord hwords =>
          rw [hregistry, hrecord, hwords]
          exact (hs.drives (List.mem_append_left _ hold) hdrive).further hfurther
      | fresh hfresh hrecord hwords =>
          obtain ⟨_, -, -, -, hkey⟩ := ho.fits (List.mem_append_left others hfresh)
          rw [hrecord, hwords]
          exact .zero (Nat.lt_of_lt_of_le (Store.lt_size_of_keyOf hkey) hsize)
      | saved he hregistry hrecord hwords =>
          rw [← hregistry]
          exact (hs.saved he hrecord hwords).further hfurther
      | concluded hc => exact (ht.concludes hstands hs h hc).further hfurther
    · exact (hs.drives (List.mem_append_right _ hm) hd).further hfurther

-- ====================================================== looking up

/-- What the thread is told where something is looked up is about that. -/
theorem consult_about {f : Frame σ} {H : List Hold} {q : Request} (ho : t.store.Owned H)
    (hp : t.store.Paired H) (hy : y < t.store.records.size)
    (hone : ∀ {registry' y'}, Looks t.store (f :: t.frames) registry' y' →
      registry' = registry ∧ y' = y)
    (ht' : t' = ({ t with frames := f :: t.frames }).consult registry q y)
    {registry' : RegistryId} {y' : RecordId} (h : Looks t'.store t'.frames registry' y') :
    t'.control.About t'.store registry' y' := by
  have hframes : t'.frames = f :: t.frames := by rw [ht', consult_frames]
  have hstore : t'.store = t.store := by rw [ht', consult_store]
  rw [hframes, hstore] at h
  obtain ⟨rfl, rfl⟩ := hone h
  rw [hstore, ht']
  unfold consult
  split
  · rename_i i hi
    exact hi
  · rename_i hi
    exact Store.meets_of_unfound ho hp hy hi

theorem about_of_fails {c : Control σ} {s : Store} (h : c.fails = true) :
    c.About s registry y := by
  cases c with
  | give v left => cases h
  | await registry' i q => cases h
  | _ => trivial

theorem step_about (ht : t.Tracks lib named) (hstands : t.Stands) (hlib : lib.Stock)
    (hi : t.store.Informed lib) (hs : t.store.Tracked lib named (t.holds a.id ++ others))
    (ho : t.store.Owned (t.holds a.id ++ others)) (hp : t.store.Paired (t.holds a.id ++ others))
    (h : t.step lib a = some t') (hl : Looks t'.store t'.frames registry y) :
    t'.control.About t'.store registry y := by
  cases step_lands hlib hstands h with
  | «open» hf hc => exact (hl.not_open hf).elim
  | fails hc => exact about_of_fails hc
  | program hc hf => rw [hf] at hl; cases hl
  | begun hc hs hr hd hcomp hc' hf => rw [hf] at hl; cases hl
  | done hc hw hs hwords hc' hf => rw [hc']; trivial
  | @field w z hc hz ht' =>
      have hsame : ∀ {registry' y'}, Looks t.store (.laying w :: t.frames) registry' y' →
          registry' = w.registry ∧ y' = z ∧ w.Clear lib named t.store := fun hl => by
        generalize hfs : t.frames = fs at hl
        cases hl with
        | field hy => exact ⟨rfl, Option.some.inj (hy.symm.trans hz), ht.walk w _ _ hc hfs⟩
      have hstore : t'.store = t.store := by rw [ht', consult_store]
      have hframes : t'.frames = .laying w :: t.frames := by rw [ht', consult_frames]
      have hclear := (hsame (hframes ▸ hstore ▸ hl)).2.2
      exact consult_about ho hp (hclear.next_there hs hz)
        (fun hl => ⟨(hsame hl).1, (hsame hl).2.1⟩) ht' hl
  | @element w z rest hc hw ht' =>
      refine consult_about ho hp ((ht.measure w hc).next_there hs hw) (fun hl => ?_) ht' hl
      cases hl with
      | element hw' => exact ⟨rfl, (List.cons.inj (hw'.symm.trans hw)).1⟩
  | answered hc he hlook ht' =>
      subst ht'
      have hasks := ht.about registry y hl
      rw [hc] at hasks
      exact Store.meets_of_look hi ho hp (ht.looks_there hs hl) hasks he hlook
  | @settled w r left rest hc hf ht' =>
      rw [ht']
      unfold laid
      split <;> trivial

-- ====================================================== walks

/-- A walk that goes on after an answer has cleared the field. -/
theorem Tracks.settled {w w' : FieldWalk σ} {d : Drive} {below : List (Frame σ)} {r : Response}
    {left : Local} (ht : t.Tracks lib named) (hi : t.store.Informed lib)
    (ho : t.store.Owned (t.holds a.id ++ others)) (hp : t.store.Paired (t.holds a.id ++ others))
    (hcandid : t.candid named = true) (hc : t.control = .give (.response r) left)
    (hf : t.frames = .laying w :: .stepping d :: below)
    (hc' : (({ t with frames := .stepping d :: below }).laid w r).control = .lay w') :
    w'.Clear lib named t.store := by
  have hw := ht.laying hf
  unfold laid at hc'
  split at hc'
  · cases hc'
  · rename_i hon
    cases hc'
    obtain ⟨x, desc, hx, hd, htodo⟩ := hw.todo
    refine ⟨⟨x, desc, hx, hd, ?_⟩, hw.words, hw.passed.succ fun y hy =>
      ht.passes hf (ht.field hi ho hp hcandid hc hf hy) hon hy⟩
    show w.todo.tail = _
    rw [htodo, List.tail_drop]

theorem Tracks.step_walk (ht : t.Tracks lib named) (hstands : t.Stands) (hlib : lib.Stock)
    (hi : t.store.Informed lib) (hs : t.store.Tracked lib named (t.holds a.id ++ others))
    (ho : t.store.Owned (t.holds a.id ++ others)) (hp : t.store.Paired (t.holds a.id ++ others))
    (hcandid : t.candid named = true) (h : t.step lib a = some t') {w : FieldWalk σ} {d : Drive}
    {below : List (Frame σ)} (hc' : t'.control = .lay w) (hf' : t'.frames = .stepping d :: below) :
    w.Clear lib named t'.store := by
  have hno : t'.control.plain = true → False := fun hplain => by
    rw [hc'] at hplain
    cases hplain
  have hfurther := step_further h hp
  cases step_lands hlib hstands h with
  | «open» hf hc => exact (hc w hc').elim
  | fails hc => rw [hc'] at hc; cases hc
  | program hc hf => rw [hf] at hf'; cases hf'
  | @begun d' r desc hc hstage hr hd hcomp hlay hf =>
      rw [hlay] at hc'
      cases hc'
      have hm : .active a.id d' ∈ t.holds a.id := mem_holds_of_control hc List.mem_cons_self
      exact (FieldWalk.Clear.begin hr hd
        (hs.drives (List.mem_append_left _ hm) rfl)).further hfurther
  | done hc hw hstore hwords hgive hf => rw [hgive] at hc'; cases hc'
  | field hc hy ht' => exact (hno (ht' ▸ consult_plain ..)).elim
  | element hc hw ht' => exact (hno (ht' ▸ consult_plain ..)).elim
  | answered hc he hlook ht' => rw [ht'] at hc'; cases hc'
  | @settled w' r left rest hc hf ht' =>
      have hrest : rest = .stepping d :: below := by
        rw [ht', laid_frames] at hf'
        exact hf'
      subst hrest
      have hsame : t'.store = t.store := by
        rw [ht']
        unfold laid
        split <;> rfl
      rw [hsame]
      exact ht.settled hi ho hp hcandid hc hf (ht' ▸ hc')

/-- A walk over elements that goes on has cleared the element. -/
theorem Tracks.step_measure (ht : t.Tracks lib named)
    (hp : t.store.Paired (t.holds a.id ++ others)) (h : t.step lib a = some t')
    {w : ElementWalk} (hc' : t'.control = .measure w) : w.Clear t'.store := by
  have hno : t'.control.plain = true → False := fun hplain => by
    rw [hc'] at hplain
    cases hplain
  have hfurther := step_further h hp
  rcases step_plain h with hplain | hventures
  · exact (hno hplain).elim
  refine ElementWalk.Clear.further (s := t.store) ?_ hfurther
  cases hventures with
  | begin hc =>
      cases begin_begins (step_begin hc h) with
      | tuple hr horigin hmeasure hf =>
          rw [hmeasure] at hc'
          cases hc'
          exact ⟨_, [], hr, rfl, nofun⟩
      | closing s hr horigin hn hpublish hf => rw [hpublish] at hc'; cases hc'
      | walk hr hd hcomp hs hlay hf => rw [hlay] at hc'; cases hc'
      | callback hr hd hcomp hrun hf => rw [hrun] at hc'; cases hc'
  | measure hc =>
      cases Turn.step_measure hc h with
      | done => cases hc'
      | consult => exact (hno (consult_plain ..)).elim
  | give hc =>
      cases give_takes (step_give hc h) with
      | plain hplain => exact (hno hplain).elim
      | step hv hf ht' =>
          obtain ⟨words, o, hstepped, -⟩ := stepped_spec { t with frames := _ } _ _ _
          rw [ht', hstepped] at hc'
          cases hc'
      | field hv hf ht' =>
          subst ht'
          unfold laid at hc'
          split at hc' <;> cases hc'
      | @element w' r rest hv hf ht' =>
          subst hv ht'
          have hclear := ht.measuring hf
          unfold measured at hc'
          cases hw : w'.todo with
          | nil =>
              rw [hw] at hc'
              cases hc'
              exact hclear
          | cons y todo =>
              rw [hw] at hc'
              simp only at hc'
              split at hc'
              · rename_i hlate
                cases hc'
                have hhears := ht.about w'.drive.registry y (hf ▸ .element hw)
                rw [hc] at hhears
                obtain ⟨x, past, hx, hpast, hall⟩ := hclear
                refine ⟨x, past ++ [y], hx, ?_, fun z hz => ?_⟩
                · rw [hpast, hw, List.append_assoc, List.singleton_append]
                · rcases List.mem_append.mp hz with hz | hz
                  · exact hall z hz
                  · obtain rfl := List.mem_singleton.mp hz
                    exact hhears.layout (Stage.satisfies_iff.mp hlate)
              · cases hc'
  | program hc =>
      cases step_run hc h with
      | structLayout =>
          unfold startLayout at hc'
          split at hc' <;> cases hc'
      | refuse hp => cases hp

/-- The words that a walk leaves behind count the fields it has passed. -/
theorem Tracks.step_words (ht : t.Tracks lib named) (hstands : t.Stands) (hlib : lib.Stock)
    (hp : t.store.Paired (t.holds a.id ++ others)) (h : t.step lib a = some t') {v : Value}
    {words : Scratch} {d : Drive} {below : List (Frame σ)}
    (hc' : t'.control = .give v (.scratch words)) (hf' : t'.frames = .stepping d :: below) :
    t'.store.Clears lib named d.registry d.record (words.get 0) := by
  have hfurther := step_further h hp
  have hcontrol := hstands.control
  cases step_lands hlib hstands h with
  | «open» hf hc => rw [hf'] at hf; cases hf
  | fails hc => rw [hc'] at hc; cases hc
  | program hc hf => rw [hf] at hf'; cases hf'
  | begun hc hstage hr hd hcomp hlay hf => rw [hlay] at hc'; cases hc'
  | @done w words' hc hw hstore hwords hgive hf =>
      rw [hgive] at hc'
      cases hc'
      rw [hf] at hf'
      rw [hc, hf'] at hcontrol
      rw [← hcontrol.1, ← hcontrol.2]
      exact ((ht.walk w d below hc hf').left hwords).further hfurther
  | field hc hy ht' => rw [ht', consult_frames] at hf'; cases hf'
  | element hc hw ht' => rw [ht', consult_frames] at hf'; cases hf'
  | answered hc he hlook ht' => rw [ht'] at hc'; cases hc'
  | @settled w r left rest hc hf ht' =>
      have hrest : rest = .stepping d :: below := by
        rw [ht', laid_frames] at hf'
        exact hf'
      subst hrest
      have hframes := hstands.frames
      rw [hf] at hframes
      rw [ht'] at hc'
      unfold laid at hc'
      split at hc'
      · cases hc'
        obtain ⟨hregistry, hrecord⟩ := hframes.1
        rw [← hregistry, ← hrecord]
        exact ((ht.laying hf).left (Vector.getElem_set_self ..)).further hfurther
      · cases hc'

-- ====================================================== every step keeps it

/-- What is put on the stack is cleared as the control was. -/
theorem Opens.tracks {f : Frame σ} {above : List (Frame σ)} (h : t.Opens f)
    (ht : t.Tracks lib named) (habove : ∀ g ∈ above, t.Opens g ∧ g.isCall = true) :
    f.Tracks lib named t.store (above ++ t.frames) := by
  cases h with
  | @call p s f hc hf => cases f <;> trivial
  | @laying w hc =>
      rw [above_of_lay hc habove, List.nil_append]
      cases hfs : t.frames with
      | nil => trivial
      | cons g below =>
          cases g with
          | stepping d => exact ht.walk w d below hc hfs
          | _ => trivial
  | measuring hc => exact ht.measure _ hc
  | _ => trivial

/-- A step of a thread keeps what is cleared for it. -/
theorem Tracks.step (ht : t.Tracks lib named) (hstands : t.Stands) (hlib : lib.Stock)
    (hi : t.store.Informed lib) (hs : t.store.Tracked lib named (t.holds a.id ++ others))
    (ho : t.store.Owned (t.holds a.id ++ others)) (hp : t.store.Paired (t.holds a.id ++ others))
    (hcandid : t.candid named = true) (h : t.step lib a = some t') : t'.Tracks lib named where
  walk _ _ _ hc' hf' := ht.step_walk hstands hlib hi hs ho hp hcandid h hc' hf'
  measure _ hc' := ht.step_measure hp h hc'
  words _ _ _ _ hc' hf' := ht.step_words hstands hlib hp h hc' hf'
  about _ _ hl := step_about ht hstands hlib hi hs ho hp h hl
  frames := layered_step (ht.frames.imp fun hf => hf.further (step_further h hp)) h
    fun _ _ hopens habove => (hopens.tracks ht habove).further (step_further h hp)

/-- A thread that is about to run a program on its own has nothing to clear. -/
theorem Tracks.start {p : Program σ Value} {s : Setting σ} (hc : t.control = .run p s)
    (hf : t.frames = []) : t.Tracks lib named where
  walk w d below hlay := by rw [hc] at hlay; cases hlay
  measure w hmeasure := by rw [hc] at hmeasure; cases hmeasure
  words v words d below hgive := by rw [hc] at hgive; cases hgive
  about registry y hl := by rw [hf] at hl; cases hl
  frames := by rw [hf]; trivial

/-- A program that concerns other threads goes on where it stands. -/
theorem Tracks.program {p' : Program σ Value} {s : Setting σ} (ht : t.Tracks lib named)
    (hc' : t'.control = .run p' s) (hf : t'.frames = t.frames) (hs : t'.store = t.store) :
    t'.Tracks lib named where
  walk w d below hlay := by rw [hc'] at hlay; cases hlay
  measure w hmeasure := by rw [hc'] at hmeasure; cases hmeasure
  words v words d below hgive := by rw [hc'] at hgive; cases hgive
  about registry y hl := by rw [hc']; trivial
  frames := by rw [hf, hs]; exact ht.frames

/-- What is looked up does not depend on what other threads write. -/
theorem Tracks.looks_back {s : Store} (ht : t.Tracks lib named) (hs : t.store.Further s)
    (h : Looks s t.frames registry y) : Looks t.store t.frames registry y := by
  have hframes := ht.frames
  revert h hframes
  generalize t.frames = fs
  intro h hframes
  cases h with
  | field hy =>
      have hw : FieldWalk.Clear _ lib named t.store := hframes.1
      have hlooks := FieldWalk.looksUp_of_next? hy
      refine .field ?_
      rw [hw.next?_eq hlooks, ← hs.typeOf? hw.there, ← (hw.further hs).next?_eq hlooks]
      exact hy
  | element hw => exact .element hw

/-- What other threads write does not disturb it. -/
theorem Tracks.further (ht : t.Tracks lib named) (hc : t'.control = t.control)
    (hf : t'.frames = t.frames) (h : t.store.Further t'.store) : t'.Tracks lib named where
  walk w d below hlay hbelow := (ht.walk w d below (hc ▸ hlay) (hf ▸ hbelow)).further h
  measure w hmeasure := (ht.measure w (hc ▸ hmeasure)).further h
  words v words d below hgive hbelow :=
    (ht.words v words d below (hc ▸ hgive) (hf ▸ hbelow)).further h
  about registry y hl := by
    rw [hf] at hl
    have hlooks := ht.looks_back h hl
    have habout := ht.about registry y hlooks
    rw [hc]
    cases hcontrol : t.control with
    | await registry' i q =>
        rw [hcontrol] at habout
        exact h.grows.entryOf? habout
    | give v left =>
        rw [hcontrol] at habout
        cases v with
        | response r => exact Store.Meets.further habout h
        | _ => trivial
    | _ => trivial
  frames := by
    rw [hf]
    exact ht.frames.imp fun hframe => hframe.further h

end Turn

-- ====================================================== processes

namespace Machine

variable {lib : Library σ} {named : RecordId → Nat → RecordId} {start m m' : Machine σ}
  {t : ThreadId}

/-- Programs that have computed the type of a field tell the truth. -/
def Candid (named : RecordId → Nat → RecordId) (m : Machine σ) : Prop :=
  ∀ thread ∈ m.threads, (m.turn thread).candid named = true

instance (named : RecordId → Nat → RecordId) (m : Machine σ) : Decidable (m.Candid named) :=
  inferInstanceAs (Decidable (∀ thread ∈ m.threads, _))

structure Tracked (lib : Library σ) (named : RecordId → Nat → RecordId) (m : Machine σ) :
    Prop where
  store : m.store.Tracked lib named m.holds
  threads : ∀ {u : ThreadId} {thread : Thread σ}, m.threads[u]? = some thread →
    (m.turn thread).Tracks lib named

theorem step_further (h : m.step lib t = some m') (hp : m.store.Paired m.holds) :
    m.store.Further m'.store := by
  obtain ⟨-, thread, hthread, hs⟩ := step_cases h
  cases hs with
  | alone hturn => exact Turn.step_further hturn (hp.perm (holds_split hthread).symm)
  | program p' started hc hres hstore hthreads hnew =>
      rw [hstore]
      exact ⟨.refl m.store, .refl m.store.records, _, hp⟩

theorem Tracked.step (hm : m.Tracked lib named) (h : m.step lib t = some m') (hlib : lib.Stock)
    (hi : m.Informed lib) (ho : m.store.Owned m.holds) (hp : m.store.Paired m.holds)
    (hground : m.Grounded) (hcandid : m.Candid named) : m'.Tracked lib named where
  store := by
    obtain ⟨-, thread, hthread, hs⟩ := step_cases h
    have hmem := Array.mem_of_getElem? hthread
    cases hs with
    | @alone turn hturn =>
        have hperm := (holds_split hthread).symm
        exact ((hm.threads hthread).tracked (hi.stands hthread) (hm.store.perm hperm)
          (ho.perm hperm) (hp.perm hperm) (hground thread hmem) hturn).perm
          (holds_after hthread turn)
    | program p' started hc hres hstore hthreads hnew =>
        rw [hstore]
        exact hm.store.perm (holds_program hthread hc hthreads hnew)
  threads hu := by
    refine step_threads (P := Turn.Tracks lib named) h (fun hthread hturn _ => ?_)
      (fun hthread hc hres hstore => (hm.threads hthread).program rfl rfl hstore)
      (fun hu => (hm.threads hu).further rfl rfl (step_further h hp))
      (fun hframes ⟨p, s, hrun⟩ => .start hrun hframes) hu
    have hperm := (holds_split hthread).symm
    exact (hm.threads hthread).step (hi.stands hthread) hlib hi.store (hm.store.perm hperm)
      (ho.perm hperm) (hp.perm hperm) (hcandid _ (Array.mem_of_getElem? hthread)) hturn

theorem Fresh.tracked (hf : start.Fresh) (hwhole : start.store.Whole)
    (hplaced : lib.Placed start.store.records.size) : start.Tracked lib named where
  store := {
    founded := fun {x y r} hr hy => by
      refine hwhole r (Array.mem_of_getElem? hr) y ?_
      unfold Record.referents
      split
      · exact List.mem_cons_of_mem _ hy
      · exact hy
    placed := hplaced
    saved := fun he => by rw [hf.entries] at he; simp at he
    drives := fun hm => by
      obtain ⟨e, he, -⟩ := hf.owned.fits hm
      rw [hf.entries] at he
      simp at he }
  threads hu := by
    obtain ⟨hframes, p, s, hrun⟩ := hf.running _ (Array.mem_of_getElem? hu)
    exact .start hrun hframes

theorem Run.tracked (hlib : lib.Stock) (hf : start.Fresh) (hwhole : start.store.Whole)
    (hplaced : lib.Placed start.store.records.size)
    (h : Run lib (fun m _ => m.Grounded ∧ m.Candid named) start m) : m.Tracked lib named := by
  induction h with
  | refl => exact hf.tracked hwhole hplaced
  | step t h hok hs ih =>
      have hr := h.reachable
      exact ih.step hs hlib (hr.informed hlib hf) (hr.owned hf) (hr.paired hf) hok.1 hok.2

end Machine

end TypeRecords
