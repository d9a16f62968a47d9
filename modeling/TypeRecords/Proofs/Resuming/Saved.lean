/-
What the steps of a record leave behind.

The words of a completion step go from hand to hand. The thread that runs the step has
them in its frame; where the step has come to an outcome they go with it, and if the
initialization is parked they are kept with its entry until somebody takes it up
(`Machine.LeftBehind`). For a record that is completed by laying out its fields they
count fields whose layouts are known, wherever they are (`Store.Counted`).

They come from walks. Above the frame of such a step its walk is under way
(`Turn.LaysOut`), so what the step is handed is the outcome of that walk, with the words
that go with it. All else that may become an outcome leaves the words as they are
(`publish_brings`). The two parts need each other: a walk begins with the words of its
step.
-/
import TypeRecords.Proofs.Fields.Tracking
import TypeRecords.Proofs.Resuming.Laying

namespace TypeRecords

variable {σ : Type}

namespace Store

/-- The words that are kept for a record with fields count fields whose layouts are
known. -/
structure Counted (lib : Library σ) (registry : RegistryId) (terms : DescriptorId → List Term)
    (s : Store) (H : List Hold) : Prop where
  saved : ∀ {i : EntryId} {e : Entry} {x : RecordId} {words : Scratch} {fields : List (Field σ)},
    s.entries[i]? = some e → e.record = some x → e.saved = some words → s.Struct lib x fields →
    s.Counts registry terms x words
  drives : ∀ {hold : Hold} {d : Drive} {fields : List (Field σ)}, hold ∈ H →
    hold.drive? = some d → s.Struct lib d.record fields → s.Counts registry terms d.record d.scratch

variable {lib : Library σ} {registry : RegistryId} {terms : DescriptorId → List Term}
  {s s' : Store} {x : RecordId} {fields : List (Field σ)} {H H' : List Hold}

theorem Counted.perm (hs : s.Counted lib registry terms H) (h : H'.Perm H) :
    s.Counted lib registry terms H' :=
  { hs with drives := fun hm hd hx => hs.drives (h.mem_iff.mp hm) hd hx }

/-- A record that was there was the same before. -/
theorem Struct.before (h : s'.Struct lib x fields) (hr : s.records.Gains s'.records)
    (hx : x < s.records.size) : s.Struct lib x fields := by
  obtain ⟨hrecord', ho, hd, hc⟩ := h
  obtain ⟨r', hr', hgains⟩ := hr x _ (Array.getElem?_eq_getElem hx)
  obtain rfl := Option.some.inj (hrecord'.symm.trans hr')
  exact .intro (Array.getElem?_eq_getElem hx) (hgains.origin.symm.trans ho) hd hc

/-- An initialization is for an entry that has a record. -/
theorem Owned.drive_entry (ho : s.Owned H) {hold : Hold} {d : Drive} (hm : hold ∈ H)
    (hd : hold.drive? = some d) :
    ∃ (i : EntryId) (e : Entry), s.entries[i]? = some e ∧ e.registry = d.registry
      ∧ e.record = some d.record := by
  obtain ⟨e, he, hsuits⟩ := ho.fits hm
  cases hold with
  | active u d' => cases hd; exact ⟨_, e, he, hsuits.1.registry, hsuits.1.record⟩
  | concluding u d' o => cases hd; exact ⟨_, e, he, hsuits.1.registry, hsuits.1.record⟩
  | stopping u d' dep => cases hd; exact ⟨_, e, he, hsuits.1.registry, hsuits.1.record⟩
  | leaving d' dep => cases hd; exact ⟨_, e, he, hsuits.registry, hsuits.record⟩
  | fresh al => cases hd
  | ready r w => cases hd

theorem Owned.drive_there (ho : s.Owned H) {hold : Hold} {d : Drive} (hm : hold ∈ H)
    (hd : hold.drive? = some d) : d.record < s.records.size := by
  obtain ⟨i, e, he, -, hr⟩ := ho.drive_entry hm hd
  exact lt_size_of_keyOf (ho.keyed he hr)

end Store

namespace Turn

variable {lib : Library σ} {a : Actor} {t t' : Turn σ} {registry : RegistryId}
  {terms : DescriptorId → List Term} {others : List Hold} {d d' : Drive}

-- ====================================================== outcomes

/-- Where the words come from that go with an outcome: the step had them, or is handed
them. -/
inductive Brings (a : Actor) (t : Turn σ) (d' : Drive) : Prop
  | had (hm : .active a.id d' ∈ t.holds a.id)
  | handed {d : Drive} {dep : Option Dependency} {left : Local} {rest : List (Frame σ)}
      (hc : t.control = .give (.dependency dep) left) (hf : t.frames = .stepping d :: rest)
      (hrecord : d'.record = d.record)
      (hwords : ∀ words, left = .scratch words → d'.scratch = words)

/-- A step that is handed an outcome goes on with it. -/
theorem stepped_brings {dep : Option Dependency} {left : Local} {o : StepOutcome}
    (h : (t.stepped d dep left).control = .publish d' o) :
    d'.record = d.record ∧ ∀ words, left = .scratch words → d'.scratch = words := by
  unfold stepped at h
  cases left with
  | scratch words =>
      cases dep <;> cases h <;> exact ⟨rfl, fun _ hwords => Local.scratch.inj hwords⟩
  | nothing | draft f => cases dep <;> cases h <;> exact ⟨rfl, nofun⟩

/-- An outcome is about to be published. -/
theorem publish_brings (h : t.step lib a = some t') {o : StepOutcome}
    (hc' : t'.control = .publish d' o) : t.Brings a d' := by
  have hplain : t'.control.plain ≠ true := by
    rw [hc']
    exact Bool.false_ne_true
  cases (step_plain h).resolve_left hplain with
  | begin hc =>
      cases step_begin hc h with
      | close =>
          -- nothing has been run
          cases hc'
          exact .had (mem_holds_of_control hc List.mem_cons_self)
      | layout =>
          unfold startLayout at hc'
          split at hc' <;> cases hc'
      | measure | callback => cases hc'
  | measure hc =>
      cases step_measure hc h with
      | done =>
          cases hc'
          exact .had (mem_holds_of_control hc List.mem_cons_self)
      | consult => exact (hplain (consult_plain ..)).elim
  | give hc =>
      cases give_takes (step_give hc h) with
      | plain hno => exact (hplain hno).elim
      | step hv hf ht' =>
          subst hv ht'
          obtain ⟨hrecord, hwords⟩ := stepped_brings hc'
          exact .handed hc hf hrecord hwords
      | field hv hf ht' =>
          subst ht'
          unfold laid at hc'
          split at hc' <;> cases hc'
      | @element w r rest hv hf ht' =>
          subst ht'
          have hd : d' = w.drive := by
            unfold measured at hc'
            split at hc'
            · split at hc' <;> cases hc'
              rfl
            · cases hc'
          subst hd
          exact .had (mem_holds_of_frame (hf ▸ List.mem_cons_self) List.mem_cons_self)
  | program hc =>
      cases step_run hc h with
      | structLayout =>
          unfold startLayout at hc'
          split at hc' <;> cases hc'
      | refuse hp => cases hp

-- ====================================================== walks of steps

/-- Where the thread completes a record by its fields the walk is under way. -/
def LaysOut (lib : Library σ) (registry : RegistryId) (terms : DescriptorId → List Term)
    (t : Turn σ) : Prop :=
  ∀ (above : List (Frame σ)) (d : Drive) (base : List (Frame σ)),
    t.frames = above ++ .stepping d :: base → d.record < t.store.records.size
      ∧ ∀ {fields : List (Field σ)}, t.store.Struct lib d.record fields →
        ∃ (s₀ : Store) (n : Nat), s₀.Attests registry terms d.record n ∧ s₀.Rises registry t.store
          ∧ t.Laying lib registry terms (s₀.Rises registry) d.record n (.stepping d :: base)

/-- What other threads write does not disturb it. -/
theorem LaysOut.rises (h : t.LaysOut lib registry terms) (hr : t.store.Rises registry t'.store)
    (hc : t'.control = t.control) (hf : t'.frames = t.frames) :
    t'.LaysOut lib registry terms := by
  intro above d base hframes
  obtain ⟨hthere, hlaying⟩ := h above d base (hf.symm.trans hframes)
  refine ⟨Nat.lt_of_lt_of_le hthere hr.records.size_le, fun hx => ?_⟩
  obtain ⟨s₀, n, hn, hrises, hl⟩ := hlaying (hx.before hr.records hthere)
  exact ⟨s₀, n, hn, hrises.trans hr, hl.rises hr hc hf⟩

/-- A program goes on where it stands. -/
theorem LaysOut.resumes {p p' : Program σ Value} {st : Setting σ}
    (h : t.LaysOut lib registry terms) (hc : t.control = .run p st) (hp : Machine.Resumes p p')
    (hs : t'.store = t.store) (hc' : t'.control = .run p' st) (hf : t'.frames = t.frames) :
    t'.LaysOut lib registry terms := by
  intro above d base hframes
  obtain ⟨hthere, hlaying⟩ := h above d base (hf.symm.trans hframes)
  rw [hs]
  refine ⟨hthere, fun hx => ?_⟩
  obtain ⟨s₀, n, hn, hrises, hl⟩ := hlaying hx
  exact ⟨s₀, n, hn, hrises, hl.resumes hc hp hs hc' hf⟩

/-- The walk that a completion step is about to go on with. -/
def walks? (t : Turn σ) : Option (FieldWalk σ × Drive) :=
  match t.control, t.frames with
  | .lay w, .stepping d :: _ => some (w, d)
  | _, _ => none

theorem walks?_some {w : FieldWalk σ} (h : t.walks? = some (w, d)) :
    t.control = .lay w ∧ ∃ below, t.frames = .stepping d :: below := by
  unfold walks? at h
  split at h
  · cases h
    exact ⟨‹_›, _, ‹_›⟩
  · cases h

/-- A completion step by fields begins with the walk. -/
theorem begin_walks {fields : List (Field σ)} (h : t.step lib a = some t')
    (hc : t.control = .begin d) (hx : t.store.Struct lib d.record fields)
    (hd : d.stage < .nonTransitive) :
    t'.control = .lay ⟨d.registry, d.record, d.scratch, fields, 0, []⟩
      ∧ t'.frames = .stepping d :: t.frames := by
  obtain @⟨r, id, desc, hr, ho, hdesc, hcomp⟩ := hx
  -- what begins is a step of this very record
  have hsame : ∀ {r' : Record} {desc' : Descriptor σ}, t.store.records[d.record]? = some r' →
      lib.descriptorOf? r' = some desc' → desc' = desc := by
    intro r' desc' hr' hdesc'
    obtain rfl := Option.some.inj (hr.symm.trans hr')
    unfold Library.descriptorOf? at hdesc'
    rw [ho] at hdesc'
    exact Option.some.inj (hdesc'.symm.trans hdesc)
  cases begin_begins (step_begin hc h) with
  | tuple hr' ho' hmeasure hf =>
      obtain rfl := Option.some.inj (hr.symm.trans hr')
      cases ho.symm.trans ho'
  | closing s hr' ho' hn hpublish hf =>
      obtain rfl := Option.some.inj (hr.symm.trans hr')
      cases ho.symm.trans ho'
      have hnone := hn hd
      rw [hdesc, Option.bind_some, hcomp] at hnone
      cases hnone
  | walk hr' hdesc' hcomp' hs hlay hf => exact ⟨hsame hr' hdesc' ▸ hlay, hf⟩
  | callback hr' hdesc' hcomp' hrun hf =>
      rw [hsame hr' hdesc', hcomp] at hcomp'
      cases hcomp'

theorem LaysOut.step (ht : t.LaysOut lib registry terms) (hin : StepsIn lib registry a t t')
    (ho : t.store.Owned (t.holds a.id ++ others))
    (hs : t.store.Counted lib registry terms (t.holds a.id ++ others)) (hlib : lib.Reads terms) :
    t'.LaysOut lib registry terms := by
  have hrises := hin.rises
  intro above d base hframes
  rcases frame_before hin.step hframes with ⟨above', hbefore⟩ | ⟨hopens, hbase⟩
  · obtain ⟨hthere, hlaying⟩ := ht _ _ _ hbefore
    refine ⟨Nat.lt_of_lt_of_le hthere hrises.records.size_le, fun hx => ?_⟩
    obtain ⟨s₀, n, hn, hr, hl⟩ := hlaying (hx.before hrises.records hthere)
    have hover : base.length < t'.frames.length := by
      rw [hframes, List.length_append, List.length_cons]
      omega
    exact ⟨s₀, n, hn, hr.trans hrises,
      hl.step hin hlib rfl hover hr (hr.trans hrises) (fun _ h => h) hn⟩
  · cases hopens with
    | call hc hcall => cases hcall
    | stepping hc hd =>
        have hm : .active a.id d ∈ t.holds a.id ++ others :=
          List.mem_append_left _ (mem_holds_of_control hc List.mem_cons_self)
        have hthere := ho.drive_there hm rfl
        refine ⟨Nat.lt_of_lt_of_le hthere hrises.records.size_le, fun hx => ?_⟩
        have hx₀ := hx.before hrises.records hthere
        obtain ⟨n, hwords, hn⟩ := hs.drives hm rfl hx₀
        obtain ⟨i, e, he, hregistry, -⟩ := ho.drive_entry hm rfl
        obtain ⟨hlay, hpushed⟩ := begin_walks hin.step hc hx₀ hd
        obtain rfl := hbase.resolve_left fun ⟨p, s, hrun⟩ => by rw [hrun] at hc; cases hc
        refine ⟨t.store, n, hn, hrises, .goes ?_ hpushed hlay⟩
        rw [hwords, ← hregistry, hin.domestic.sole.entry_registry he]
        exact .start hx

/-- What is kept for a thread and for others counts fields after its step as before. -/
theorem LaysOut.counted (ht : t.LaysOut lib registry terms) (hin : StepsIn lib registry a t t')
    (ho : t.store.Owned (t.holds a.id ++ others))
    (hs : t.store.Counted lib registry terms (t.holds a.id ++ others)) :
    t'.store.Counted lib registry terms (t'.holds a.id ++ others) := by
  have hshift := step_shift hin.step
  have hrises := hin.rises
  -- what was kept before
  have hdrive : ∀ {hold : Hold} {d : Drive} {fields : List (Field σ)},
      hold ∈ t.holds a.id ++ others → hold.drive? = some d → t'.store.Struct lib d.record fields →
      t'.store.Counts registry terms d.record d.scratch := fun hm hd hx =>
    hrises.counts (hs.drives hm hd (hx.before hrises.records (ho.drive_there hm hd)))
  have hentry : ∀ {i : EntryId} {e : Entry} {x : RecordId} {words : Scratch}
      {fields : List (Field σ)}, t.store.entries[i]? = some e → e.record = some x →
      e.saved = some words → t'.store.Struct lib x fields →
      t'.store.Counts registry terms x words := fun he hr hw hx =>
    hrises.counts (hs.saved he hr hw
      (hx.before hrises.records (Store.lt_size_of_keyOf (ho.keyed he hr))))
  refine {
    saved := fun {i e' x words fields} he' hr' hw hx => ?_
    drives := fun {hold d' fields} hm hd hx => ?_ }
  · rcases hshift.saved ho he' hw with ⟨e, he, hsaved, hrecord⟩ | ⟨d, dep, hc, hd, rfl⟩
    · exact hentry he (hrecord.trans hr') hsaved hx
    · obtain rfl := Option.some.inj (hd.symm.trans hr')
      have hm : .stopping a.id d (some dep) ∈ t.holds a.id ++ others :=
        List.mem_append_left _ (mem_holds_of_control hc List.mem_cons_self)
      exact hdrive hm rfl hx
  · rcases List.mem_append.mp hm with hm | hm
    · cases hshift.carries ho hm hd with
      | kept hold hdrive' hregistry hrecord hwords =>
          rw [hrecord] at hx ⊢
          rw [hwords]
          exact hdrive (List.mem_append_left _ hold) hdrive' hx
      | fresh hfresh hrecord hwords =>
          rw [hwords]
          exact .zero ..
      | saved he hregistry hrecord hwords => exact hentry he hrecord hwords hx
      | concluded hc' =>
          cases publish_brings hin.step hc' with
          | had hm => exact hdrive (List.mem_append_left _ hm) rfl hx
          | @handed d dep left rest hc hf hrecord hwords =>
              rw [hrecord] at hx ⊢
              obtain ⟨hthere, hlaying⟩ := ht [] d rest hf
              obtain ⟨s₀, n, hn, hr, hl⟩ := hlaying (hx.before hrises.records hthere)
              obtain ⟨words, rfl, hcomes⟩ := hl.hands hf hc
              rw [hwords words rfl]
              exact hrises.counts hcomes.counts
    · exact hdrive (List.mem_append_right _ hm) hd hx

end Turn

-- ====================================================== processes

namespace Machine

variable {lib : Library σ} {registry : RegistryId} {terms : DescriptorId → List Term}
  {start m m' : Machine σ} {t : ThreadId} {x : RecordId} {words : Scratch}

/-- Scratch words that completion steps of the record have left behind: they are kept
with its entry, or by a thread that has to do with its initialization. -/
inductive LeftBehind (m : Machine σ) (x : RecordId) (words : Scratch) : Prop
  | parked {i : EntryId} {e : Entry} (he : m.store.entries[i]? = some e) (hr : e.record = some x)
      (hw : e.saved = some words)
  | held {hold : Hold} {d : Drive} (hm : hold ∈ m.holds) (hd : hold.drive? = some d)
      (hr : d.record = x) (hw : d.scratch = words)

structure Counted (lib : Library σ) (registry : RegistryId) (terms : DescriptorId → List Term)
    (m : Machine σ) : Prop where
  store : m.store.Counted lib registry terms m.holds
  threads : ∀ {u : ThreadId} {thread : Thread σ}, m.threads[u]? = some thread →
    (m.turn thread).LaysOut lib registry terms

theorem Counted.step (hm : m.Counted lib registry terms) (h : m.step lib t = some m')
    (hlib : lib.Reads terms) (hs : m.store.Domestic lib registry) (ho : m.store.Owned m.holds)
    (hlaw : m.StaysIn registry t) : m'.Counted lib registry terms where
  store := by
    obtain ⟨-, thread, hthread, hstepped⟩ := step_cases h
    cases hstepped with
    | @alone turn hturn =>
        have hperm := (holds_split hthread).symm
        have hin := step_stepsIn h hs ho hlaw hthread hturn rfl
        exact ((hm.threads hthread).counted hin (ho.perm hperm) (hm.store.perm hperm)).perm
          (holds_after hthread turn)
    | program p' started hc hres hstore hthreads hnew =>
        rw [hstore]
        exact hm.store.perm (holds_program hthread hc hthreads hnew)
  threads hu := by
    refine step_threads (P := Turn.LaysOut lib registry terms) h
      (fun hthread hturn hstore => ?_)
      (fun hthread hc hres hstore =>
        (hm.threads hthread).resumes (t := m.turn _) hc hres hstore rfl rfl)
      (fun hu => (hm.threads hu).rises (t := m.turn _) (step_rises h hs ho hlaw) rfl rfl)
      (fun hframes hrun above d base hf => ?_) hu
    · have hperm := (holds_split hthread).symm
      exact (hm.threads hthread).step (step_stepsIn h hs ho hlaw hthread hturn hstore)
        (ho.perm hperm) (hm.store.perm hperm) hlib
    · exact absurd (congrArg List.length (hframes.symm.trans hf)) (by simp)

theorem Fresh.counted (hf : start.Fresh) : start.Counted lib registry terms where
  store := {
    saved := fun he => by rw [hf.entries] at he; simp at he
    drives := fun hm => by
      obtain ⟨e, he, -⟩ := hf.owned.fits hm
      rw [hf.entries] at he
      simp at he }
  threads hu above d base hframes := by
    obtain ⟨hnone, -⟩ := hf.running _ (Array.mem_of_getElem? hu)
    exact absurd (congrArg List.length (hnone.symm.trans hframes)) (by simp)

theorem Counted.run (hm : m.Counted lib registry terms)
    (h : Run lib (fun m t => m.StaysIn registry t) m m') (hlib : lib.Reads terms)
    (hs : m.store.Domestic lib registry) (ho : m.store.Owned m.holds) :
    m'.Counted lib registry terms := by
  induction h with
  | refl => exact hm
  | step t h hlaw hstep ih =>
      obtain ⟨hs', ho', -⟩ := h.keeps hs ho
      exact ih.step hstep hlib hs' ho' hlaw

/-- The words that a record's steps have left behind count fields whose layouts are
known. -/
theorem Counted.leftBehind {fields : List (Field σ)} (hm : m.Counted lib registry terms)
    (hleft : m.LeftBehind x words) (hx : m.store.Struct lib x fields) :
    m.store.Counts registry terms x words := by
  cases hleft with
  | parked he hr hw => exact hm.store.saved he hr hw hx
  | held hhold hd hr hw =>
      subst hr hw
      exact hm.store.drives hhold hd hx

end Machine

end TypeRecords
