/-
A layout that others may rely on does not change.

Others read the layout of a record as soon as its stage says that it is known,
while the thread that completes it may still run steps, and a walk over the
fields that comes to its end writes a layout whether or not there is one. Yet
for all records but those that are *preset* the layout and the offsets are
written once (`Run.layout_kept`). A record is preset if a layout is declared for
it and it is completed by its fields all the same: it is at the stage of its
declared layout from the start, and the walk replaces that layout later on. Once
it is finished for itself nobody walks over its fields again, so from there on
its layout stays, too.

# Why a walk writes once

A walk stands above the step that has begun it, and no step is begun for a
record that is finished for itself (`FieldWalk.Attached`). When it comes to its
end the step goes on to publish that the record is finished for itself, and
nothing comes between (`Turn.Finishes`). So if a record that is not preset has a
layout then it is past that stage, or the thread that has laid it out is about
to take it there; and this thread is the only one that may walk over its fields,
and does not do so now (`Machine.Settling`).
-/
import TypeRecords.Proofs.Fields.Known
import TypeRecords.Proofs.Ownership.Pairing

namespace TypeRecords

variable {σ : Type}

-- ====================================================== vocabulary

/-- The record is completed by a step of its own. -/
def Library.completes (lib : Library σ) (r : Record) : Bool :=
  (lib.descriptorOf? r).any (·.completion.isSome)

/-- A layout is declared for the record, and it is completed all the same. -/
def Library.preset (lib : Library σ) (r : Record) : Bool :=
  (lib.descriptorOf? r).any fun d =>
    d.completion.isSome && (d.layout.bind Layout.visible?).isSome

/-- A program is about to publish a layout, or to lay a record out, by itself. -/
def Control.meddles : Control σ → Bool
  | .run (.act (.publish ..) _) _ => true
  | .run (.structLayout ..) _ => true
  | _ => false

/-- Layouts are left to those who complete records. -/
def Machine.Unmeddled (m : Machine σ) : Prop :=
  ∀ thread ∈ m.threads, thread.control.meddles = false

instance (m : Machine σ) : Decidable m.Unmeddled :=
  inferInstanceAs (Decidable (∀ thread ∈ m.threads, thread.control.meddles = false))

/-- The record is finished for itself. -/
def Store.Past (s : Store) (x : RecordId) : Prop :=
  ∃ (i : EntryId) (e : Entry), s.entries[i]? = some e ∧ e.record = some x
    ∧ .nonTransitive ≤ e.stage

/-- A walk is that of a step, for a record that is not finished for itself. -/
def FieldWalk.Attached (lib : Library σ) (s : Store) (w : FieldWalk σ)
    (below : List (Frame σ)) : Prop :=
  ∃ d rest r, below = .stepping d :: rest ∧ w.record = d.record ∧ d.stage < .nonTransitive
    ∧ s.records[w.record]? = some r ∧ lib.completes r = true

def Frame.Attached (lib : Library σ) (s : Store) : Frame σ → List (Frame σ) → Prop
  | .laying w, below => w.Attached lib s below
  | _, _ => True

namespace Turn

/-- The walks of a thread are those of its steps. -/
structure Attached (lib : Library σ) (t : Turn σ) : Prop where
  control : ∀ w, t.control = .lay w → w.Attached lib t.store t.frames
  frames : Layered (Frame.Attached lib t.store) t.frames

/-- The thread has laid `x` out, and says so next. -/
inductive Finishes (t : Turn σ) (x : RecordId) : Prop
  | laid {d : Drive} {left : Local} {rest : List (Frame σ)}
      (hc : t.control = .give (.dependency none) left) (hf : t.frames = .stepping d :: rest)
      (hx : d.record = x)
  | concluded {d : Drive} {o : StepOutcome} (hc : t.control = .publish d o) (hx : d.record = x)
      (ho : .nonTransitive ≤ o.stage)

end Turn

-- ====================================================== records

section

variable {lib : Library σ} {r r' : Record} {c : Call}

theorem Library.completes_congr (h : r.Gains r') : lib.completes r' = lib.completes r := by
  unfold completes
  rw [h.descriptorOf? lib]

theorem Library.preset_congr (h : r.Gains r') : lib.preset r' = lib.preset r := by
  unfold preset
  rw [h.descriptorOf? lib]

/-- A record that a request makes has no layout unless one is declared. -/
theorem Library.preset_of_made (h : lib.made? c = some r) (hc : lib.completes r = true)
    (hl : r.layout.isSome) : lib.preset r = true := by
  cases c with
  | check record => cases h
  | tuple elements =>
      cases h
      cases hc
  | generic descriptor arguments =>
      obtain ⟨d, hd, rfl⟩ := Option.map_eq_some_iff.mp h
      have hdesc : lib.descriptorOf? (d.record descriptor arguments) = some d := hd
      unfold completes at hc
      unfold preset
      rw [hdesc, Option.any_some] at hc ⊢
      exact Bool.and_eq_true_iff.mpr ⟨hc, hl⟩

end

theorem Store.Past.advances {s s' : Store} {x : RecordId} (h : s.Past x) (hs : s.Advances s') :
    s'.Past x := by
  obtain ⟨i, e, he, hr, hstage⟩ := h
  obtain ⟨e', he', -, hle, hrecord⟩ := hs.entries he
  exact ⟨i, e', he', hrecord x hr, Nat.le_trans hstage hle⟩

-- ====================================================== walks

section

variable {lib : Library σ} {s s' : Store} {below : List (Frame σ)}

theorem FieldWalk.Attached.gains {w : FieldWalk σ} (h : w.Attached lib s below)
    (hs : s.records.Gains s'.records) : w.Attached lib s' below := by
  obtain ⟨d, rest, r, hbelow, hx, hstage, hr, hc⟩ := h
  obtain ⟨r', hr', hgains⟩ := hs _ r hr
  exact ⟨d, rest, r', hbelow, hx, hstage, hr', (Library.completes_congr hgains).trans hc⟩

theorem Frame.Attached.gains {f : Frame σ} (h : f.Attached lib s below)
    (hs : s.records.Gains s'.records) : f.Attached lib s' below := by
  cases f with
  | laying w => exact FieldWalk.Attached.gains h hs
  | _ => trivial

end

namespace Turn

variable {lib : Library σ} {a : Actor} {t t' : Turn σ} {others : List Hold} {x : RecordId}

/-- What is put on the stack serves as the control did. -/
theorem Opens.attached {f : Frame σ} {above : List (Frame σ)} (h : t.Opens f) (ht : t.Attached lib)
    (habove : ∀ g ∈ above, t.Opens g ∧ g.isCall = true) :
    f.Attached lib t.store (above ++ t.frames) := by
  cases h with
  | @call p s f hc hf => cases f <;> trivial
  | laying hc =>
      rw [above_of_lay hc habove]
      exact ht.control _ hc
  | _ => trivial

/-- Every step keeps it, unless a program lays a record out by itself. -/
theorem Attached.step (ht : t.Attached lib) (hstands : t.Stands) (hlib : lib.Stock)
    (hm : t.control.meddles = false) (h : t.step lib a = some t') : t'.Attached lib where
  control w hc' := by
    have hgains := (step_writes h).gains
    have hno : t'.control.plain = true → False := fun hplain => by
      rw [hc'] at hplain
      cases hplain
    cases step_lands hlib hstands h with
    | «open» hf hc => exact (hc w hc').elim
    | fails hc => rw [hc'] at hc; cases hc
    | program hc hf => rw [hc] at hm; cases hm
    | @begun d r desc hc hs hr hd hcomp hlay hf =>
        rw [hlay] at hc'
        cases hc'
        refine FieldWalk.Attached.gains (s := t.store) ⟨d, t.frames, r, hf, rfl, hs, hr, ?_⟩ hgains
        unfold Library.completes
        rw [hd, Option.any_some, hcomp]
        rfl
    | done hc hw hs hwords hgive hf => rw [hgive] at hc'; cases hc'
    | field hc hy ht' => exact (hno (ht' ▸ consult_plain ..)).elim
    | element hc hw ht' => exact (hno (ht' ▸ consult_plain ..)).elim
    | answered hc he hl ht' => rw [ht'] at hc'; cases hc'
    | @settled w' r left rest hc hf ht' =>
        have hframes := ht.frames
        rw [hf] at hframes
        have hattached : w'.Attached lib t.store rest := hframes.1
        rw [ht', laid_frames]
        rw [ht'] at hc' hgains
        refine FieldWalk.Attached.gains (s := t.store) ?_ hgains
        unfold laid at hc'
        split at hc'
        · cases hc'
        · cases hc'
          exact hattached
  frames := by
    have hgains := (step_writes h).gains
    exact layered_step (ht.frames.imp fun hf => hf.gains hgains) h
      fun _ _ hopens habove => (hopens.attached ht habove).gains hgains

theorem Attached.start {p : Program σ Value} {s : Setting σ} (hc : t.control = .run p s)
    (hf : t.frames = []) : t.Attached lib :=
  ⟨fun w hw => by (rw [hc] at hw; cases hw), by rw [hf]; trivial⟩

/-- What other threads write does not disturb it. -/
theorem Attached.gains (ht : t.Attached lib) (hc : t'.control = t.control)
    (hf : t'.frames = t.frames) (h : t.store.records.Gains t'.store.records) : t'.Attached lib where
  control w hw := hf ▸ (ht.control w (hc ▸ hw)).gains h
  frames := hf ▸ ht.frames.imp fun hframe => hframe.gains h

theorem Attached.program {p' : Program σ Value} {s : Setting σ} (ht : t.Attached lib)
    (hc' : t'.control = .run p' s) (hf : t'.frames = t.frames) (hs : t'.store = t.store) :
    t'.Attached lib where
  control w hw := by rw [hc'] at hw; cases hw
  frames := by rw [hf, hs]; exact ht.frames

-- ====================================================== finishing

theorem closing_stage (s : Store) (d : Drive) : .nonTransitive ≤ (closing s d).stage := by
  unfold closing StepOutcome.closing
  split
  · exact Nat.le_refl _
  · decide

theorem tupleOutcome_stage (s : Store) (d : Drive) (stages : List Stage) :
    .nonTransitive ≤ (tupleOutcome s d stages).stage := by
  simp only [tupleOutcome]
  split
  · decide
  · split
    · exact Nat.le_refl _
    · exact closing_stage s d

/-- Whoever finishes a record holds its entry. -/
theorem Finishes.held (h : t.Finishes x) (u : ThreadId) : ∃ hold ∈ t.holds u, ∃ d : Drive,
    d.record = x ∧ (hold = .active u d ∨ ∃ o, hold = .concluding u d o) := by
  cases h with
  | laid hc hf hx =>
      exact ⟨_, mem_holds_of_frame (hf ▸ List.mem_cons_self) List.mem_cons_self, _, hx, .inl rfl⟩
  | concluded hc hx ho =>
      exact ⟨_, mem_holds_of_control hc List.mem_cons_self, _, hx, .inr ⟨_, rfl⟩⟩

theorem Finishes.congr (h : t.Finishes x) (hc : t'.control = t.control)
    (hf : t'.frames = t.frames) : t'.Finishes x := by
  cases h with
  | laid hgive hframes hx => exact .laid (hc.trans hgive) (hf.trans hframes) hx
  | concluded hpublish hx ho => exact .concluded (hc.trans hpublish) hx ho

/-- Whoever finishes a record goes on to publish that it is finished for itself,
and then has done so. -/
theorem Finishes.step (h : t.Finishes x) (ho : t.store.Owned (t.holds a.id ++ others))
    (hs : t.step lib a = some t') : t'.Finishes x ∨ t'.store.Past x := by
  cases h with
  | @laid d left rest hc hf hx =>
      unfold Turn.step give at hs
      rw [hc, hf] at hs
      cases hs
      unfold stepped
      cases left with
      | scratch words => exact .inl (.concluded rfl hx (closing_stage ..))
      | _ => exact .inl (.concluded rfl hx (closing_stage ..))
  | @concluded d o hc hx hstage =>
      have hm : .concluding a.id d o ∈ t.holds a.id ++ others :=
        List.mem_append_left _ (mem_holds_of_control hc List.mem_cons_self)
      obtain ⟨e', he', hdriven, -⟩ := ho.fits hm
      cases step_publish hc hs with
      | @intro e he =>
          obtain rfl := Option.some.inj (he.symm.trans he')
          refine .inr ⟨d.entry, (e.publish o).1, ?_, ?_, ?_⟩
          · show (t.store.entries.modify d.entry _)[d.entry]? = _
            rw [Array.getElem?_modify, if_pos rfl, he]
            rfl
          · show e.record = some x
            rw [hdriven.record, hx]
          · rw [e.publish_stage]
            exact Nat.le_trans hstage (Stage.le_later_right ..)

/-- Only whoever finishes a record gives it a layout, if it is completed and no
layout is declared for it. -/
theorem finishes_of_laid (ht : t.Attached lib) (hm : t.control.meddles = false)
    (h : t.step lib a = some t') {r r' : Record} (hr : t.store.records[x]? = some r)
    (hnone : r.layout = none) (hc : lib.completes r = true) (hr' : t'.store.records[x]? = some r')
    (hl : r'.layout.isSome) : t'.Finishes x := by
  have hsame : t.store.records[x]? = some r' → False := fun h => by
    obtain rfl := Option.some.inj (hr.symm.trans h)
    rw [hnone] at hl
    cases hl
  cases step_writes h with
  | same h => exact (hsame (h ▸ hr')).elim
  | @acted action k s hc' h =>
      have hpublish : ∀ y l, action ≠ .publish y l := fun y l heq => by
        subst heq
        rw [hc'] at hm
        cases hm
      have hlayout := Store.perform_layout (s := t.store) action hpublish x
      unfold Records.layoutOf at hlayout
      rw [← h, hr', hr, Option.bind_some, Option.bind_some, hnone] at hlayout
      rw [hlayout] at hl
      cases hl
  | made hc' hmade h =>
      rw [h, Array.getElem?_push, if_neg (Nat.ne_of_lt (Array.getElem?_eq_some_iff.mp hr).1)] at hr'
      exact (hsame hr').elim
  | settled hc' h =>
      rw [h] at hr'
      obtain ⟨d, hd, hplain⟩ := Store.firstStage_changed hr hnone hr' hl
      unfold Library.completes at hc
      rw [hd, Option.any_some, hplain] at hc
      cases hc
  | @laid w hc' hw hwrites =>
      by_cases hxw : w.record = x
      · obtain ⟨d, rest, -, hf, hrecord, -⟩ := ht.control w hc'
        cases step_lay hc' h with
        | done => exact .laid rfl hf (hrecord.symm.trans hxw)
        | consult htodo | compute htodo | lack htodo => cases hw.symm.trans htodo
      · rw [hwrites] at hr'
        change (t.store.records.modify w.record _)[x]? = some r' at hr'
        rw [Array.getElem?_modify, if_neg hxw] at hr'
        exact (hsame hr').elim
  | @measured w hc' hw hwrites =>
      by_cases hxw : w.drive.record = x
      · cases step_measure hc' h with
        | done => exact .concluded rfl hxw (tupleOutcome_stage ..)
        | consult htodo => cases hw.symm.trans htodo
      · rw [hwrites] at hr'
        unfold settleTuple at hr'
        split at hr'
        · exact (hsame hr').elim
        · change (t.store.records.modify w.drive.record _)[x]? = some r' at hr'
          rw [Array.getElem?_modify, if_neg hxw] at hr'
          exact (hsame hr').elim

end Turn

-- ====================================================== processes

namespace Machine

variable {lib : Library σ} {start m m' : Machine σ} {t : ThreadId} {registry : RegistryId}
  {key : Key} {x : RecordId} {r : Record}

/-- A record that is completed, and has got its layout from a walk, is finished
for itself or about to be. -/
structure Settling (lib : Library σ) (m : Machine σ) : Prop where
  attached : ∀ {u : ThreadId} {thread : Thread σ}, m.threads[u]? = some thread →
    (m.turn thread).Attached lib
  laid : ∀ {x : RecordId} {r : Record}, m.store.records[x]? = some r → lib.completes r = true →
    lib.preset r = false → r.layout.isSome →
    m.store.Past x ∨ ∃ (u : ThreadId) (thread : Thread σ), m.threads[u]? = some thread
      ∧ (m.turn thread).Finishes x

theorem Settling.laid_step (hm : m.Settling lib) (h : m.step lib t = some m')
    (ho : m.store.Owned m.holds) (hunmeddled : m.Unmeddled)
    (hr : m'.store.records[x]? = some r) (hc : lib.completes r = true)
    (hpreset : lib.preset r = false) (hl : r.layout.isSome) :
    m'.store.Past x ∨ ∃ (u : ThreadId) (thread : Thread σ), m'.threads[u]? = some thread
      ∧ (m'.turn thread).Finishes x := by
  have hadvances := step_advances h ho
  -- whoever was about to say so
  have hcarry : ∀ {r₀ : Record}, m.store.records[x]? = some r₀ → r₀.Gains r → r₀.layout.isSome →
      m.store.Past x ∨ ∃ (u : ThreadId) (thread : Thread σ), m.threads[u]? = some thread
        ∧ (m.turn thread).Finishes x := fun hr₀ hgains =>
    hm.laid hr₀ ((Library.completes_congr hgains).symm.trans hc)
      ((Library.preset_congr hgains).symm.trans hpreset)
  obtain ⟨-, thread, hthread, hs⟩ := step_cases h
  cases hs with
  | @alone turn hturn =>
      have hperm := (holds_split hthread).symm
      rcases (Turn.step_writes hturn).record (Turn.step_writes hturn).gains hr with
        ⟨r₀, hr₀, hgains⟩ | ⟨_, _, c, _, _, -, hmade, -⟩
      · cases hlayout : r₀.layout with
        | none =>
            refine .inr ⟨t, _, after_threads hthread turn, ?_⟩
            exact Turn.finishes_of_laid (hm.attached hthread)
              (hunmeddled thread (Array.mem_of_getElem? hthread)) hturn hr₀ hlayout
              ((Library.completes_congr hgains).symm.trans hc) hr hl
        | some l =>
            rcases hcarry hr₀ hgains (hlayout ▸ rfl) with hpast | ⟨u, other, hu, hfinishes⟩
            · exact .inl (hpast.advances hadvances)
            · by_cases htu : t = u
              · subst htu
                obtain rfl := Option.some.inj (hthread.symm.trans hu)
                rcases hfinishes.step (ho.perm hperm) hturn with hstill | hpast
                · exact .inr ⟨t, _, after_threads hthread turn, hstill⟩
                · exact .inl hpast
              · exact .inr ⟨u, other, step_other h htu hu, hfinishes.congr rfl rfl⟩
      · rw [Library.preset_of_made hmade hc hl] at hpreset
        cases hpreset
  | program p' started hrun hp hstore hthreads hnew =>
      rw [hstore] at hr
      rcases hcarry hr (.refl r) hl with hpast | ⟨u, other, hu, hfinishes⟩
      · exact .inl (hpast.advances hadvances)
      · refine .inr ⟨u, other, step_other h ?_ hu, hfinishes.congr rfl rfl⟩
        rintro rfl
        obtain rfl := Option.some.inj (hthread.symm.trans hu)
        cases hfinishes with
        | laid hgive hf hx => cases hrun.symm.trans hgive
        | concluded hpublish hx hstage => cases hrun.symm.trans hpublish

theorem Settling.step (hm : m.Settling lib) (h : m.step lib t = some m') (hlib : lib.Stock)
    (hi : m.Informed lib) (ho : m.store.Owned m.holds) (hunmeddled : m.Unmeddled) :
    m'.Settling lib where
  attached hu := by
    refine step_threads (P := Turn.Attached lib) h (fun hthread hturn _ => ?_)
      (fun hthread hc hp hstore => (hm.attached hthread).program rfl rfl hstore)
      (fun hu => (hm.attached hu).gains rfl rfl (step_gains h))
      (fun hframes ⟨p, s, hrun⟩ => .start hrun hframes) hu
    exact (hm.attached hthread).step (hi.stands hthread) hlib
      (hunmeddled _ (Array.mem_of_getElem? hthread)) hturn
  laid hr hc hpreset hl := hm.laid_step h ho hunmeddled hr hc hpreset hl

theorem Fresh.settling (hf : start.Fresh) : start.Settling lib where
  attached hu := by
    obtain ⟨hframes, p, s, hrun⟩ := hf.running _ (Array.mem_of_getElem? hu)
    exact .start hrun hframes
  laid hr hc hpreset hl := by
    unfold Library.completes Library.descriptorOf? at hc
    rw [hf.fixed _ (Array.mem_of_getElem? hr)] at hc
    cases hc

theorem Run.settling (hlib : lib.Stock) (hf : start.Fresh)
    (h : Run lib (fun m _ => m.Unmeddled) start m) : m.Settling lib := by
  induction h with
  | refl => exact hf.settling
  | step t h hok hs ih =>
      exact ih.step hs hlib (h.reachable.informed hlib hf) (h.reachable.owned hf) hok

-- ====================================================== layouts that stay

/-- A walk for a record that has a layout is for one that is preset, and that is
not finished for itself. -/
theorem Settling.walk_new (hm : m.Settling lib) (ho : m.store.Owned m.holds)
    (hp : m.store.Paired m.holds) {thread : Thread σ} (hthread : m.threads[t]? = some thread)
    {w : FieldWalk σ} (hc : thread.control = .lay w) (hr : m.store.records[w.record]? = some r)
    (hl : r.layout.isSome) : lib.preset r = true ∧ ¬ m.store.Past w.record := by
  obtain ⟨d, rest, r', hframes, hrecord, hstage, hr', hcompletes⟩ :=
    (hm.attached hthread).control w hc
  obtain rfl := Option.some.inj (hr.symm.trans hr')
  have hactive : .active t d ∈ m.holds :=
    mem_holds_of_frame (f := .stepping d) hthread (by
      show _ ∈ (m.turn thread).frames
      rw [hframes]
      exact List.mem_cons_self) List.mem_cons_self
  obtain ⟨e, he, hdriven, -⟩ := ho.fits hactive
  have hplace : m.store.place w.record = d.entry := hrecord ▸ hp.record he hdriven.record
  have hnot : ¬ m.store.Past w.record := fun ⟨i, e', he', hrec, hlate⟩ => by
    obtain rfl : i = d.entry := (hp.record he' hrec).symm.trans hplace
    obtain rfl := Option.some.inj (he.symm.trans he')
    rw [hdriven.stage] at hlate
    exact Nat.not_lt.mpr hlate hstage
  refine ⟨?_, hnot⟩
  by_contra hpreset
  rcases hm.laid hr hcompletes (Bool.eq_false_iff.mpr hpreset) hl with
    hpast | ⟨u, other, hu, hfinishes⟩
  · exact hnot hpast
  · -- the two threads would hold the same entry
    obtain ⟨hold, hheld, d', hrecord', hshape⟩ := hfinishes.held u
    have hmem := mem_holds hu hheld
    have hsame : hold = .active t d := by
      refine ho.eq_of_entry hactive hmem ?_
      obtain ⟨e', he', hsuits⟩ := ho.fits hmem
      have hdriven' : e'.record = some w.record ∧ hold.entry = d'.entry := by
        rcases hshape with rfl | ⟨o, rfl⟩
        · exact ⟨hrecord' ▸ hsuits.1.record, rfl⟩
        · exact ⟨hrecord' ▸ hsuits.1.record, rfl⟩
      exact (hp.record he' hdriven'.1).symm.trans hplace
    rcases hshape with rfl | ⟨o, rfl⟩
    · cases hsame
      obtain rfl := Option.some.inj (hthread.symm.trans hu)
      cases hfinishes with
      | laid hgive hf hx => cases hc.symm.trans hgive
      | concluded hpublish hx hlate => cases hc.symm.trans hpublish
    · cases hsame

/-- A layout that is there stays, with the offsets, if the record is not preset
or finished for itself. -/
theorem Settling.keeps (hm : m.Settling lib) (h : m.step lib t = some m')
    (ho : m.store.Owned m.holds) (hp : m.store.Paired m.holds) (hunmeddled : m.Unmeddled)
    (hr : m.store.records[x]? = some r) (hl : r.layout.isSome)
    (hx : lib.preset r = true → m.store.Past x) :
    ∃ r', m'.store.records[x]? = some r' ∧ r.Lasts r' := by
  obtain ⟨-, thread, hthread, hs⟩ := step_cases h
  cases hs with
  | alone hturn =>
      have hleaves := hunmeddled thread (Array.mem_of_getElem? hthread)
      refine (Turn.step_writes hturn).lasts (fun y l k s hc => ?_) hr fun w hc hw hrecord => ?_
      · rw [show thread.control = _ from hc] at hleaves
        cases hleaves
      · subst hrecord
        obtain ⟨hpreset, hnot⟩ := hm.walk_new ho hp hthread hc hr hl
        exact (hnot (hx hpreset)).elim
  | program p' started hc hres hstore hthreads hnew =>
      rw [hstore]
      exact ⟨r, hr, .refl r⟩

/-- From the moment that its layout is known a record that a registry keeps has
the same layout and offsets for ever, unless a layout is declared for it and it
is laid out by its fields as well; then it has them from the moment that it is
finished for itself. -/
theorem Run.layout_kept (hlib : lib.Stock) (hf : start.Fresh)
    (h : Run lib (fun m _ => m.Unmeddled) start m) (h' : Run lib (fun m _ => m.Unmeddled) m m')
    (hx : m.store.Keeps registry key x) (hr : m.store.records[x]? = some r)
    (hstage : .layoutComplete ≤ m.store.stageOf registry x)
    (hpreset : lib.preset r = true → .nonTransitive ≤ m.store.stageOf registry x) :
    r.layout.isSome
      ∧ ∃ r', m'.store.records[x]? = some r' ∧ r'.layout = r.layout ∧ r'.offsets = r.offsets := by
  have hlayout : r.layout.isSome := by
    have hknown := h.reachable.known hlib hf hx hstage
    unfold Records.layoutOf at hknown
    rw [hr] at hknown
    exact hknown
  have hpast : lib.preset r = true → m.store.Past x := fun hp => by
    obtain ⟨i, e, he, rfl, -, hrecord⟩ := hx
    have ho := h.reachable.owned hf
    have hlate := hpreset hp
    rw [Store.stageOf_entry (ho.entryOf?_of_record he hrecord) he (ho.sound he)] at hlate
    exact ⟨i, e, he, hrecord, hlate⟩
  -- what is said of the later process is kept by each of its steps
  have hlasts : Run lib (fun m _ => m.Unmeddled) start m'
      ∧ (lib.preset r = true → m'.store.Past x)
      ∧ ∃ r', m'.store.records[x]? = some r' ∧ r.Lasts r' := by
    clear hstage hpreset
    induction h' with
    | refl => exact ⟨h, hpast, r, hr, .refl r⟩
    | step t _ hok hs ih =>
        obtain ⟨hrun, hpast, r', hr', hlasts⟩ := ih
        have hreach := hrun.reachable
        have ho := hreach.owned hf
        have hsame : lib.preset r' = lib.preset r := Library.preset_congr hlasts.gains
        obtain ⟨r'', hr'', hlasts'⟩ := (hrun.settling hlib hf).keeps hs ho (hreach.paired hf) hok
          hr' ((hlasts.layout hlayout).1 ▸ hlayout) (hsame ▸ hpast)
        exact ⟨hrun.step t hok hs, fun hp => (hpast hp).advances (step_advances hs ho), r'', hr'',
          hlasts.trans hlasts'⟩
  obtain ⟨-, -, r', hr', hlasts⟩ := hlasts
  obtain ⟨hsame, hoffsets⟩ := hlasts.layout hlayout
  exact ⟨hlayout, r', hr', hsame, hoffsets⟩

-- ====================================================== with a declared layout

/-- A type with one field, of the type it is applied to. Perhaps a layout is
declared for it as well. -/
def cell (declared : Option Layout) : Library Unit :=
  { bare with
    descriptors := #[
      { name := "Cell"
        kind := .struct
        parameters := 1
        fields := [⟨"value", .argument 0⟩]
        layout := declared
        words := []
        instantiate := none
        completion := some .structLayout }] }

/-- A process that requests a cell, and then a cell for the cell. -/
private def nesting : Machine Unit :=
  launch .standard () (.request 0 .complete (.generic 0 [3]) fun r =>
    .request 0 .complete (.generic 0 [r.record]) fun _ => .done ())

private theorem cell_stock (declared : Option Layout) : (cell declared).Stock := fun {id d} hd => by
  obtain rfl := Array.mem_singleton.mp (Array.mem_of_getElem? hd)
  exact .inr rfl

/-- A cell keeps its layout while another one is laid out by it. -/
theorem layout_kept_cell :
    ∃ (start m m' : Machine Unit) (key : Key) (r : Record), start.Fresh ∧ (cell none).Stock
      ∧ Run (cell none) (fun m _ => m.Unmeddled) start m
      ∧ Run (cell none) (fun m _ => m.Unmeddled) m m'
      ∧ m.store.Keeps 0 key 10 ∧ m.store.records[10]? = some r
      ∧ .layoutComplete ≤ m.store.stageOf 0 10
      ∧ ((cell none).preset r = true → .nonTransitive ≤ m.store.stageOf 0 10)
      ∧ r.layout.isSome
      ∧ ∃ r', m'.store.records[10]? = some r' ∧ r'.layout = r.layout ∧ r'.offsets = r.offsets := by
  have hfirst : ∀ k < 12, (nesting.walk (cell none) k).Unmeddled
      ∧ ((nesting.walk (cell none) k).step (cell none) 0).isSome = true := by
    decide +kernel
  have hrest : ∀ k < 10, ((nesting.walk (cell none) 12).walk (cell none) k).Unmeddled
      ∧ (((nesting.walk (cell none) 12).walk (cell none) k).step (cell none) 0).isSome = true := by
    decide +kernel
  have hthere : ((nesting.walk (cell none) 12).store.entries[0]?).map
        (fun e => (e.registry, e.record)) = some (0, some 10)
      ∧ (nesting.walk (cell none) 12).store.stageOf 0 10 = .complete
      ∧ ((nesting.walk (cell none) 12).store.records[10]?).isSome = true := by
    decide +kernel
  obtain ⟨hentry, hstage, hrecord⟩ := hthere
  obtain ⟨e, he, hshape⟩ := Option.map_eq_some_iff.mp hentry
  obtain ⟨hregistry, hkept⟩ := Prod.mk.inj hshape
  obtain ⟨r, hr⟩ := Option.isSome_iff_exists.mp hrecord
  have hkeeps : (nesting.walk (cell none) 12).store.Keeps 0 e.key 10 :=
    ⟨0, e, he, hregistry, rfl, hkept⟩
  have hlate : .layoutComplete ≤ (nesting.walk (cell none) 12).store.stageOf 0 10 := by
    rw [hstage]
    decide
  have hfinished : (cell none).preset r = true →
      .nonTransitive ≤ (nesting.walk (cell none) 12).store.stageOf 0 10 := fun _ => by
    rw [hstage]
    decide
  exact ⟨nesting, _, _, _, r, fresh_launch _ () _, cell_stock none, .walk hfirst, .walk hrest, hkeeps,
    hr, hlate, hfinished, Run.layout_kept (cell_stock none) (fresh_launch _ () _) (.walk hfirst)
      (.walk hrest) hkeeps hr hlate hfinished⟩

/-- If a layout is declared for the cell it has that one at first. -/
example : ((nesting.walk (cell (some (.scalar 2))) 2).store.stageOf 0 10,
      (nesting.walk (cell (some (.scalar 2))) 2).store.records.layoutOf 10,
      (nesting.walk (cell (some (.scalar 2))) 8).store.records.layoutOf 10)
    = (.layoutComplete, some (.scalar 2), some (.scalar 8)) := by
  decide +kernel

end Machine

end TypeRecords
