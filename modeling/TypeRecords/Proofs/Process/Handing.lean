/-
What is handed over fits.

A thread that has finished a piece of work hands the outcome to the topmost
frame, which has a use for some outcomes only. `Turn.Fits` says that whatever
can come out of the control and of each frame is of use to the frame below;
of a program this concerns every result it can end in (`Program.Ends`). It
holds at the start, and a step that does not end in a fault keeps it
(`Fits.step`). So what a thread hands over is always taken.
-/
import TypeRecords.Proofs.Ownership.Step
import TypeRecords.Proofs.Process.Run

namespace TypeRecords

variable {σ : Type}

-- ====================================================== results of programs

namespace Program

variable {α β : Type}

/-- Whatever a program is told on the way, it ends in something `good`, if it
ends. -/
def Ends {α : Type} : Program σ α → (α → Prop) → Prop
  | done a, good => good a
  | fail _, _ => True
  | look k, good => ∀ t s x, (k t s x).Ends good
  | edit _ k, good => k.Ends good
  | act _ k, good => ∀ r, (k r).Ends good
  | scratch _ k, good => ∀ w, (k w).Ends good
  | draft k, good => ∀ d, (k d).Ends good
  | fill _ _ k, good => ∀ b, (k b).Ends good
  | storePrivate _ _ k, good => ∀ b, (k b).Ends good
  | request _ _ _ k, good => ∀ x, (k x).Ends good
  | structLayout _ _ _ k, good => ∀ d w, (k d w).Ends good
  | table _ _ _ _ k, good => ∀ t, (k t).Ends good
  | canonical _ _ k, good => ∀ m, (k m).Ends good
  | raise _ _ _, _ => True
  | guarded h b, good => (∀ e, (h e).Ends good) ∧ b.Ends good
  | disarm k, good => k.Ends good
  | spawn _ _ k, good => ∀ t, (k t).Ends good
  | join _ k, good => k.Ends good
  | settle _ k, good => ∀ b, (k b).Ends good

/-- If every result is good, there is nothing to be known of the program. -/
theorem ends_of_forall {good : α → Prop} (h : ∀ a, good a) (p : Program σ α) : p.Ends good := by
  induction p with
  | done a => exact h a
  | fail e => trivial
  | raise p l e => trivial
  | look k ih => exact fun t s x => ih t s x h
  | structLayout r m w k ih => exact fun d w => ih d w h
  | guarded g b ihg ihb => exact ⟨fun e => ihg e h, ihb h⟩
  | edit _ k ih
  | disarm k ih
  | join _ k ih => exact ih h
  | act _ k ih
  | scratch _ k ih
  | draft k ih
  | fill _ _ k ih
  | storePrivate _ _ k ih
  | request _ _ _ k ih
  | table _ _ _ _ k ih
  | canonical _ _ k ih
  | spawn _ _ k _ ih
  | settle _ k ih => exact fun x => ih x h

/-- A program that is followed by another one ends as that one does. -/
theorem ends_bind {f : α → Program σ β} {good : β → Prop} (h : ∀ a, (f a).Ends good)
    (p : Program σ α) : (p.bind f).Ends good := by
  induction p with
  | done a => exact h a
  | fail e => trivial
  | raise p l e => trivial
  | look k ih => exact fun t s x => ih t s x h
  | structLayout r m w k ih => exact fun d w => ih d w h
  | guarded g b ihg ihb => exact ⟨fun e => ihg e h, ihb h⟩
  | edit _ k ih
  | disarm k ih
  | join _ k ih => exact ih h
  | act _ k ih
  | scratch _ k ih
  | draft k ih
  | fill _ _ k ih
  | storePrivate _ _ k ih
  | request _ _ _ k ih
  | table _ _ _ _ k ih
  | canonical _ _ k ih
  | spawn _ _ k _ ih
  | settle _ k ih => exact fun x => ih x h

end Program

/-- The kinds of locals. What a program changes in its locals never changes their kind. -/
inductive LocalKind
  | nothing
  | scratch
  | draft

/-- The kind of some locals. -/
def Local.kind : Local → LocalKind
  | .nothing => .nothing
  | .scratch _ => .scratch
  | .draft _ => .draft

/-- Whatever the program comes to, by itself or by a handler, is of use. -/
def Program.Fits (use : Value → Local → Prop) (p : Program σ Value) (s : Setting σ) : Prop :=
  p.Ends (fun v => ∀ l : Local, l.kind = s.locals.kind → use v l)
    ∧ ∀ h ∈ s.handlers, ∀ f, (h f).Ends fun v => ∀ l : Local, l.kind = s.locals.kind → use v l

-- ====================================================== frames

/-- What a frame has a use for. -/
def Frame.Uses : Frame σ → Value → Local → Prop
  | .forResponse .., .response _, _ => True
  | .forLayout .., .dependency _, .scratch _ => True
  | .forTable .., .table _, _ => True
  | .forRecord .., .record _, _ => True
  | .allocating _, _, _ => True
  | .stepping _, .dependency _, _ => True
  | .laying _, .response _, _ => True
  | .measuring _, .response _, _ => True
  | .relying _, _, _ => True
  | .releasing .., _, _ => True
  | .filling _, _, .draft _ => True
  | .founding _, _, _ => True
  | .reporting .., _, _ => True
  | _, _, _ => False

/-- Whatever comes out of a frame once it has its turn is of use. From the
showing of a report nothing comes; here nobody is shown one. -/
def Frame.Makes (use : Value → Local → Prop) : Frame σ → Prop
  | .forResponse k s => ∀ r, (k r).Fits use s
  | .forLayout k s => ∀ d w, (k d w).Fits use s
  | .forTable k s => ∀ t, (k t).Fits use s
  | .forRecord k s => ∀ r, (k r).Fits use s
  | .allocating _ => ∀ r, use (.response r) .nothing
  | .stepping _ => ∀ r, use (.response r) .nothing
  | .measuring _ => ∀ r, use (.response r) .nothing
  | .relying _ => ∀ r, use (.response r) .nothing
  | .releasing .. => ∀ r, use (.response r) .nothing
  | .laying _ => ∀ d w, use (.dependency d) (.scratch w)
  | .filling _ => ∀ t, use (.table t) .nothing
  | .founding _ => ∀ r, use (.record r) .nothing
  | .reporting .. => False

/-- Whatever comes out of what a thread does next is of use. -/
def Control.Makes (use : Value → Local → Prop) : Control σ → Prop
  | .run p s => p.Fits use s
  | .give v left => use v left
  | .await .. => ∀ r, use (.response r) .nothing
  | .allocated _ => ∀ r, use (.response r) .nothing
  | .begin _ => ∀ r, use (.response r) .nothing
  | .measure _ => ∀ r, use (.response r) .nothing
  | .publish .. => ∀ r, use (.response r) .nothing
  | .release .. => ∀ r, use (.response r) .nothing
  | .stopped .. => ∀ r, use (.response r) .nothing
  | .enqueue .. => ∀ r, use (.response r) .nothing
  | .lay _ => ∀ d w, use (.dependency d) (.scratch w)
  | .acquire .. => ∀ t, use (.table t) .nothing
  | .standBy .. => ∀ r, use (.record r) .nothing
  | .unwind _ => True
  | .report .. => True
  | .ended => True

/-- What the topmost frame has a use for. Without one, a thread is over. -/
def topUses : List (Frame σ) → Value → Local → Prop
  | [] => fun _ _ => True
  | f :: _ => f.Uses

/-- What comes out of each frame is of use to the one below. -/
def framesFit : List (Frame σ) → Prop
  | [] => True
  | f :: below => f.Makes (topUses below) ∧ framesFit below

namespace Turn

/-- What comes out of the control and the frames is of use below. -/
structure Fits (t : Turn σ) : Prop where
  control : t.control.Makes (topUses t.frames)
  frames : framesFit t.frames

variable {lib : Library σ} {a : Actor} {t t' : Turn σ}

/-- Work that is interrupted for something else fits if that does. -/
theorem Fits.pushed (hs : t.Fits) {f : Frame σ} (hf : t'.frames = f :: t.frames)
    (hmakes : f.Makes (topUses t.frames)) (hc : t'.control.Makes f.Uses) : t'.Fits :=
  ⟨by rw [hf]; exact hc, by rw [hf]; exact ⟨hmakes, hs.frames⟩⟩

/-- Work that is gone on with under the same frames fits if what it goes on as does. -/
theorem Fits.replaced (hs : t.Fits) (hf : t'.frames = t.frames)
    (hc : t'.control.Makes (topUses t.frames)) : t'.Fits :=
  ⟨by rw [hf]; exact hc, by rw [hf]; exact hs.frames⟩

/-- A callback fits if its results are of use to the frame it is called for. -/
theorem Fits.called {α : Type} {f : Frame σ} {p : Program σ α} {value : α → Value} {l : Local}
    (hs : framesFit t.frames) (hmakes : f.Makes (topUses t.frames))
    (h : ∀ (x : α) (l' : Local), l'.kind = l.kind → f.Uses (value x) l') :
    (t.call f p value l).Fits := by
  refine ⟨⟨Program.ends_bind ?_ p, fun _ hm => by cases hm⟩, hmakes, hs⟩
  exact h

/-- A record is looked up for a frame that waits for an answer. -/
theorem consult_makes (t : Turn σ) (registry : RegistryId) (q : Request) (record : RecordId)
    {use : Value → Local → Prop} (h : ∀ r, use (.response r) .nothing) :
    (t.consult registry q record).control.Makes use := by
  unfold consult
  split
  · exact h
  · exact h _

/-- A walk over fields is begun for a frame that waits for a dependency. -/
theorem startLayout_makes (t : Turn σ) (registry : RegistryId) (record : RecordId)
    (scratch : Scratch) {use : Value → Local → Prop}
    (h : ∀ d w, use (.dependency d) (.scratch w)) :
    (t.startLayout lib registry record scratch).control.Makes use := by
  unfold startLayout
  split
  · exact h _ _
  · exact h

-- ====================================================== programs

/-- What a program does about a failure fits. -/
theorem handle_makes {use : Value → Local → Prop} {p : Program σ Value} {s : Setting σ}
    (h : p.Fits use s) (t : Turn σ) (f : Failure) : (t.handle f s).control.Makes use := by
  unfold handle
  split
  · trivial
  · rename_i g rest hg
    obtain ⟨-, hhandlers⟩ := h
    rw [hg] at hhandlers
    exact ⟨hhandlers g List.mem_cons_self f,
      fun g' hg' => hhandlers g' (List.mem_cons_of_mem _ hg')⟩

/-- A call to a registry comes to an answer, which its continuation waits for. -/
theorem Fits.request {registry : RegistryId} {q : Request} {c : Call}
    {k : Response → Program σ Value} {s : Setting σ} (hs : t.Fits)
    (hk : ∀ r, (k r).Fits (topUses t.frames) s)
    (h : Requested lib { t with frames := .forResponse k s :: t.frames } a registry q c t')
    (hcalm' : t'.control.disturbed = false) : t'.Fits := by
  have hresponse : ∀ r, (Frame.forResponse k s).Uses (.response r) .nothing := fun _ => trivial
  cases h with
  | check =>
      exact hs.pushed (f := .forResponse k s) (consult_frames ..) hk
        (consult_makes _ _ _ _ hresponse)
  | empty => exact hs.pushed (f := .forResponse k s) rfl hk trivial
  | miscount => cases hcalm'
  | hit => exact hs.pushed (f := .forResponse k s) rfl hk hresponse
  | create => exact hs.pushed (f := .forResponse k s) rfl hk hresponse
  | instantiate => exact Fits.called ⟨hk, hs.frames⟩ hresponse fun _ _ _ => trivial

/-- A record is asked for under its name for a frame that waits for a record. -/
theorem askName_makes (t : Turn σ) (j : NameJob) (r : Registry) {use : Value → Local → Prop}
    (h : ∀ r, use (.record r) .nothing) : (t.askName j r).control.Makes use := by
  unfold askName
  split
  · exact h _
  · exact h

/-- A request for a canonical record comes to a record, the founding of its name included.
-/
theorem Fits.requestName {registry : RegistryId} {candidate : CandidateId} (hs : framesFit t.frames)
    (huse : ∀ r, topUses t.frames (.record r) .nothing)
    (h : NameRequested lib t registry candidate t') : t'.Fits := by
  cases h with
  | known => exact ⟨huse _, hs⟩
  | ask =>
      exact ⟨by rw [askName_frames]; exact askName_makes _ _ _ huse,
        by rw [askName_frames]; exact hs⟩
  | register => exact ⟨huse _, hs⟩
  | found => exact Fits.called hs huse fun _ _ _ => trivial

/-- A request for a witness table comes to a table, be it the pattern or that of a cell. -/
theorem Fits.requestTable {registry : RegistryId} {conformance : ConformanceId}
    {conforming : RecordId} {arguments : List TableId} (hs : framesFit t.frames)
    (huse : ∀ r, topUses t.frames (.table r) .nothing)
    (h : TableRequested lib t registry conformance conforming arguments t') : t'.Fits := by
  cases h with
  | pattern => exact ⟨huse _, hs⟩
  | cell => exact ⟨huse, hs⟩

/-- A program goes on to something that fits, whichever of its nodes is next. -/
theorem Fits.run {p : Program σ Value} {s : Setting σ} (hs : t.Fits) (hc : t.control = .run p s)
    (h : Ran lib t a s p t') (hcalm' : t'.control.disturbed = false) : t'.Fits := by
  have hp : p.Fits (topUses t.frames) s := by
    have hmakes := hs.control
    rw [hc] at hmakes
    exact hmakes
  obtain ⟨hends, hhandlers⟩ := hp
  have hnext : ∀ {p' : Program σ Value},
      p'.Ends (fun v => ∀ l : Local, l.kind = s.locals.kind → topUses t.frames v l) →
      p'.Fits (topUses t.frames) s := fun hp' => ⟨hp', hhandlers⟩
  -- where locals change, they stay of their kind
  have hlocals : ∀ {p' : Program σ Value} {l l' : Local}, s.locals = l → l'.kind = l.kind →
      p'.Ends (fun v => ∀ l : Local, l.kind = s.locals.kind → topUses t.frames v l) →
      p'.Fits (topUses t.frames) { s with locals := l' } := by
    intro p' l l' hl hkind hp'
    unfold Program.Fits
    simp only [hkind, ← hl]
    exact ⟨hp', hhandlers⟩
  have hfail : ∀ f, (t.handle f s).Fits := fun f =>
    hs.replaced (handle_frames t f s) (handle_makes ⟨hends, hhandlers⟩ t f)
  cases h with
  | request h => exact hs.request (fun r => hnext (hends r)) h hcalm'
  | done => exact hs.replaced rfl (hends s.locals rfl)
  | fail => exact hfail _
  | refuse => exact hfail _
  | look => exact hs.replaced rfl (hnext (hends _ _ _))
  | edit => exact hs.replaced rfl (hnext hends)
  | act => exact hs.replaced rfl (hnext (hends _))
  | scratch hl => exact hs.replaced rfl (hlocals hl rfl (hends _))
  | draft => exact hs.replaced rfl (hnext (hends _))
  | fill hl => exact hs.replaced rfl (hlocals hl rfl (hends _))
  | storePrivate hl => exact hs.replaced rfl (hlocals hl rfl (hends _))
  | @structLayout _ _ _ k =>
      exact hs.pushed (f := .forLayout k s) (startLayout_frames ..) (fun d w => hnext (hends d w))
        (startLayout_makes _ _ _ _ fun _ _ => trivial)
  | @table _ _ _ _ k _ h =>
      exact Fits.requestTable (t := { t with frames := .forTable k s :: t.frames })
        ⟨fun r => hnext (hends r), hs.frames⟩ (fun _ => trivial) h
  | @canonical _ _ k _ h =>
      exact Fits.requestName (t := { t with frames := .forRecord k s :: t.frames })
        ⟨fun r => hnext (hends r), hs.frames⟩ (fun _ => trivial) h
  | raise => cases hcalm'
  | guarded =>
      refine hs.replaced rfl ⟨hends.2, fun g hg => ?_⟩
      rcases List.mem_cons.mp hg with rfl | hg
      · exact hends.1
      · exact hhandlers g hg
  | disarm => exact hs.replaced rfl ⟨hends, fun g hg => hhandlers g (List.mem_of_mem_tail hg)⟩

-- ====================================================== the other controls

/-- What is handed over is taken by the topmost frame, and what it makes of it fits below.
-/
theorem Fits.give {v : Value} {left : Local} (hs : t.Fits) (h : Given lib t a v left t')
    (hcalm' : t'.control.disturbed = false) : t'.Fits := by
  have hframe : ∀ {frame : Frame σ} {rest : List (Frame σ)}, t.frames = frame :: rest →
      frame.Makes (topUses rest) ∧ framesFit rest := fun hf => by
    have hframes := hs.frames
    rw [hf] at hframes
    exact hframes
  cases h with
  | ended => exact ⟨trivial, hs.frames⟩
  | response hf => exact ⟨(hframe hf).1 _, (hframe hf).2⟩
  | layout hf => exact ⟨(hframe hf).1 _ _, (hframe hf).2⟩
  | table hf => exact ⟨(hframe hf).1 _, (hframe hf).2⟩
  | record hf => exact ⟨(hframe hf).1 _, (hframe hf).2⟩
  | allocated hf => exact ⟨(hframe hf).1, (hframe hf).2⟩
  | @stepped d rest dep left hf =>
      obtain ⟨words, o, hst, -⟩ := stepped_spec { t with frames := rest } d dep left
      rw [hst]
      exact ⟨(hframe hf).1, (hframe hf).2⟩
  | laid hf =>
      unfold laid
      split
      · exact ⟨(hframe hf).1 _ _, (hframe hf).2⟩
      · exact ⟨(hframe hf).1, (hframe hf).2⟩
  | measured hf =>
      unfold measured
      split
      · split <;> exact ⟨(hframe hf).1, (hframe hf).2⟩
      · exact ⟨(hframe hf).1, (hframe hf).2⟩
  | relied hf => exact ⟨(hframe hf).1, (hframe hf).2⟩
  | released hf => exact ⟨(hframe hf).1, (hframe hf).2⟩
  | filled hf h =>
      cases h with
      | lack => cases hcalm'
      | table => exact ⟨(hframe hf).1 _, (hframe hf).2⟩
  | founded hf => exact ⟨(hframe hf).1 _, (hframe hf).2⟩
  | reported hf => exact (hframe hf).1.elim

/-- A fresh record comes to an answer, at once or when its completion is through. -/
theorem Fits.allocated {al : Allocation} (hs : t.Fits)
    (huse : ∀ r, topUses t.frames (.response r) .nothing) (h : Allocated lib t a al t') :
    t'.Fits := by
  cases h with
  | finish => exact ⟨huse _, hs.frames⟩
  | begin => exact ⟨huse, hs.frames⟩

/-- A completion step comes to a dependency for the frame of its initialization, or goes on
without one. -/
theorem Fits.begin {d : Drive} (hs : t.Fits)
    (huse : ∀ r, topUses t.frames (.response r) .nothing) (h : Begun lib t d t') : t'.Fits := by
  cases h with
  | measure => exact ⟨huse, hs.frames⟩
  | close => exact ⟨huse, hs.frames⟩
  | layout =>
      exact hs.pushed (f := .stepping d) (startLayout_frames ..) huse
        (startLayout_makes _ _ _ _ fun _ _ => trivial)
  | callback => exact Fits.called hs.frames huse fun _ _ _ => trivial

/-- A walk over fields comes to a dependency and its scratch words. -/
theorem Fits.lay {w : FieldWalk σ} (hs : t.Fits)
    (huse : ∀ d words, topUses t.frames (.dependency d) (.scratch words))
    (h : FieldLaid t a w t') (hcalm' : t'.control.disturbed = false) : t'.Fits := by
  cases h with
  | done => exact ⟨huse _ _, hs.frames⟩
  | consult =>
      exact hs.pushed (f := .laying w) (consult_frames ..) huse
        (consult_makes _ _ _ _ fun _ => trivial)
  | compute => exact Fits.called hs.frames huse fun _ _ _ => trivial
  | lack => cases hcalm'

/-- A walk over elements comes to an answer for the tuple. -/
theorem Fits.measure {w : ElementWalk} (hs : t.Fits)
    (huse : ∀ r, topUses t.frames (.response r) .nothing) (h : ElementMeasured t w t') :
    t'.Fits := by
  cases h with
  | done => exact ⟨huse, hs.frames⟩
  | consult =>
      exact hs.pushed (f := .measuring w) (consult_frames ..) huse
        (consult_makes _ _ _ _ fun _ => trivial)

/-- Waiters are resumed for a frame that takes whatever they come to. -/
theorem Fits.release {d : Drive} {dep : Option Dependency} {ready : List Waiter} (hs : t.Fits)
    (huse : ∀ r, topUses t.frames (.response r) .nothing) (h : Released t a d dep ready t') :
    t'.Fits := by
  cases h with
  | @resume w rest => exact hs.pushed (f := .releasing d dep rest) rfl huse fun _ => trivial
  | @forget w rest => exact hs.pushed (f := .releasing d dep rest) rfl huse trivial
  | stop => exact ⟨huse, hs.frames⟩
  | finish => exact ⟨huse _, hs.frames⟩
  | again => exact ⟨huse, hs.frames⟩

/-- A stopped initialization comes to an answer, unless its chain has closed. -/
theorem Fits.stopped {d : Drive} {dep : Dependency} (hs : t.Fits)
    (huse : ∀ r, topUses t.frames (.response r) .nothing) (h : Stopped t a d dep t') :
    t'.Fits := by
  cases h with
  | cycle => exact ⟨trivial, hs.frames⟩
  | rely =>
      exact hs.pushed (f := .relying d) (consult_frames ..) huse
        (consult_makes _ _ _ _ fun _ => trivial)
  | suspend => exact ⟨huse, hs.frames⟩

/-- A parked initialization answers with what is published, or is taken up again. -/
theorem Fits.enqueue {d : Drive} {dep : Dependency} (hs : t.Fits)
    (huse : ∀ r, topUses t.frames (.response r) .nothing) (h : Enqueued t a d dep t') :
    t'.Fits := by
  cases h with
  | park => exact ⟨huse _, hs.frames⟩
  | reclaim => exact ⟨huse, hs.frames⟩
  | strand => exact ⟨huse _, hs.frames⟩

/-- An attempt at a witness table hands its draft to the frame that it fills. -/
theorem Fits.acquire {j : TableJob} {arguments : List TableId} (hs : t.Fits)
    (huse : ∀ r, topUses t.frames (.table r) .nothing) (h : Acquired lib t a j arguments t') :
    t'.Fits := by
  cases h with
  | full => exact ⟨huse _, hs.frames⟩
  | instantiate =>
      refine Fits.called hs.frames huse fun _ l hl => ?_
      cases l with
      | draft d => trivial
      | nothing => cases hl
      | scratch w => cases hl
  | copy => exact ⟨trivial, huse, hs.frames⟩

/-- A step that does not end in a fault keeps it. -/
theorem Fits.step (hs : t.Fits) (h : t.step lib a = some t')
    (hcalm : t.control.disturbed = false) (hcalm' : t'.control.disturbed = false) : t'.Fits := by
  have hmakes : ∀ {c : Control σ}, t.control = c → c.Makes (topUses t.frames) := fun hc =>
    hc ▸ hs.control
  cases step_cases h with
  | run hc h => exact hs.run hc h hcalm'
  | give hc h => exact hs.give h hcalm'
  | unwind hc => rw [hc] at hcalm; cases hcalm
  | await hc h =>
      cases h with
      | answer => exact ⟨hmakes hc _, hs.frames⟩
      | reentrant => cases hcalm'
  | allocated hc h => exact hs.allocated (hmakes hc) h
  | begin hc h => exact hs.begin (hmakes hc) h
  | lay hc h => exact hs.lay (hmakes hc) h hcalm'
  | measure hc h => exact hs.measure (hmakes hc) h
  | publish hc h =>
      cases h
      exact ⟨hmakes (c := .publish _ _) hc, hs.frames⟩
  | release hc h => exact hs.release (hmakes hc) h
  | stopped hc h => exact hs.stopped (hmakes hc) h
  | enqueue hc h => exact hs.enqueue (hmakes hc) h
  | acquire hc h => exact hs.acquire (hmakes hc) h
  | standBy hc h =>
      cases h
      exact hs.replaced (askName_frames ..) (askName_makes _ _ _ (hmakes hc))
  | report hc => rw [hc] at hcalm; cases hcalm

/-- A program that goes on after it has dealt with other threads. -/
theorem Fits.program {p p' : Program σ Value} {s : Setting σ} (hs : t.Fits)
    (hc : t.control = .run p s) (hp : Machine.Resumes p p') (hc' : t'.control = .run p' s)
    (hf : t'.frames = t.frames) : t'.Fits := by
  have hmakes := hs.control
  rw [hc] at hmakes
  obtain ⟨hends, hhandlers⟩ := hmakes
  refine hs.replaced hf ?_
  rw [hc']
  cases hp with
  | spawn name body k i => exact ⟨hends i, hhandlers⟩
  | join other p' => exact ⟨hends, hhandlers⟩
  | settle other k b => exact ⟨hends b, hhandlers⟩

end Turn

namespace Machine

/-- A thread that has just started makes nothing for anyone. -/
theorem Fresh.fits {start : Machine σ} (hf : start.Fresh) {thread : Thread σ}
    (ht : thread ∈ start.threads) : (start.turn thread).Fits := by
  obtain ⟨hfs, p, s, hc⟩ := hf.running thread ht
  refine ⟨?_, ?_⟩
  · show thread.control.Makes (topUses thread.frames)
    rw [hfs, hc]
    exact ⟨Program.ends_of_forall (fun _ _ _ => trivial) p,
      fun h _ f => Program.ends_of_forall (fun _ _ _ => trivial) (h f)⟩
  · show framesFit thread.frames
    rw [hfs]
    trivial

end Machine

end TypeRecords
