/-
What a thread goes by when it finishes a record.

The outcome of a step is made up in one store and published in a later one,
and a tuple's step looks at one element after the other while anything may
happen in between. So a thread goes by things that were so when it found out.
`Turn.Truthful` says that they are so still: the outcome it is about to publish
says nothing about the record that is not the case (`Control.Bears`), and the
stages noted on a walk over the elements of a tuple have been reached
(`Frame.Bears`).

# The answer to a walk

A walk is answered by a response, and in general a response may come from
anywhere. Above the frame of a walk, though, there is nothing but the thread
waiting for the element's entry, or the answer it got there. Only a report
can come in between, and it unwinds in the end (`Frame.Covers`). So the answer
is a stage that the element has reached (`Control.Answers`).
-/
import Mathlib.Data.List.Chain
import TypeRecords.Proofs.Finishing.Shut
import TypeRecords.Proofs.Process.Frames
import TypeRecords.Proofs.Process.Plain

namespace TypeRecords

variable {σ : Type}

-- ====================================================== what is gone by

/-- What a thread goes by is so. -/
def Control.Bears (registry : RegistryId) (s : Store) : Control σ → Prop
  | .publish d o => s.Bears registry d o
  | .measure w => s.Walked registry w
  | _ => True

def Frame.Bears (registry : RegistryId) (s : Store) : Frame σ → Prop
  | .stepping d => d.stage < .nonTransitive
  | .measuring w => s.Walked registry w
  | _ => True

/-- The thread is about to find out how far the next element of a walk is, or
has found out, or unwinds. -/
def Control.Answers (registry : RegistryId) (s : Store) (w : ElementWalk) : Control σ → Prop
  | .await _ e _ => ∃ x rest, w.todo = x :: rest ∧ s.entryOf? registry x = some e
  | .give (.response r) _ => ∃ x rest, w.todo = x :: rest ∧ r.stage ≤ s.stageOf registry x
  | .report .. => True
  | .unwind _ => True
  | .ended => True
  | _ => False

/-- Only a report comes above a walk. -/
def Frame.Covers : Frame σ → Frame σ → Prop
  | .reporting .., _ => True
  | _, .measuring _ => False
  | _, _ => True

theorem Control.bears_of_plain {c : Control σ} (h : c.plain = true) (registry : RegistryId)
    (s : Store) : c.Bears registry s := by
  cases c with
  | publish d o => cases h
  | measure w => cases h
  | lay w => cases h
  | _ => trivial

theorem Frame.covers_of_call {f g : Frame σ} (h : g.isCall = true) : f.Covers g := by
  cases g with
  | forResponse k s | forLayout k s | forTable k s | forRecord k s => cases f <;> trivial
  | _ => cases h

namespace Turn

/-- What a thread goes by is so, and so is what the frames above its walks hand
down. -/
structure Truthful (registry : RegistryId) (t : Turn σ) : Prop where
  control : t.control.Bears registry t.store
  frames : ∀ f ∈ t.frames, f.Bears registry t.store
  answer : ∀ {w : ElementWalk} {rest : List (Frame σ)}, t.frames = .measuring w :: rest →
    t.control.Answers registry t.store w
  covered : t.frames.IsChain Frame.Covers

variable {lib : Library σ} {a : Actor} {t t' : Turn σ} {registry : RegistryId} {H : List Hold}

-- ====================================================== outcomes and walks

/-- The record of an initialization that a thread runs is made, and belongs to
the one registry. -/
theorem made_of_active {s : Store} (hs : s.Sole registry) (ho : s.Owned H) {i : ThreadId}
    {d : Drive} (hm : .active i d ∈ H) : d.registry = registry ∧ s.Made registry d.record := by
  obtain ⟨e, he, hdriven, -⟩ := ho.fits hm
  have hreg := hs.entry_registry he
  exact ⟨hdriven.registry.symm.trans hreg, hreg ▸ ho.made_of_record he hdriven.record⟩

/-- To begin to lay a record out is no outcome yet. -/
theorem startLayout_bears (t : Turn σ) (registry' : RegistryId) (record : RecordId)
    (scratch : Scratch) (s : Store) :
    (t.startLayout lib registry' record scratch).control.Bears registry s := by
  unfold startLayout
  split <;> trivial

theorem begin_bears {d : Drive} (h : Begun lib t d t') (hc : t'.store.Coherent registry)
    (ho : t'.store.Owned H) (hd : d.registry = registry) (hx : t'.store.Made registry d.record) :
    t'.control.Bears registry t'.store := by
  cases h with
  | measure hr horigin => exact ⟨[], hc.referents_tuple hr horigin, rfl, nofun⟩
  | close => exact hc.closing ho hd hx
  | layout => exact startLayout_bears ..
  | callback => trivial

theorem measure_bears {w : ElementWalk} (h : ElementMeasured t w t')
    (hc : t'.store.Coherent registry) (ho : t'.store.Owned H) (hd : w.drive.registry = registry)
    (hx : t'.store.Made registry w.drive.record) (hw : t'.store.Walked registry w) :
    t'.control.Bears registry t'.store := by
  cases h with
  | done htodo => exact hc.tupleOutcome ho hd hx hw htodo
  | consult => exact Control.bears_of_plain (consult_plain ..) ..

/-- A completion that was run on a record that is not finished for itself has
come to its outcome. -/
theorem stepped_bears {d : Drive} (dep : Option Dependency) (left : Local)
    (hc : t.store.Coherent registry) (ho : t.store.Owned H) (hd : d.registry = registry)
    (hx : t.store.Made registry d.record) (hstage : d.stage < .nonTransitive) :
    (t.stepped d dep left).control.Bears registry (t.stepped d dep left).store := by
  have hinferred : t.store.inferredStage d.record < .nonTransitive := by
    unfold Store.inferredStage
    split <;> decide
  -- scratch words do not matter
  have hblocked : ∀ (words : Scratch) (dep : Dependency),
      t.store.Bears registry { d with scratch := words }
        (.blocked (t.store.inferredStage d.record) dep) := fun words dep => .inl ⟨hstage, hinferred⟩
  have hclosing : ∀ words : Scratch, t.store.Bears registry { d with scratch := words }
      (closing t.store { d with scratch := words }) := fun words =>
    hc.closing (d := { d with scratch := words }) ho hd hx
  unfold stepped
  cases left with
  | scratch words =>
      cases dep with
      | some dep => exact hblocked words dep
      | none => exact hclosing words
  | nothing =>
      cases dep with
      | some dep => exact hblocked d.scratch dep
      | none => exact hclosing d.scratch
  | draft f =>
      cases dep with
      | some dep => exact hblocked d.scratch dep
      | none => exact hclosing d.scratch

/-- The next element has answered. -/
theorem measured_bears {w : ElementWalk} {r : Response}
    (hx : t.store.Made registry w.drive.record) (hw : t.store.Walked registry w)
    (hr : ∃ x rest, w.todo = x :: rest ∧ r.stage ≤ t.store.stageOf registry x) :
    (t.measured w r).control.Bears registry (t.measured w r).store := by
  obtain ⟨x, rest, htodo, hstage⟩ := hr
  unfold measured
  rw [htodo]
  simp only
  split
  · exact hw.next htodo hstage
  · have hrequired : Stage.layoutComplete ≤ .nonTransitive := by decide
    exact .inr ⟨hrequired, .single ⟨hx, hw.refers htodo⟩⟩

theorem Truthful.give (ht : t.Truthful registry) {v : Value} {left : Local}
    (hcontrol : t.control = .give v left) (h : Given lib t a v left t')
    (hc : t.store.Coherent registry) (ho : t.store.Owned H)
    (hm : ∀ f ∈ t.frames, ∀ hold ∈ f.holds a.id, hold ∈ H) :
    t'.control.Bears registry t'.store := by
  cases h with
  | @stepped d rest dep left hf =>
      have htop : .stepping d ∈ t.frames := hf ▸ List.mem_cons_self
      obtain ⟨hd, hx⟩ := made_of_active hc.sole ho (hm _ htop _ List.mem_cons_self)
      exact stepped_bears (t := { t with frames := rest }) dep left hc ho hd hx (ht.frames _ htop)
  | @measured w rest r left hf =>
      have htop : .measuring w ∈ t.frames := hf ▸ List.mem_cons_self
      obtain ⟨hd, hx⟩ := made_of_active hc.sole ho (hm _ htop _ List.mem_cons_self)
      have hanswer := ht.answer hf
      rw [hcontrol] at hanswer
      exact measured_bears (t := { t with frames := rest }) hx (ht.frames _ htop) hanswer
  | laid =>
      unfold laid
      split <;> trivial
  | filled hf h => cases h <;> trivial
  | ended | response | layout | table | record | allocated | relied | released | founded
  | reported => trivial

-- ====================================================== answers to a walk

/-- Whoever looks at an entry is told its stage. -/
theorem stage_of_look {e : Entry} {thread : ThreadId} {q : Request} {r : Response} (hs : e.Sound)
    (h : e.look thread q = .answer r) : r.stage = e.stage := by
  unfold Entry.look at h
  split at h
  · rename_i found hfound
    cases h
    have hsnap := (Option.filter_eq_some_iff.mp hfound).1
    cases hr : e.record with
    | none =>
        rw [Entry.Sound.snapshot_none hr] at hsnap
        cases hsnap
    | some record =>
        rw [hs.snapshot hr] at hsnap
        cases hsnap
        rfl
  · split at h
    · cases h
    · split at h
      · cases h
        rfl
      · split at h <;> cases h

/-- As long as the walk is the topmost frame, the thread gets the answer or
unwinds. -/
theorem answers_step {w : ElementWalk} {rest : List (Frame σ)} (h : t.step lib a = some t')
    (ho : t.store.Owned H) (hf : t.frames = .measuring w :: rest)
    (hans : t.control.Answers registry t.store w) (hf' : t'.frames = t.frames) :
    t'.control.Answers registry t'.store w := by
  -- the walk has not been taken off
  have hgone : t'.frames ≠ rest := fun hrest =>
    List.cons_ne_self _ _ (hf.symm.trans (hf'.symm.trans hrest))
  cases step_cases h with
  | await hc h =>
      rw [hc] at hans
      obtain ⟨x, xs, htodo, hfound⟩ := hans
      cases h with
      | @answer entry answer hentry hlook =>
          refine ⟨x, xs, htodo, ?_⟩
          show answer.stage ≤ t.store.stageOf registry x
          rw [Store.stageOf_entry hfound hentry (ho.sound hentry),
            stage_of_look (ho.sound hentry) hlook]
          exact Nat.le_refl _
      | reentrant => trivial
  | give hc h => exact (hgone (give_frames hf nofun h)).elim
  | unwind hc h => exact (hgone (unwind_frames hf h)).elim
  | report hc h =>
      cases h with
      | hook => exact (List.cons_ne_self _ _ hf').elim
      | abort | unwind => trivial
  | run hc | allocated hc | begin hc | lay hc | measure hc | publish hc | release hc | stopped hc
  | enqueue hc | acquire hc | standBy hc =>
      rw [hc] at hans
      exact hans.elim

/-- Where a walk begins to wait for its next element, the thread waits for the
element's entry, or there is none. -/
theorem consult_answers {w : ElementWalk} {x : RecordId} {rest : List RecordId} (q : Request)
    (htodo : w.todo = x :: rest) :
    (t.consult registry q x).control.Answers registry (t.consult registry q x).store w := by
  unfold consult
  split
  · rename_i e he
    exact ⟨x, rest, htodo, he⟩
  · rename_i hnone
    refine ⟨x, rest, htodo, ?_⟩
    show Stage.complete ≤ t.store.stageOf registry x
    rw [Store.stageOf_of_none hnone]
    exact Nat.le_refl _

/-- What is put on top of a walk is a report. -/
theorem Opens.covers {f g : Frame σ} {rest : List (Frame σ)} (h : t.Opens f)
    (ht : t.Truthful registry) (hf : t.frames = g :: rest) : f.Covers g := by
  by_cases hg : ∃ w, g = .measuring w
  · obtain ⟨w, rfl⟩ := hg
    have hans := ht.answer hf
    cases h with
    | reporting hc => trivial
    | call hc _ => rw [hc] at hans; exact hans.elim
    | allocating al hc => rw [hc] at hans; exact hans.elim
    | founding j hc => rw [hc] at hans; exact hans.elim
    | stepping hc hd => rw [hc] at hans; exact hans.elim
    | laying hc => rw [hc] at hans; exact hans.elim
    | measuring hc => rw [hc] at hans; exact hans.elim
    | releasing hc => rw [hc] at hans; exact hans.elim
    | relying hc hcy => rw [hc] at hans; exact hans.elim
    | filling hc => rw [hc] at hans; exact hans.elim
  · cases g with
    | measuring w => exact (hg ⟨w, rfl⟩).elim
    | _ => cases f <;> trivial

theorem isChain_of_calls {fs : List (Frame σ)} (h : ∀ f ∈ fs.tail, f.isCall = true) :
    fs.IsChain Frame.Covers := by
  induction fs with
  | nil => exact .nil
  | cons f fs ih =>
      cases fs with
      | nil => exact .singleton f
      | cons g fs =>
          exact .cons_cons (Frame.covers_of_call (h g List.mem_cons_self))
            (ih fun x hx => h x (List.mem_cons_of_mem _ hx))

/-- What has stood above a walk unwinds. -/
theorem reporting_answers {r : Report} {hooks : List HookId} {policy : FaultPolicy}
    {rest : List (Frame σ)} (h : t.step lib a = some t')
    (hf : t.frames = .reporting r hooks policy :: rest)
    (hc : (∃ v left, t.control = .give v left) ∨ ∃ e, t.control = .unwind e) (w : ElementWalk) :
    t'.control.Answers registry t'.store w := by
  rcases hc with ⟨v, left, hc⟩ | ⟨e, hc⟩
  · unfold step give at h
    rw [hc, hf] at h
    cases h
    trivial
  · unfold step unwind at h
    rw [hc, hf] at h
    cases h
    trivial

end Turn

-- ====================================================== later stores

section Later

variable {registry : RegistryId} {s s' : Store} {H : List Hold} {i : ThreadId}

theorem Control.Bears.later {c : Control σ} (hb : c.Bears registry s) (hc : s.Coherent registry)
    (ho : s.Owned H) (hm : ∀ h ∈ c.holds i, h ∈ H) (hl : s.Later registry s') :
    c.Bears registry s' := by
  cases c with
  | publish d o =>
      obtain ⟨e, he, hdriven, -⟩ := ho.fits (hm _ List.mem_cons_self)
      have hx := ho.made_of_record he hdriven.record
      rw [hc.sole.entry_registry he] at hx
      exact hl.bears hc ho hx hb
  | measure w => exact hl.walked hc (Turn.made_of_active hc.sole ho (hm _ List.mem_cons_self)).2 hb
  | _ => trivial

theorem Frame.Bears.later {f : Frame σ} (hb : f.Bears registry s) (hc : s.Coherent registry)
    (ho : s.Owned H) (hm : ∀ h ∈ f.holds i, h ∈ H) (hl : s.Later registry s') :
    f.Bears registry s' := by
  cases f with
  | stepping d => exact hb
  | measuring w =>
      exact hl.walked hc (Turn.made_of_active hc.sole ho (hm _ List.mem_cons_self)).2 hb
  | _ => trivial

theorem Control.Answers.later {c : Control σ} {w : ElementWalk} (ha : c.Answers registry s w)
    (hw : s.Walked registry w) (hc : s.Coherent registry) (hl : s.Later registry s') :
    c.Answers registry s' w := by
  cases c with
  | await r e q =>
      obtain ⟨x, rest, htodo, hfound⟩ := ha
      exact ⟨x, rest, htodo, hl.grows.entryOf? hfound⟩
  | give v left =>
      cases v with
      | response r =>
          obtain ⟨x, rest, htodo, hstage⟩ := ha
          have hthere : x < s.records.size := hc.grounded (hw.refers htodo)
          exact ⟨x, rest, htodo, Nat.le_trans hstage (hl.stages hthere)⟩
      | _ => exact ha
  | _ => exact ha

end Later

namespace Turn.Truthful

variable {lib : Library σ} {a : Actor} {t t' : Turn σ} {registry : RegistryId} {H H' : List Hold}

theorem outcome (ht : t.Truthful registry) {d : Drive} {o : StepOutcome}
    (hc : t.control = .publish d o) : t.store.Bears registry d o := by
  have hbears := ht.control
  rw [hc] at hbears
  exact hbears

/-- What one thread goes by is not disturbed by what the others do. -/
theorem later (ht : t.Truthful registry) (hc : t.store.Coherent registry)
    (ho : t.store.Owned H) {i : ThreadId} (hm : ∀ h ∈ t.holds i, h ∈ H)
    (hl : t.store.Later registry t'.store) (hcontrol : t'.control = t.control)
    (hframes : t'.frames = t.frames) : t'.Truthful registry := by
  refine ⟨?_, fun f hf => ?_, fun {w rest} hf => ?_, by rw [hframes]; exact ht.covered⟩
  · rw [hcontrol]
    exact ht.control.later hc ho (fun h hh => hm h (List.mem_append_left _ hh)) hl
  · rw [hframes] at hf
    exact (ht.frames f hf).later hc ho
      (fun h hh => hm h (mem_holds_of_frame hf hh)) hl
  · rw [hframes] at hf
    rw [hcontrol]
    exact (ht.answer hf).later (ht.frames (.measuring w) (hf ▸ List.mem_cons_self)) hc hl

/-- A thread that has just been started goes by nothing. -/
theorem start {p : Program σ Value} {s : Setting σ} (hc : t.control = .run p s)
    (hf : t.frames = []) : t.Truthful registry where
  control := by
    rw [hc]
    trivial
  frames := by
    rw [hf]
    nofun
  answer := by
    rw [hf]
    nofun
  covered := by
    rw [hf]
    exact .nil

/-- A program that goes on by the machine's doing does not lie on a walk. -/
theorem program (ht : t.Truthful registry) {p p' : Program σ Value} {s s' : Setting σ}
    (hc : t.control = .run p s) (hstore : t'.store = t.store) (hc' : t'.control = .run p' s')
    (hf : t'.frames = t.frames) : t'.Truthful registry where
  control := by
    rw [hc']
    trivial
  frames f hm := by
    rw [hstore]
    exact ht.frames f (hf ▸ hm)
  answer hw := by
    have hanswers := ht.answer (hf.symm.trans hw)
    rw [hc] at hanswers
    exact hanswers.elim
  covered := by
    rw [hf]
    exact ht.covered

/-- The outcome or the walk that a step comes to is so in the store it leaves. -/
theorem control_step (ht : t.Truthful registry) (h : t.step lib a = some t')
    (hc : t.store.Coherent registry) (ho : t.store.Owned H) (hm : ∀ h ∈ t.holds a.id, h ∈ H)
    (hc' : t'.store.Coherent registry) (ho' : t'.store.Owned H')
    (hl : t.store.Later registry t'.store) : t'.control.Bears registry t'.store := by
  rcases step_plain h with hplain | hventures
  · exact Control.bears_of_plain hplain ..
  · cases hventures with
    | begin hd =>
        obtain ⟨hreg, hx⟩ := made_of_active hc.sole ho
          (hm _ (mem_holds_of_control hd List.mem_cons_self))
        exact begin_bears (step_begin hd h) hc' ho' hreg (hl.made hx).1
    | measure hw =>
        obtain ⟨hreg, hx⟩ := made_of_active hc.sole ho
          (hm _ (mem_holds_of_control hw List.mem_cons_self))
        have hwalked := ht.control
        rw [hw] at hwalked
        exact measure_bears (step_measure hw h) hc' ho' hreg (hl.made hx).1
          (hl.walked hc hx hwalked)
    | give hv =>
        exact ht.give hv (step_give hv h) hc ho fun f hf hold hh =>
          hm hold (mem_holds_of_frame hf hh)
    | program hp =>
        cases step_run hp h with
        | structLayout => exact startLayout_bears ..
        | refuse hmisses => cases hmisses

/-- A frame was there before, or it keeps what the thread went by. -/
theorem frames_step (ht : t.Truthful registry) (h : t.step lib a = some t')
    (hc : t.store.Coherent registry) (ho : t.store.Owned H) (hm : ∀ h ∈ t.holds a.id, h ∈ H)
    (hl : t.store.Later registry t'.store) {f : Frame σ} (hf : f ∈ t'.frames) :
    f.Bears registry t'.store := by
  rcases opened_of_step h hf with hold | hopens
  · exact (ht.frames f hold).later hc ho
      (fun hold' hh => hm hold' (mem_holds_of_frame hold hh)) hl
  · have hbears := ht.control
    cases hopens with
    | stepping hc hd => exact hd
    | @measuring w hw =>
        rw [hw] at hbears
        have hx := (made_of_active hc.sole ho
          (hm _ (mem_holds_of_control hw List.mem_cons_self))).2
        exact hl.walked hc hx hbears
    | call hc hcall => cases f <;> trivial
    | _ => trivial

/-- What is handed to a walk is so. -/
theorem answer_step (ht : t.Truthful registry) (h : t.step lib a = some t')
    (hsole : t.store.Sole registry) (ho : t.store.Owned H) (hm : ∀ h ∈ t.holds a.id, h ∈ H)
    {w : ElementWalk} {rest : List (Frame σ)} (hf : t'.frames = .measuring w :: rest) :
    t'.control.Answers registry t'.store w := by
  have hsame : t'.frames = t.frames → t'.control.Answers registry t'.store w := fun hfs =>
    answers_step h ho (hfs.symm.trans hf) (ht.answer (hfs.symm.trans hf)) hfs
  cases step_stacks h with
  | same hfs => exact hsame hfs
  | @drop f hfs hgone =>
      have hchain := ht.covered
      rw [hfs, hf, List.isChain_cons_cons] at hchain
      cases f with
      | reporting r hooks policy => exact reporting_answers h hfs hgone w
      | _ => exact hchain.1.elim
  | opened fs hfs hopens htail =>
      cases fs with
      | nil => exact hsame hfs
      | cons f fs =>
          have hf' := hf
          rw [hfs, List.cons_append] at hf'
          obtain ⟨rfl, -⟩ := List.cons.inj hf'
          cases hopens _ List.mem_cons_self with
          | call hc hcall => cases hcall
          | measuring hw =>
              obtain ⟨hreg, -⟩ := made_of_active hsole ho
                (hm _ (mem_holds_of_control hw List.mem_cons_self))
              cases step_measure hw h with
              | consult htodo => exact hreg ▸ consult_answers _ htodo
              | done =>
                  have hlen : t.frames.length = _ := congrArg List.length hfs
                  rw [List.length_append, List.length_cons] at hlen
                  omega

/-- A walk stays covered by frames that hand something down to it. -/
theorem covered_step (ht : t.Truthful registry) (h : t.step lib a = some t') :
    t'.frames.IsChain Frame.Covers := by
  cases step_stacks h with
  | same hfs => rw [hfs]; exact ht.covered
  | drop hfs hgone =>
      have hchain := ht.covered
      rw [hfs] at hchain
      exact hchain.tail
  | opened fs hfs hopens htail =>
      rw [hfs]
      refine (isChain_of_calls htail).append ht.covered fun f hf g hg => ?_
      obtain ⟨rest, hrest⟩ := List.head?_eq_some_iff.mp hg
      exact (hopens f (List.mem_of_getLast? hf)).covers ht hrest

/-- What a step goes by afterwards is so, if the store it leaves is a later one
and coherent. -/
theorem step (ht : t.Truthful registry) (h : t.step lib a = some t')
    (hc : t.store.Coherent registry) (ho : t.store.Owned H) (hm : ∀ h ∈ t.holds a.id, h ∈ H)
    (hc' : t'.store.Coherent registry) (ho' : t'.store.Owned H')
    (hl : t.store.Later registry t'.store) : t'.Truthful registry where
  control := ht.control_step h hc ho hm hc' ho' hl
  frames _ hf := ht.frames_step h hc ho hm hl hf
  answer hf := ht.answer_step h hc.sole ho hm hf
  covered := ht.covered_step h

end Turn.Truthful

end TypeRecords
