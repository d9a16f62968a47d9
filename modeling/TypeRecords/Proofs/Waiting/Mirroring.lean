/-
The same work for another request.

What a thread does for a request depends on the request in one place: when an
initialization is stopped, the request says whether to wait for what stopped
it or to park. `Turn.Mirrors` relates two turns that are at the same point for
different requests, made outside of all calls: the controls agree up to the
request they carry, or the frames do, in the frame above the one that waits
for the answer. Away from that one place both take the same steps, in the
work itself (`Mirrors.owes_step`) and in the calls it makes
(`Mirrors.inside_step`).
-/
import TypeRecords.Proofs.Process.Alone
import TypeRecords.Proofs.Waiting.Progress

namespace TypeRecords

variable {σ : Type}

-- ====================================================== how a request ends

/-- What a request may come to. -/
inductive Ending
  | answered (r : Response)
  | reported (r : Report)
  /-- A callback failed by itself. -/
  | failed (f : Failure)
  deriving DecidableEq

namespace Turn

/-- What a request that was made outside of all calls has come to, if it has
come to anything. -/
def ending? (t : Turn σ) : Option Ending :=
  match t.control with
  | .give (.response r) _ => if t.frames.length = 1 then some (.answered r) else none
  | .report r _ _ => some (.reported r)
  | .unwind f => some (.failed f)
  | _ => none

/-- The next step is orderly, and the request has not come to anything yet. -/
def Ongoing (registry : RegistryId) (t : Turn σ) : Prop :=
  t.orderly registry = true ∧ t.ending? = none

instance (registry : RegistryId) : DecidablePred (Ongoing (σ := σ) registry) :=
  fun _ => inferInstanceAs (Decidable (_ ∧ _))

end Turn

-- ====================================================== another request

/-- The same initialization for another request. -/
abbrev Drive.recast (d : Drive) (q : Request) : Drive := { d with request := q }

/-- The same step for another request. -/
def Control.recast (q : Request) : Control σ → Control σ
  | .allocated al => .allocated { al with request := q }
  | .begin d => .begin (d.recast q)
  | .measure w => .measure { w with drive := w.drive.recast q }
  | .publish d o => .publish (d.recast q) o
  | .release d dep ready => .release (d.recast q) dep ready
  | .stopped d dep => .stopped (d.recast q) dep
  | .enqueue d dep => .enqueue (d.recast q) dep
  | c => c

/-- Whether an initialization is put on a queue next. -/
def Control.enqueues : Control σ → Bool
  | .enqueue .. => true
  | _ => false

/-- The same work in progress for another request. -/
def Frame.recast (q : Request) : Frame σ → Frame σ
  | .allocating al => .allocating { al with request := q }
  | .stepping d => .stepping (d.recast q)
  | .measuring w => .measuring { w with drive := w.drive.recast q }
  | .relying d => .relying (d.recast q)
  | .releasing d dep rest => .releasing (d.recast q) dep rest
  | f => f

/-- An allocation is one for any request. -/
@[simp] theorem Frame.recast_allocates (f : Frame σ) (q : Request) :
    (f.recast q).allocates = f.allocates := by
  cases f <;> rfl

/-- Work that is recast is work for the other request. -/
theorem Control.recast_owes {c : Control σ} {q : Request} (h : c.duty = .owes q) (q' : Request) :
    (c.recast q').duty = .owes q' := by
  cases c <;> first | rfl | cases h

namespace Turn

variable {lib : Library σ} {a : Actor} {t t' u : Turn σ} {registry : RegistryId}
  {q q' : Request} {k : Response → Program σ Value} {s : Setting σ}

/-- Who works on the entry of a request runs no program, -/
theorem ne_run_of_owes (h : t.control.duty = .owes q) (p : Program σ Value) (s : Setting σ) :
    t.control ≠ .run p s := by
  intro hc
  rw [hc] at h
  cases h

/-- breaks no rule, -/
theorem orderly_of_owes (h : t.control.duty = .owes q) : t.orderly registry = true := by
  unfold orderly
  cases hc : t.control <;> rw [hc] at h <;> first | rfl | cases h

/-- and has not come to anything. -/
theorem ending_of_owes (h : t.control.duty = .owes q) : t.ending? = none := by
  unfold ending?
  cases hc : t.control <;> rw [hc] at h <;> first | rfl | cases h

/-- What becomes of a record that is looked up does not depend on what the
thread did before, or on its frames. -/
theorem consult_onto (t : Turn σ) (c : Control σ) (fs : List (Frame σ)) (registry : RegistryId)
    (q : Request) (record : RecordId) :
    ({ t with control := c, frames := fs }).consult registry q record
      = { t.consult registry q record with frames := fs } := by
  unfold consult
  dsimp only
  cases t.store.entryOf? registry record <;> rfl

/-- Neither does the beginning of a layout, -/
theorem startLayout_onto (t : Turn σ) (c : Control σ) (fs : List (Frame σ))
    (registry : RegistryId) (record : RecordId) (scratch : Scratch) :
    ({ t with control := c, frames := fs }).startLayout lib registry record scratch
      = { t.startLayout lib registry record scratch with frames := fs } := by
  unfold startLayout
  dsimp only
  cases (t.store.records[record]?).bind lib.descriptorOf? <;> rfl

/-- nor what becomes of a waiter that is resumed. -/
theorem resume_onto (t : Turn σ) (c : Control σ) (fs : List (Frame σ)) (registry : RegistryId)
    (f g : Frame σ) (w : Waiter) :
    ({ t with control := c, frames := fs }).resume a registry g w
      = { t.resume a registry f w with frames := g :: fs } := by
  unfold resume
  dsimp only
  cases t.store.entries[w.entry]? with
  | none => rfl
  | some e =>
      cases hrecord : e.record with
      | none => simp only [hrecord]; rfl
      | some record =>
          cases htaken : e.reclaim? a.id with
          | none => simp only [hrecord, htaken]; rfl
          | some taken => simp only [hrecord, htaken]

/-- A waiter is resumed on top of the frame that is given for it. -/
theorem resume_frames (t : Turn σ) (registry : RegistryId) (f : Frame σ) (w : Waiter) :
    (t.resume a registry f w).frames = f :: t.frames := by
  unfold resume
  split
  · rfl
  · split <;> rfl

/-- The two turns are at the same point of the same work for the requests `q`
and `q'`, whose answer goes to the program `k`. -/
inductive Mirrors (q q' : Request) (k : Response → Program σ Value) (s : Setting σ) (t u : Turn σ) :
    Prop
  /-- The request is made. -/
  | asked {registry : RegistryId} {c : Call} (hc : t.control = .run (.request registry q c k) s)
      (hf : t.frames = []) (hu : u = t.goto (.run (.request registry q' c k) s))
  /-- It wants an entry that is there. -/
  | sought {registry : RegistryId} {e : EntryId} (hc : t.control = .await registry e q)
      (hf : t.frames = [.forResponse k s]) (hu : u = t.goto (.await registry e q'))
  /-- The thread works on the entry of the request. -/
  | owes (hd : t.control.duty = .owes q) (hne : ∀ d dep, t.control ≠ .enqueue d dep)
      (hf : t.frames = [.forResponse k s]) (hu : u = t.goto (t.control.recast q'))
  /-- The thread is in a call of that work. -/
  | inside {above : List (Frame σ)} {f : Frame σ} (hd : f.duty = .owes q)
      (hf : t.frames = above ++ [f, .forResponse k s])
      (hu : u = { t with frames := above ++ [f.recast q', .forResponse k s] })
  /-- The request has come to something. -/
  | ended {e : Ending} (he : t.ending? = some e)
      (hcomplete : ∀ r, e = .answered r → r.stage = .complete) (hu : u = t)

namespace Mirrors

/-- Store and shared state are the same for both. -/
theorem same (h : Mirrors q q' k s t u) : u.store = t.store ∧ u.shared = t.shared := by
  cases h with
  | asked hc hf hu => rw [hu]; exact ⟨rfl, rfl⟩
  | sought hc hf hu => rw [hu]; exact ⟨rfl, rfl⟩
  | owes hd hne hf hu => rw [hu]; exact ⟨rfl, rfl⟩
  | inside hd hf hu => rw [hu]; exact ⟨rfl, rfl⟩
  | ended he hcomplete hu => rw [hu]; exact ⟨rfl, rfl⟩

/-- The thread works on the entry, and does not put it on a queue next. -/
theorem working (hd : t.control.duty = .owes q) (hne : t.control.enqueues = false)
    (hf : t.frames = [.forResponse k s]) (hu : u = t.goto (t.control.recast q')) :
    Mirrors q q' k s t u := by
  refine .owes hd (fun d dep hc => ?_) hf hu
  rw [hc] at hne
  cases hne

/-- A call has just been made for the work. -/
theorem called {f : Frame σ} (hd : f.duty = .owes q) (hf : t.frames = [f, .forResponse k s])
    (hu : u = { t with frames := [f.recast q', .forResponse k s] }) : Mirrors q q' k s t u :=
  .inside hd (show t.frames = [] ++ [f, .forResponse k s] from hf) hu

/-- What one request has come to the other has come to. -/
theorem ending_eq (h : Mirrors q q' k s t u) : u.ending? = t.ending? := by
  cases h with
  | asked hc hf hu => rw [hu]; unfold ending?; rw [hc]; rfl
  | sought hc hf hu => rw [hu]; unfold ending?; rw [hc]; rfl
  | owes hd hne hf hu =>
      rw [hu, ending_of_owes hd]
      exact ending_of_owes (Control.recast_owes hd q')
  | inside hd hf hu =>
      rw [hu]
      unfold ending?
      rw [hf]
      simp
  | ended he hcomplete hu => rw [hu]

/-- What is handed out is finished. -/
theorem complete_of_ending (h : Mirrors q q' k s t u) {r : Response}
    (he : t.ending? = some (.answered r)) : r.stage = .complete := by
  cases h with
  | asked hc hf hu => unfold ending? at he; rw [hc] at he; cases he
  | sought hc hf hu => unfold ending? at he; rw [hc] at he; cases he
  | owes hd hne hf hu => rw [ending_of_owes hd] at he; cases he
  | inside hd hf hu =>
      unfold ending? at he
      rw [hf] at he
      split at he
      · simp at he
      · cases he
      · cases he
      · cases he
  | ended he' hcomplete hu => exact hcomplete r (Option.some.inj (he'.symm.trans he))

/-- Neither breaks a rule that the other keeps. -/
theorem ongoing (h : Mirrors q q' k s t u) (ho : t.Ongoing registry) : u.Ongoing registry := by
  refine ⟨?_, h.ending_eq.trans ho.2⟩
  have hord := ho.1
  cases h with
  | asked hc hf hu =>
      rw [hu]
      unfold orderly at hord ⊢
      rw [hc] at hord
      exact hord
  | sought hc hf hu => rw [hu]; rfl
  | owes hd hne hf hu =>
      rw [hu]
      exact orderly_of_owes (Control.recast_owes hd q')
  | inside hd hf hu =>
      rw [hu]
      unfold orderly at hord ⊢
      rw [hf] at hord
      simp only [List.all_append, List.all_cons, Frame.recast_allocates] at hord ⊢
      exact hord
  | ended he hcomplete hu => rw [hu]; exact hord

-- ====================================================== steps

/-- A finished record is the answer. -/
theorem answered {r : Response} (hc : t.control = .give (.response r) .nothing)
    (hf : t.frames = [.forResponse k s]) (hr : r.stage = .complete) (hu : u = t) :
    Mirrors q q' k s t u := by
  refine .ended (e := .answered r) ?_ (fun r' he => ?_) hu
  · unfold ending?
    rw [hc, hf]
    rfl
  · cases he
    exact hr

/-- A report puts an end to both alike. -/
theorem reported {r : Report} {hooks : List HookId} {policy : FaultPolicy}
    (hc : t.control = .report r hooks policy) (hu : u = t) : Mirrors q q' k s t u := by
  refine .ended (e := .reported r) ?_ nofun hu
  unfold ending?
  rw [hc]

/-- A record that is looked up, whatever the thread did before. -/
theorem consult (hf : t.frames = [.forResponse k s]) (c : Control σ) (record : RecordId) :
    Mirrors q q' k s (t.consult registry q record) ((t.goto c).consult registry q' record) := by
  simp only [Turn.consult, goto]
  cases t.store.entryOf? registry record with
  | some e => exact .sought rfl hf rfl
  | none => exact .answered rfl hf rfl rfl

/-- A request for a tuple comes to the same entry for both. -/
theorem requestTuple (hf : t.frames = [.forResponse k s]) (c : Control σ)
    (elements : List RecordId) :
    Mirrors q q' k s (t.requestTuple registry q elements)
      ((t.goto c).requestTuple registry q' elements) := by
  unfold Turn.requestTuple
  by_cases hempty : elements = []
  · rw [if_pos hempty, if_pos hempty]
    exact .answered rfl hf rfl rfl
  · rw [if_neg hempty, if_neg hempty]
    have hsame : (t.goto c).store.find? registry ⟨.tuple, elements⟩
        = t.store.find? registry ⟨.tuple, elements⟩ := rfl
    simp only [hsame]
    cases t.store.find? registry ⟨.tuple, elements⟩ with
    | some e => exact .sought rfl hf rfl
    | none => exact .working rfl rfl hf rfl

/-- So does a request for an instantiation. -/
theorem requestGeneric {descriptor : DescriptorId} {arguments : List RecordId}
    (hf : t.frames = [.forResponse k s]) (c : Control σ)
    (h : t.requestGeneric lib a registry q descriptor arguments = some t') :
    ∃ u', (t.goto c).requestGeneric lib a registry q' descriptor arguments = some u'
      ∧ Mirrors q q' k s t' u' := by
  obtain ⟨store, shared, control, frames⟩ := t
  obtain rfl : frames = _ := hf
  unfold Turn.requestGeneric at h ⊢
  cases hd : lib.descriptors[descriptor]? with
  | none => rw [hd] at h; cases h
  | some d =>
      rw [hd] at h
      simp only at h ⊢
      by_cases hcount : d.parameters ≠ arguments.length
      · rw [if_pos hcount] at h ⊢
        cases h
        exact ⟨_, rfl, .reported rfl rfl⟩
      · rw [if_neg hcount] at h ⊢
        simp only [goto] at h ⊢
        cases hfound : store.find? registry ⟨.generic descriptor, arguments⟩ with
        | some e =>
            rw [hfound] at h
            cases h
            exact ⟨_, rfl, .sought rfl rfl rfl⟩
        | none =>
            rw [hfound] at h
            cases hcallback : d.instantiate with
            | some callback =>
                rw [hcallback] at h
                cases h
                exact ⟨_, rfl, .called rfl rfl rfl⟩
            | none =>
                rw [hcallback] at h
                cases h
                exact ⟨_, rfl, .working rfl rfl rfl rfl⟩

/-- The request is made. -/
theorem asked_step {c : Call} (hc : t.control = .run (.request registry q c k) s)
    (hf : t.frames = []) (h : t.step lib a = some t') :
    ∃ u', (t.goto (.run (.request registry q' c k) s)).step lib a = some u'
      ∧ Mirrors q q' k s t' u' := by
  unfold step at h ⊢
  rw [hc] at h
  let asking : Turn σ := { t with frames := .forResponse k s :: t.frames }
  have hbase : asking.frames = [.forResponse k s] := by
    show _ :: t.frames = _
    rw [hf]
  cases c with
  | check record => cases h; exact ⟨_, rfl, consult hbase _ record⟩
  | tuple elements => cases h; exact ⟨_, rfl, requestTuple hbase _ elements⟩
  | generic descriptor arguments => exact requestGeneric (t := asking) hbase _ h

-- ====================================================== work on the entry

/-- A fresh record is finished or begun for both. -/
theorem allocated {al : Allocation} (hf : t.frames = [.forResponse k s]) (hq : al.request = q)
    (c : Control σ) : Mirrors q q' k s (t.allocated lib a al)
      ((t.goto c).allocated lib a { al with request := q' }) := by
  show Mirrors q q' k s (if (firstStage lib t.store al.record).2 = .complete then _ else _)
    (if (firstStage lib t.store al.record).2 = .complete then _ else _)
  by_cases hstage : (firstStage lib t.store al.record).2 = .complete
  · simp only [if_pos hstage]
    exact .answered rfl hf rfl rfl
  · simp only [if_neg hstage]
    exact .working (congrArg Duty.owes hq) rfl hf rfl

/-- A completion step begins for both. -/
theorem begin {d : Drive} (hf : t.frames = [.forResponse k s]) (hq : d.request = q)
    (c : Control σ) (h : t.begin lib d = some t') :
    ∃ u', (t.goto c).begin lib (d.recast q') = some u' ∧ Mirrors q q' k s t' u' := by
  obtain ⟨store, shared, control, frames⟩ := t
  obtain rfl : frames = _ := hf
  subst hq
  simp only [Turn.begin, goto, Drive.recast] at h ⊢
  split at h
  · cases h
  · split at h
    · cases h
    · cases h
      exact ⟨_, rfl, .working rfl rfl rfl rfl⟩
    · split at h
      · rename_i hnone
        cases h
        simp only [hnone]
        exact ⟨_, rfl, .working rfl rfl rfl rfl⟩
      · -- the layout begins above the step
        rename_i hlayout
        cases h
        simp only [hlayout]
        exact ⟨_, rfl, .called (f := .stepping d) rfl (startLayout_frames ..)
          (startLayout_onto ⟨store.note d.registry fun l => { l with steps := l.steps + 1 }, shared,
            control, [.stepping d, .forResponse k s]⟩ ..)⟩
      · rename_i step hcallback
        cases h
        simp only [hcallback]
        exact ⟨_, rfl, .called rfl rfl rfl⟩

/-- A walk over elements goes on for both. -/
theorem measure {w : ElementWalk} (hf : t.frames = [.forResponse k s])
    (hq : w.drive.request = q) (c : Control σ) : Mirrors q q' k s (t.measure w)
      ((t.goto c).measure { w with drive := w.drive.recast q' }) := by
  obtain ⟨store, shared, control, frames⟩ := t
  obtain rfl : frames = _ := hf
  subst hq
  simp only [Turn.measure, goto, Drive.recast]
  split
  · exact .working rfl rfl rfl rfl
  · exact .called (f := .measuring w) rfl (consult_frames ..)
      (consult_onto ⟨store, shared, control, [.measuring w, .forResponse k s]⟩ ..)

/-- An answer for an element is taken by both. -/
theorem measured {w : ElementWalk} (hf : t.frames = [.forResponse k s])
    (hq : w.drive.request = q) (c : Control σ) (r : Response) :
    Mirrors q q' k s (t.measured w r)
      ((t.goto c).measured { w with drive := w.drive.recast q' } r) := by
  obtain ⟨d, todo, stages⟩ := w
  cases todo with
  | nil => exact .working (congrArg Duty.owes hq) rfl hf rfl
  | cons element rest =>
      simp only [Turn.measured, goto]
      by_cases hlaid : r.stage.satisfies .layoutComplete = true
      · simp only [if_pos hlaid]
        exact .working (congrArg Duty.owes hq) rfl hf rfl
      · simp only [if_neg hlaid]
        exact .working (congrArg Duty.owes hq) rfl hf rfl

/-- An outcome is published by both. -/
theorem publish {d : Drive} {o : StepOutcome} (hf : t.frames = [.forResponse k s])
    (hq : d.request = q) (c : Control σ) (h : t.publish d o = some t') :
    ∃ u', (t.goto c).publish (d.recast q') o = some u' ∧ Mirrors q q' k s t' u' := by
  obtain ⟨store, shared, control, frames⟩ := t
  obtain rfl : frames = _ := hf
  subst hq
  simp only [Turn.publish, goto] at h ⊢
  split at h
  · cases h
  · cases h
    exact ⟨_, rfl, .working rfl rfl rfl rfl⟩

/-- Waiters are resumed by both. -/
theorem release {d : Drive} {dep : Option Dependency} {ready : List Waiter}
    (hf : t.frames = [.forResponse k s]) (hq : d.request = q) (c : Control σ) :
    Mirrors q q' k s (t.release a d dep ready) ((t.goto c).release a (d.recast q') dep ready) := by
  obtain ⟨store, shared, control, frames⟩ := t
  obtain rfl : frames = _ := hf
  subst hq
  cases ready with
  | cons w rest =>
      exact .called (f := .releasing d dep rest) rfl (resume_frames ..)
        (resume_onto ⟨store.note d.registry fun l => { l with resumptions := l.resumptions + 1 },
          shared, control, [.forResponse k s]⟩ ..)
  | nil =>
      unfold Turn.release
      cases dep with
      | some dep => exact .working rfl rfl rfl rfl
      | none =>
          by_cases hstage : d.stage = .complete
          · simp only [Drive.recast, if_pos hstage]
            exact .answered rfl rfl hstage rfl
          · simp only [Drive.recast, if_neg hstage]
            exact .working rfl rfl rfl rfl

/-- A chain that closes is reported for every request. -/
theorem closes {d : Drive} {dep : Dependency} {cycle : Cycle} (c : Control σ)
    (hcycle : t.store.cycle? d.registry d.record dep = some cycle) :
    Mirrors q q' k s (t.stopped a d dep) ((t.goto c).stopped a (d.recast q') dep) := by
  have hnoted :
      (t.store.note d.registry fun l => { l with dependencies := l.dependencies + 1 }).cycle?
        d.registry d.record dep = some cycle := hcycle
  simp only [Turn.stopped, goto]
  rw [hnoted]
  exact .reported rfl rfl

/-- Work on the entry that does not come to waiting is the same. -/
theorem owes_step (q' : Request) (hd : t.control.duty = .owes q)
    (hf : t.frames = [.forResponse k s])
    (hne : ∀ d dep, t.control ≠ .enqueue d dep)
    (hopen : ∀ d dep, t.control = .stopped d dep →
      (t.store.cycle? d.registry d.record dep).isSome = true)
    (h : t.step lib a = some t') :
    ∃ u', (t.goto (t.control.recast q')).step lib a = some u' ∧ Mirrors q q' k s t' u' := by
  unfold step at h ⊢
  cases hc : t.control with
  | allocated al =>
      rw [hc] at h hd
      cases h
      exact ⟨_, rfl, allocated hf (Duty.owes.inj hd) _⟩
  | begin d => rw [hc] at h hd; exact begin hf (Duty.owes.inj hd) _ h
  | measure w =>
      rw [hc] at h hd
      cases h
      exact ⟨_, rfl, measure hf (Duty.owes.inj hd) _⟩
  | publish d o => rw [hc] at h hd; exact publish hf (Duty.owes.inj hd) _ h
  | release d dep ready =>
      rw [hc] at h hd
      cases h
      exact ⟨_, rfl, release hf (Duty.owes.inj hd) _⟩
  | stopped d dep =>
      obtain ⟨cycle, hcycle⟩ := Option.isSome_iff_exists.mp (hopen d dep hc)
      rw [hc] at h
      cases h
      exact ⟨_, rfl, closes _ hcycle⟩
  | enqueue d dep => exact (hne d dep hc).elim
  | run p s => rw [hc] at hd; cases hd
  | give v left => rw [hc] at hd; cases hd
  | unwind f => rw [hc] at hd; cases hd
  | await r e q => rw [hc] at hd; cases hd
  | lay w => rw [hc] at hd; cases hd
  | acquire j arguments => rw [hc] at hd; cases hd
  | standBy j heard => rw [hc] at hd; cases hd
  | report r hooks policy => rw [hc] at hd; cases hd
  | ended => rw [hc] at hd; cases hd

-- ====================================================== calls

/-- A call that was made for the work hands something back to it. -/
theorem give (q' : Request) {f : Frame σ} {v : Value} {left : Local} (hd : f.duty = .owes q)
    (hf : t.frames = [f, .forResponse k s]) (h : t.give lib a v left = some t') :
    ∃ u', ({ t with frames := [f.recast q', .forResponse k s] }).give lib a v left = some u'
      ∧ Mirrors q q' k s t' u' := by
  obtain ⟨store, shared, control, frames⟩ := t
  obtain rfl : frames = _ := hf
  cases f with
  | allocating al => cases h; exact ⟨_, rfl, .working hd rfl rfl rfl⟩
  | relying d => cases h; exact ⟨_, rfl, .working hd rfl rfl rfl⟩
  | releasing d dep rest => cases h; exact ⟨_, rfl, .working hd rfl rfl rfl⟩
  | stepping d =>
      cases v with
      | dependency dep =>
          cases h
          exact ⟨_, rfl, by cases left <;> cases dep <;> exact .working hd rfl rfl rfl⟩
      | _ => cases h
  | measuring w =>
      cases v with
      | response r =>
          cases h
          exact ⟨_, rfl, measured (t := ⟨store, shared, control, [.forResponse k s]⟩) rfl
            (Duty.owes.inj hd) _ r⟩
      | _ => cases h
  | forResponse k s => cases hd
  | forLayout k s => cases hd
  | forTable k s => cases hd
  | forRecord k s => cases hd
  | laying w => cases hd
  | filling j => cases hd
  | founding j => cases hd
  | reporting r rest policy => cases hd

/-- A call that was made for the work goes on. -/
theorem inside_step {above : List (Frame σ)} {f : Frame σ} (hd : f.duty = .owes q)
    (hf : t.frames = above ++ [f, .forResponse k s]) (hcalm : t.control.disturbed = false)
    (h : t.alone lib a = some t') :
    ∃ u', ({ t with frames := above ++ [f.recast q', .forResponse k s] }).alone lib a = some u'
      ∧ Mirrors q q' k s t' u' := by
  by_cases hback : above = [] ∧ ∃ v left, t.control = .give v left
  · obtain ⟨rfl, v, left, hc⟩ := hback
    rw [alone_give hc] at h
    obtain ⟨u', hu, hm⟩ := give q' hd hf h
    refine ⟨u', Eq.trans ?_ hu, hm⟩
    exact alone_give (t := { t with frames := [f.recast q', .forResponse k s] }) hc
  · let x : Turn σ := { t with frames := above }
    have hx : x.Covered := by
      by_cases habove : above = []
      · refine .inr ⟨fun v left hc => hback ⟨habove, v, left, hc⟩, fun e hc => ?_⟩
        rw [show t.control = .unwind e from hc] at hcalm
        cases hcalm
      · exact .inl habove
    have ht : t = x.under [f, .forResponse k s] := by
      show t = { t with frames := above ++ [f, .forResponse k s] }
      rw [← hf]
    rw [ht, alone_under _ hx] at h
    obtain ⟨x', hx', rfl⟩ := Option.map_eq_some_iff.mp h
    refine ⟨x'.under [f.recast q', .forResponse k s], ?_, .inside hd rfl rfl⟩
    show (x.under [f.recast q', .forResponse k s]).alone lib a = _
    rw [alone_under _ hx, hx']
    rfl

end Mirrors

end Turn

end TypeRecords
