/-
How a request is served.

A request names an entry, or nothing that is kept (`Store.sought?`). From the
step that makes it until it comes back, the thread that made it is at work on
that entry above the frame that waits for the answer, or reports a fault, or
hands the answer over (`Turn.Attends`). This holds whatever else the thread
does in between: callbacks, requests of their own, faults that are raised and
caught above the frame.

# The places where an answer is made

There are five: nothing is kept for what is asked, the entry is found as
requested, its record is finished at once, an initialization comes to its end,
and one is parked. In each of them the answer is the record of the entry in
the stage the entry is in at that moment (`Store.Exactly`). The stage comes
from the control of the thread in the last three, not from the entry; that the
two agree is what `Store.Owned` says about holds.

# Who asks

Programs ask, and so does a completion step: for the records of its fields or
elements, and for what stopped it. `Turn.Asks` lists them all.
-/
import TypeRecords.Proofs.Finishing.Concluding
import TypeRecords.Proofs.Ownership.Final
import TypeRecords.Proofs.Waiting.Progress

namespace TypeRecords

variable {σ : Type}

-- ====================================================== what is asked for

/-- The key that a call asks for the record of. -/
def Call.key? : Call → Option Key
  | .generic descriptor arguments => some ⟨.generic descriptor, arguments⟩
  | .tuple elements => if elements = [] then none else some ⟨.tuple, elements⟩
  | .check _ => none

namespace Store

/-- The entry that a call is about. Records that were there from the start
have none. -/
def sought? (s : Store) (registry : RegistryId) : Call → Option EntryId
  | .check record => s.entryOf? registry record
  | c => c.key?.bind (s.find? registry)

/-- The answer is the entry's record in the entry's stage, and the request is
over with that. -/
def Exactly (s : Store) (i : EntryId) (q : Request) (x : Response) : Prop :=
  ∃ e, s.entries[i]? = some e ∧ e.record = some x.record ∧ e.stage = x.stage
    ∧ q.settledBy x.stage = true

/-- The answer to a call that is about no entry: what needs no completion is
finished. -/
def Spared (s : Store) (registry : RegistryId) (c : Call) (x : Response) : Prop :=
  s.sought? registry c = none ∧ x.stage = .complete
    ∧ (c = .check x.record ∨ c = .tuple [] ∧ x.record = Records.emptyTuple)

/-- What a call may be answered with. -/
def Answers (s : Store) (registry : RegistryId) (q : Request) (c : Call) (x : Response) : Prop :=
  (∃ i, s.sought? registry c = some i ∧ s.Exactly i q x) ∨ s.Spared registry c x

variable {s s' : Store} {registry : RegistryId} {c : Call} {i : EntryId}

theorem sought?_of_key {key : Key} (h : c.key? = some key) :
    s.sought? registry c = s.find? registry key := by
  cases c with
  | check record => cases h
  | generic descriptor arguments
  | tuple elements => simp only [sought?, h, Option.bind_some]

/-- What a call is about stays what it is about. -/
theorem Extends.sought? (h : s.Extends s') (hs : s.sought? registry c = some i) :
    s'.sought? registry c = some i := by
  cases c with
  | check record => exact h.entryOf? hs
  | generic descriptor arguments => exact h.find? hs
  | tuple elements =>
      obtain ⟨key, hk, hf⟩ := Option.bind_eq_some_iff.mp hs
      rw [sought?_of_key hk]
      exact h.find? hf

theorem Alike.sought? (h : s.Alike s') : s'.sought? registry c = s.sought? registry c := by
  cases c with
  | check record => exact h.entryOf? registry record
  | generic descriptor arguments => exact h.find? registry _
  | tuple elements => exact congrArg (Option.bind _) (funext fun key => h.find? registry key)

/-- The entry that is made for a key is the one that is found for it. -/
theorem find?_added {key : Key} (hf : s.find? registry key = none)
    (hl : s'.labels = s.labels ++ [(registry, key)]) :
    s'.find? registry key = some s.entries.size := by
  have hlength : s.labels.length = s.entries.size := by
    unfold Store.labels
    rw [List.length_map, Array.length_toList]
  rw [find?_eq] at hf
  rw [find?_eq, hl, List.findIdx?_append, hf, ← hlength]
  simp

end Store

/-- Whoever looks at an entry is answered with its record and its stage. -/
theorem Entry.exact_of_look {e : Entry} {thread : ThreadId} {q : Request} {x : Response}
    (hs : e.Sound) (h : e.look thread q = .answer x) :
    e.record = some x.record ∧ e.stage = x.stage ∧ q.settledBy x.stage = true := by
  refine ⟨?_, (Turn.stage_of_look hs h).symm, Entry.settled_of_look h⟩
  unfold look at h
  split at h
  · rename_i found hfound
    cases h
    have hsnap := (Option.filter_eq_some_iff.mp hfound).1
    rw [hs.snapshot_eq] at hsnap
    obtain ⟨r, hr, rfl⟩ := Option.map_eq_some_iff.mp hsnap
    exact hr
  · split at h
    · cases h
    · rename_i r hr
      split at h
      · cases h
        exact hr
      · split at h <;> cases h

-- ====================================================== who asks

/-- The record of the field that comes next, unless it has to be computed. -/
def FieldWalk.next? (w : FieldWalk σ) (s : Store) : Option RecordId :=
  match w.todo with
  | [] => none
  | field :: _ =>
    match field.type with
    | .argument index => (s.records.argumentsOf w.record)[index]?
    | .fixed record => some record
    | .computed _ => none

/-- With its next step a thread makes a call, and waits for the answer in a
frame. -/
inductive Turn.Asks (t : Turn σ) : RegistryId → Request → Call → Frame σ → Prop
  | program {registry : RegistryId} {q : Request} {c : Call} {k : Response → Program σ Value}
      {s : Setting σ} (hc : t.control = .run (.request registry q c k) s) :
      Asks t registry q c (.forResponse k s)
  | field {w : FieldWalk σ} {record : RecordId} (hc : t.control = .lay w)
      (hr : w.next? t.store = some record) :
      Asks t w.registry (.poll .layoutComplete) (.check record) (.laying w)
  | element {w : ElementWalk} {record : RecordId} {rest : List RecordId}
      (hc : t.control = .measure w) (hw : w.todo = record :: rest) :
      Asks t w.drive.registry (.poll .layoutComplete) (.check record) (.measuring w)
  | dependency {d : Drive} {dep : Dependency} (hc : t.control = .stopped d dep)
      (hcy : t.store.cycle? d.registry d.record dep = none)
      (hw : d.request.waits = true ∧ ¬ d.request.satisfiedBy d.stage = true) :
      Asks t d.registry (.blocking dep.required) (.check dep.target) (.relying d)

-- ====================================================== at work

/-- The entry that a thread is at work on, and the request it works for. -/
def Control.serves? : Control σ → Option (EntryId × Request)
  | .await _ e q => some (e, q)
  | .allocated a => some (a.entry, a.request)
  | .begin d => some (d.entry, d.request)
  | .measure w => some (w.drive.entry, w.drive.request)
  | .publish d _ => some (d.entry, d.request)
  | .release d _ _ => some (d.entry, d.request)
  | .stopped d _ => some (d.entry, d.request)
  | .enqueue d _ => some (d.entry, d.request)
  | _ => none

def Frame.serves? : Frame σ → Option (EntryId × Request)
  | .allocating a => some (a.entry, a.request)
  | .stepping d => some (d.entry, d.request)
  | .measuring w => some (w.drive.entry, w.drive.request)
  | .relying d => some (d.entry, d.request)
  | .releasing d _ _ => some (d.entry, d.request)
  | _ => none

/-- Whether a frame is where a fault is shown to hooks. -/
def Frame.reports : Frame σ → Bool
  | .reporting .. => true
  | _ => false

theorem Frame.setting?_of_serves {f : Frame σ} {x : EntryId × Request}
    (h : f.serves? = some x) : f.setting? = none := by
  cases f <;> first | rfl | cases h

theorem Frame.setting?_of_reports {f : Frame σ} (h : f.reports = true) : f.setting? = none := by
  cases f <;> first | rfl | cases h

/-- Whether nothing will be handed over from here. -/
def Control.fails : Control σ → Bool
  | .unwind _ => true
  | .report .. => true
  | .ended => true
  | _ => false

/-- Whether a frame waits for an answer. -/
def Frame.awaits : Frame σ → Bool
  | .forResponse .. => true
  | .laying _ => true
  | .measuring _ => true
  | .relying _ => true
  | _ => false

theorem Turn.Asks.awaits {t : Turn σ} {registry : RegistryId} {q : Request} {c : Call}
    {f : Frame σ} (h : t.Asks registry q c f) : f.awaits = true := by
  cases h <;> rfl

/-- The thread is about to park its initialization. -/
def Control.leaves : Control σ → Bool
  | .enqueue .. => true
  | _ => false

/-- A request `q` for a `sought` entry, whose answer is awaited in the first
frame of `base`, is being served, or has failed, or `good` tells of the answer
that is handed over. -/
inductive Turn.Attends (sought : EntryId → Prop) (q : Request) (base : List (Frame σ))
    (good : Response → Prop) (t : Turn σ) : Prop
  | above {gs : List (Frame σ)} {g : Frame σ} (hf : t.frames = gs ++ g :: base)
      (hg : g.reports = true ∨ ∃ i, sought i ∧ g.serves? = some (i, q))
  /-- What parks its initialization has settled the request. -/
  | working {i : EntryId} (hf : t.frames = base) (hi : sought i)
      (hc : t.control.serves? = some (i, q))
      (hleave : ∀ d dep, t.control = .enqueue d dep → q.settledBy d.stage = true)
  | failing (hf : t.frames = base) (hc : t.control.fails = true)
  | answered {x : Response} {left : Local} (hf : t.frames = base)
      (hc : t.control = .give (.response x) left) (hx : good x)

namespace Turn

variable {lib : Library σ} {a : Actor} {t t' : Turn σ} {sought sought' : EntryId → Prop}
  {q : Request} {base : List (Frame σ)} {good good' : Response → Prop} {others : List Hold}

namespace Attends

/-- What is being served depends on the control and the frames alone. -/
theorem mono (h : t.Attends sought q base good) (hc : t'.control = t.control)
    (hf : t'.frames = t.frames) (hs : ∀ i, sought i → sought' i) (hg : ∀ x, good x → good' x) :
    t'.Attends sought' q base good' := by
  cases h with
  | above hf' hg' =>
      exact .above (hf.trans hf') (hg'.imp_right fun ⟨i, hi, hserves⟩ => ⟨i, hs i hi, hserves⟩)
  | working hf' hi hserves hleave =>
      exact .working (hf.trans hf') (hs _ hi) (hc ▸ hserves) (hc ▸ hleave)
  | failing hf' hfails => exact .failing (hf.trans hf') (hc ▸ hfails)
  | answered hf' hgive hx => exact .answered (hf.trans hf') (hc.trans hgive) (hg _ hx)

/-- The work goes on. -/
theorem onward {i : EntryId} (hi : sought i) (hf : t.frames = base)
    (hc : t.control.serves? = some (i, q)) (hno : t.control.leaves = false) :
    t.Attends sought q base good :=
  .working hf hi hc fun d dep henq => by rw [henq] at hno; cases hno

/-- The work waits for something above. -/
theorem pushed {i : EntryId} {g : Frame σ} (hi : sought i) (hf : t.frames = g :: base)
    (hg : g.serves? = some (i, q)) : t.Attends sought q base good :=
  .above (show t.frames = [] ++ g :: base from hf) (.inr ⟨i, hi, hg⟩)

end Attends

-- ====================================================== the answers

/-- Unless its step finishes an allocation, publishes or suspends something, a
thread leaves records and stages as they are. -/
theorem exactly_kept (h : t.step lib a = some t') (ho : t.store.Owned (t.holds a.id ++ others))
    (hallocated : ∀ al, t.control ≠ .allocated al) (hpublish : ∀ d o, t.control ≠ .publish d o)
    (hstopped : ∀ d dep, t.control ≠ .stopped d dep) {i : EntryId} {x : Response}
    (hx : t.store.Exactly i q x) : t'.store.Exactly i q x := by
  obtain ⟨e, he, hr, hs, hq⟩ := hx
  have hshift := step_shift h
  obtain ⟨e', he', -, -⟩ := hshift.grows.labels_getElem? he
  rcases hshift.alters ho he' with ⟨x, hx, halters⟩ | ⟨-, -, -, -, -, -, -, hnew, -⟩
  · obtain rfl := Option.some.inj (he.symm.trans hx)
    cases halters with
    | kept hr' hs' hb hsaved => exact ⟨e', he', hr'.trans hr, hs'.trans hs, hq⟩
    | allocated hc hi hr' => exact (hallocated _ hc).elim
    | published hc hi => exact (hpublish _ _ hc).elim
    | suspended hc hi hcy => exact (hstopped _ _ hc).elim
  · have hlt := (Array.getElem?_eq_some_iff.mp he).1
    rw [hnew] at hlt
    exact (Nat.lt_irrefl _ hlt).elim

/-- What a thread holds is there, and looks the way the thread believes. -/
theorem fits_of_control {c : Control σ} (hc : t.control = c)
    (ho : t.store.Owned (t.holds a.id ++ others)) {hold : Hold} (hm : hold ∈ c.holds a.id) :
    hold.Fits t.store :=
  ho.fits (List.mem_append_left _ (mem_holds_of_control hc hm))

/-- A record that is finished at once is handed out complete. -/
theorem allocated_attends {al : Allocation} (hc : t.control = .allocated al)
    (ho : t.store.Owned (t.holds a.id ++ others)) (hi : sought al.entry)
    (h : Allocated lib t a al t') :
    t'.Attends sought al.request t.frames
      fun x => ∃ i, sought i ∧ t'.store.Exactly i al.request x := by
  obtain ⟨e, he, -⟩ := fits_of_control hc ho (List.mem_cons_self (l := []))
  have he' : t'.store.entries[al.entry]?
      = some (e.finishAllocation a.id al.record (firstStage lib t.store al.record).2) := by
    rw [(allocated_entries h).1, Array.getElem?_modify, if_pos rfl]
    exact congrArg (Option.map _) he
  cases h with
  | finish hdone =>
      exact .answered rfl rfl ⟨al.entry, hi, _, he', rfl, hdone, al.request.settledBy_complete⟩
  | begin => exact .onward hi rfl rfl rfl

theorem begin_attends {d : Drive} (hi : sought d.entry) (h : Begun lib t d t') :
    t'.Attends sought d.request t.frames good := by
  cases h with
  | measure | close => exact .onward hi rfl rfl rfl
  | layout => exact .pushed (g := .stepping d) hi (startLayout_frames ..) rfl
  | callback => exact .pushed (g := .stepping d) hi rfl rfl

theorem measure_attends {w : ElementWalk} (hi : sought w.drive.entry)
    (h : ElementMeasured t w t') : t'.Attends sought w.drive.request t.frames good := by
  cases h with
  | done => exact .onward hi rfl rfl rfl
  | consult => exact .pushed (g := .measuring w) hi (consult_frames ..) rfl

/-- An initialization that has come to its end hands out the stage it has
published last, which is the stage of the entry. -/
theorem release_attends {d : Drive} {dep : Option Dependency} {ready : List Waiter}
    (hc : t.control = .release d dep ready) (ho : t.store.Owned (t.holds a.id ++ others))
    (hi : sought d.entry) (h : Released t a d dep ready t') :
    t'.Attends sought d.request t.frames
      fun x => ∃ i, sought i ∧ t.store.Exactly i d.request x := by
  cases h with
  | @resume _ rest | @forget _ rest => exact .pushed (g := .releasing d dep rest) hi rfl rfl
  | stop | again => exact .onward hi rfl rfl rfl
  | finish hdep hdone =>
      obtain ⟨e, he, hdriven, -⟩ := fits_of_control hc ho List.mem_cons_self
      refine .answered rfl rfl ⟨d.entry, hi, e, he, hdriven.record, hdriven.stage, ?_⟩
      show d.request.settledBy d.stage = true
      rw [hdone]
      exact d.request.settledBy_complete

/-- An initialization is given up for now only for a request that has been
settled. -/
theorem stopped_attends {d : Drive} {dep : Dependency} (hi : sought d.entry)
    (h : Stopped t a d dep t') : t'.Attends sought d.request t.frames good := by
  cases h with
  | cycle => exact .failing rfl rfl
  | rely => exact .pushed (g := .relying d) hi (consult_frames ..) rfl
  | suspend hopen hparks =>
      refine .working rfl hi rfl fun d' dep' henq => ?_
      cases henq
      exact d.request.settledBy_of fun hwaits => by
        by_contra hno
        exact hparks ⟨hwaits, hno⟩

/-- What has been given up for now is handed out in the stage it has. -/
theorem enqueue_attends {d : Drive} {dep : Dependency} (hc : t.control = .enqueue d dep)
    (ho : t.store.Owned (t.holds a.id ++ others)) (hi : sought d.entry)
    (hsettled : d.request.settledBy d.stage = true) (h : Enqueued t a d dep t') :
    t'.Attends sought d.request t.frames
      fun x => ∃ i, sought i ∧ t.store.Exactly i d.request x := by
  obtain ⟨e, he, hleft⟩ := fits_of_control hc ho List.mem_cons_self
  have hanswer : ∃ i, sought i ∧ t.store.Exactly i d.request ⟨d.record, d.stage⟩ :=
    ⟨d.entry, hi, e, he, hleft.record, hleft.stage, hsettled⟩
  cases h with
  | park | strand => exact .answered rfl rfl hanswer
  | reclaim => exact .onward hi rfl rfl rfl

/-- An entry that is as requested is handed out in the stage it has. -/
theorem await_attends {registry : RegistryId} {i : EntryId}
    (ho : t.store.Owned (t.holds a.id ++ others)) (hi : sought i)
    (h : Waited t a registry i q t') :
    t'.Attends sought q t.frames fun x => ∃ i, sought i ∧ t.store.Exactly i q x := by
  cases h with
  | @answer e _ he hlook =>
      exact .answered rfl rfl ⟨i, hi, e, he, Entry.exact_of_look (ho.sound he) hlook⟩
  | reentrant => exact .failing rfl rfl

-- ====================================================== one step

/-- A step of the work on an entry is more of it, the answer, or a fault. -/
theorem working_step (h : t.step lib a = some t') (ho : t.store.Owned (t.holds a.id ++ others))
    {i : EntryId} (hi : sought i) (hc : t.control.serves? = some (i, q))
    (hleave : ∀ d dep, t.control = .enqueue d dep → q.settledBy d.stage = true) :
    t'.Attends sought q t.frames fun x => ∃ i, sought i ∧ t'.store.Exactly i q x := by
  -- where no entry is changed the answer is still right after the step
  have hkept : (∀ al, t.control ≠ .allocated al) → (∀ d o, t.control ≠ .publish d o) →
      (∀ d dep, t.control ≠ .stopped d dep) →
      t'.Attends sought q t.frames (fun x => ∃ i, sought i ∧ t.store.Exactly i q x) →
      t'.Attends sought q t.frames fun x => ∃ i, sought i ∧ t'.store.Exactly i q x :=
    fun hno hno' hno'' hat => hat.mono rfl rfl (fun _ h => h)
      fun x ⟨i, hi, hx⟩ => ⟨i, hi, exactly_kept h ho hno hno' hno'' hx⟩
  cases step_cases h with
  | await hcontrol hstep =>
      rw [hcontrol] at hc
      cases hc
      exact hkept (by simp [hcontrol]) (by simp [hcontrol]) (by simp [hcontrol])
        (await_attends ho hi hstep)
  | allocated hcontrol hstep =>
      rw [hcontrol] at hc
      cases hc
      exact allocated_attends hcontrol ho hi hstep
  | begin hcontrol hstep => rw [hcontrol] at hc; cases hc; exact begin_attends hi hstep
  | measure hcontrol hstep => rw [hcontrol] at hc; cases hc; exact measure_attends hi hstep
  | publish hcontrol hstep =>
      rw [hcontrol] at hc
      cases hc
      cases hstep
      exact .onward hi rfl rfl rfl
  | release hcontrol hstep =>
      rw [hcontrol] at hc
      cases hc
      exact hkept (by simp [hcontrol]) (by simp [hcontrol]) (by simp [hcontrol])
        (release_attends hcontrol ho hi hstep)
  | stopped hcontrol hstep => rw [hcontrol] at hc; cases hc; exact stopped_attends hi hstep
  | enqueue hcontrol hstep =>
      have hsettled := hleave _ _ hcontrol
      rw [hcontrol] at hc
      cases hc
      exact hkept (by simp [hcontrol]) (by simp [hcontrol]) (by simp [hcontrol])
        (enqueue_attends hcontrol ho hi hsettled hstep)
  | run hcontrol | give hcontrol | unwind hcontrol | lay hcontrol | acquire hcontrol
  | standBy hcontrol | report hcontrol => rw [hcontrol] at hc; cases hc

/-- What waits in the frame that is handed something goes on with its work. -/
theorem give_serves {g : Frame σ} {v : Value} {left : Local} {i : EntryId}
    (hf : t.frames = g :: base) (hg : g.serves? = some (i, q)) (h : Given lib t a v left t') :
    t'.frames = base ∧ t'.control.serves? = some (i, q) ∧ t'.control.leaves = false := by
  cases h with
  | allocated hf' | relied hf' | released hf' =>
      cases hf.symm.trans hf'
      exact ⟨rfl, hg, rfl⟩
  | @stepped d rest dep left hf' =>
      cases hf.symm.trans hf'
      obtain ⟨words, o, hst, -⟩ := stepped_spec { t with frames := base } d dep left
      rw [hst]
      exact ⟨rfl, hg, rfl⟩
  | measured hf' =>
      cases hf.symm.trans hf'
      unfold measured
      split
      · split <;> exact ⟨rfl, hg, rfl⟩
      · exact ⟨rfl, hg, rfl⟩
  | ended hf' => cases hf.symm.trans hf'
  | response hf' | layout hf' | table hf' | record hf' | laid hf' | filled hf' | founded hf'
  | reported hf' =>
      cases hf.symm.trans hf'
      cases hg

/-- The fault goes on to the next hook. -/
theorem give_reports {g : Frame σ} {v : Value} {left : Local} (hf : t.frames = g :: base)
    (hg : g.reports = true) (h : Given lib t a v left t') :
    t'.frames = base ∧ t'.control.fails = true := by
  cases h with
  | reported hf' =>
      cases hf.symm.trans hf'
      exact ⟨rfl, rfl⟩
  | ended hf' => cases hf.symm.trans hf'
  | response hf' | layout hf' | table hf' | record hf' | allocated hf' | stepped hf' | laid hf'
  | measured hf' | relied hf' | released hf' | filled hf' | founded hf' =>
      cases hf.symm.trans hf'
      cases hg

/-- A fault is caught by programs only. -/
theorem unwind_fails {g : Frame σ} {e : Failure} (hf : t.frames = g :: base)
    (hg : g.setting? = none) (h : Unwound t e t') : t'.control.fails = true := by
  cases h with
  | handle hf' hs =>
      cases hf.symm.trans hf'
      cases hg.symm.trans hs
  | ended | abandon | drop => rfl

/-- What waited above the request has its turn again, or is dropped. -/
theorem attends_of_drop {g : Frame σ} (h : t.step lib a = some t') (hf : t.frames = g :: base)
    (hg : g.reports = true ∨ ∃ i, sought i ∧ g.serves? = some (i, q))
    (hc : (∃ v left, t.control = .give v left) ∨ ∃ e, t.control = .unwind e) :
    t'.Attends sought q base good := by
  rcases hc with ⟨v, left, hc⟩ | ⟨e, hc⟩
  · rcases hg with hg | ⟨i, hi, hg⟩
    · obtain ⟨hf', hfails⟩ := give_reports hf hg (step_give hc h)
      exact .failing hf' hfails
    · obtain ⟨hf', hserves, hleaves⟩ := give_serves hf hg (step_give hc h)
      exact .onward hi hf' hserves hleaves
  · have hset : g.setting? = none :=
      hg.elim Frame.setting?_of_reports fun ⟨_, _, hg⟩ => Frame.setting?_of_serves hg
    exact .failing (unwind_frames hf (step_unwind hc h)) (unwind_fails hf hset (step_unwind hc h))

/-- What fails is shown to the next hook, or the thread unwinds or is over. -/
theorem failing_step {f : Frame σ} {below : List (Frame σ)} (h : t.step lib a = some t')
    (hf : t.frames = f :: below) (hc : t.control.fails = true)
    (hback : below.length < t'.frames.length) :
    t'.Attends sought q (f :: below) good := by
  cases step_cases h with
  | unwind hcontrol hstep =>
      -- the frame itself is dropped
      rw [unwind_frames hf hstep] at hback
      exact (Nat.lt_irrefl _ hback).elim
  | @report r _ policy _ hcontrol hstep =>
      cases hstep with
      | @hook _ rest =>
          have hframes : .reporting r rest policy :: t.frames
              = [] ++ .reporting r rest policy :: (f :: below) := congrArg (_ :: ·) hf
          exact .above hframes (.inl rfl)
      | abort | unwind => exact .failing hf rfl
  | run hcontrol | give hcontrol | await hcontrol | allocated hcontrol | begin hcontrol
  | lay hcontrol | measure hcontrol | publish hcontrol | release hcontrol | stopped hcontrol
  | enqueue hcontrol | acquire hcontrol | standBy hcontrol => rw [hcontrol] at hc; cases hc

/-- Until a request has come back it stays attended to. -/
theorem Attends.step {f : Frame σ} {below : List (Frame σ)}
    (hat : t.Attends sought q (f :: below) good) (h : t.step lib a = some t')
    (ho : t.store.Owned (t.holds a.id ++ others)) (ha : f.awaits = true)
    (hback : below.length < t'.frames.length) :
    t'.Attends sought q (f :: below) fun x => ∃ i, sought i ∧ t'.store.Exactly i q x := by
  cases hat with
  | @above gs g hf hg =>
      cases step_stacks h with
      | same hf' => exact .above (hf'.trans hf) hg
      | opened fs hf' hfs htail =>
          have hframes : t'.frames = (fs ++ gs) ++ g :: f :: below := by
            rw [hf', hf, List.append_assoc]
          exact .above hframes hg
      | @drop top hf' hc =>
          rw [hf] at hf'
          cases gs with
          | nil => exact attends_of_drop h hf hg hc
          | cons g' gs => exact .above (List.cons.inj hf').2.symm hg
  | working hf hi hc hleave =>
      rw [← hf]
      exact working_step h ho hi hc hleave
  | failing hf hc => exact failing_step h hf hc hback
  | answered hf hc hx =>
      have hno : ∀ j, f ≠ .filling j := fun j hj => by
        rw [hj] at ha
        cases ha
      rw [frame_dropped hf hno (.inl ⟨_, _, hc⟩) h] at hback
      exact (Nat.lt_irrefl _ hback).elim

-- ====================================================== the first step

theorem consult_store (t : Turn σ) (registry : RegistryId) (q : Request) (record : RecordId) :
    (t.consult registry q record).store = t.store := by
  unfold consult
  split <;> rfl

/-- A record is looked up, and is kept, or needs no completion. -/
theorem consult_attends {registry : RegistryId} {record : RecordId} :
    (t.consult registry q record).Attends (t.store.sought? registry (.check record) = some ·) q
      t.frames (t.store.Answers registry q (.check record)) := by
  rcases consult_cases t registry q record with ⟨e, he, hu⟩ | hu
  · rw [hu]
    exact .onward he rfl rfl rfl
  · rw [hu]
    refine .answered rfl rfl (.inr ⟨?_, rfl, .inl rfl⟩)
    show t.store.entryOf? registry record = none
    unfold consult at hu
    split at hu
    · rename_i e he
      cases congrArg Turn.control hu
    · assumption

/-- An entry is made, and is the one that is sought from now on. -/
theorem create_sought {registry : RegistryId} {c : Call} {key : Key} {record : Record}
    (hkey : c.key? = some key) (hr : record.key? = some key)
    (hf : t.store.find? registry key = none) :
    (t.create registry q key record).1.store.sought? registry c
      = some (t.create registry q key record).2.entry := by
  obtain ⟨he, -, hal⟩ := create_spec t registry q key record hr
  rw [Store.sought?_of_key hkey, hal]
  refine Store.find?_added hf ?_
  unfold Store.labels
  rw [he, Array.toList_push, List.map_append]
  rfl

theorem hit_attends {registry : RegistryId} {c : Call} {key : Key} {i : EntryId}
    (hkey : c.key? = some key) (hf : t.store.find? registry key = some i) :
    (t.hit registry i q).Attends ((t.hit registry i q).store.sought? registry c = some ·) q
      t.frames good := by
  refine .onward ?_ rfl rfl rfl
  rw [(hit_keeps 0 t registry i q).alike.sought?, Store.sought?_of_key hkey]
  exact hf

/-- A call that makes a record asks for it by its key. -/
theorem key?_of_makes {c : Call} {key : Key} {record : Record} (h : c.Makes lib key record) :
    c.key? = some key := by
  cases h with
  | generic => rfl
  | tuple hne => exact if_neg hne

theorem request_attends {registry : RegistryId} {c : Call} (h : Requested lib t a registry q c t') :
    t'.Attends (t'.store.sought? registry c = some ·) q t.frames
      (t'.store.Answers registry q c) := by
  cases h with
  | check =>
      rw [consult_store]
      exact consult_attends
  | empty => exact .answered rfl rfl (.inr ⟨rfl, rfl, .inr ⟨rfl, rfl⟩⟩)
  | miscount => exact .failing rfl rfl
  | hit hmakes hfound => exact hit_attends (key?_of_makes hmakes) hfound
  | create hmakes hnone =>
      exact .onward (create_sought (key?_of_makes hmakes) hmakes.record_key? hnone) rfl rfl rfl
  | instantiate hd hi hmakes hnone =>
      exact .pushed (g := .allocating _)
        (create_sought (key?_of_makes hmakes) hmakes.record_key? hnone) rfl rfl

/-- Whoever makes a check, the step looks the record up. -/
theorem Asks.consults {registry : RegistryId} {x : RecordId} {f : Frame σ}
    (hask : t.Asks registry q (.check x) f) (h : t.step lib a = some t') :
    ∃ u : Turn σ, t' = u.consult registry q x ∧ u.frames = f :: t.frames
      ∧ u.store.entries = t.store.entries
      ∧ u.store.entryOf? registry x = t.store.entryOf? registry x := by
  cases hask with
  | program hc =>
      cases step_request hc h with
      | check => exact ⟨{ t with frames := _ }, rfl, rfl, rfl, rfl⟩
      | hit hmakes | create hmakes => cases hmakes
  | element hc hw =>
      cases step_measure hc h with
      | done htodo => cases hw.symm.trans htodo
      | consult htodo =>
          cases hw.symm.trans htodo
          exact ⟨{ t with frames := _ }, rfl, rfl, rfl, rfl⟩
  | dependency hc hcy hw =>
      cases step_stopped hc h with
      | cycle hcycle => cases hcy.symm.trans hcycle
      | rely => exact ⟨{ t with store := _, frames := _ }, rfl, rfl, rfl, rfl⟩
      | suspend hopen hparks => exact (hparks hw).elim
  | field hc hr =>
      unfold FieldWalk.next? at hr
      cases step_lay hc h with
      | done htodo => rw [htodo] at hr; cases hr
      | compute htodo htype => rw [htodo] at hr; simp only [htype] at hr; cases hr
      | lack htodo htype hnone =>
          rw [htodo] at hr
          simp only [htype] at hr
          cases hnone.symm.trans hr
      | consult htodo hrecord =>
          rw [htodo] at hr
          rcases hrecord with htype | ⟨index, htype, hindex⟩
          · simp only [htype] at hr
            cases hr
            exact ⟨{ t with frames := _ }, rfl, rfl, rfl, rfl⟩
          · simp only [htype] at hr
            cases hindex.symm.trans hr
            exact ⟨{ t with frames := _ }, rfl, rfl, rfl, rfl⟩

/-- The step that makes a call leaves it attended to. -/
theorem Asks.attends {registry : RegistryId} {c : Call} {f : Frame σ}
    (hask : t.Asks registry q c f) (h : t.step lib a = some t') :
    t'.Attends (t'.store.sought? registry c = some ·) q (f :: t.frames)
      (t'.store.Answers registry q c) := by
  cases c with
  | check x =>
      obtain ⟨u, rfl, hframes, -, -⟩ := hask.consults h
      rw [consult_store, ← hframes]
      exact consult_attends
  | generic | tuple =>
      cases hask with
      | program hc => exact request_attends (step_request hc h)

end Turn

end TypeRecords
