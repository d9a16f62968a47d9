/-
Who opens which frame.

A step leaves the stack as it is, takes the topmost frame off, or puts frames
on it, and what it puts there is decided by the control alone
(`Turn.step_stacks`). The other modules about stacks ask what kind of thing a
step begins (`Waiting/Nesting.lean`) or what may come out of a frame
(`Process/Handing.lean`), and only of threads that do not unwind; here nothing
is left out, so that it can be said of every run where a frame comes from.
-/
import TypeRecords.Proofs.Ownership.Step
import TypeRecords.Proofs.Process.Run

namespace TypeRecords

variable {σ : Type}

/-- Whether a program waits in the frame. -/
def Frame.isCall : Frame σ → Bool
  | .forResponse .. => true
  | .forLayout .. => true
  | .forTable .. => true
  | .forRecord .. => true
  | _ => false

namespace Turn

/-- The next step may put the frame on the stack. -/
inductive Opens (t : Turn σ) : Frame σ → Prop
  | call {p : Program σ Value} {s : Setting σ} {f : Frame σ} (hc : t.control = .run p s)
      (hf : f.isCall = true) : Opens t f
  | allocating {p : Program σ Value} {s : Setting σ} (al : Allocation)
      (hc : t.control = .run p s) : Opens t (.allocating al)
  | founding {p : Program σ Value} {s : Setting σ} (j : NameJob) (hc : t.control = .run p s) :
      Opens t (.founding j)
  /-- A record that is finished for itself is not given to its completion. -/
  | stepping {d : Drive} (hc : t.control = .begin d) (hd : d.stage < .nonTransitive) :
      Opens t (.stepping d)
  | laying {w : FieldWalk σ} (hc : t.control = .lay w) : Opens t (.laying w)
  | measuring {w : ElementWalk} (hc : t.control = .measure w) : Opens t (.measuring w)
  | releasing {d : Drive} {dep : Option Dependency} {w : Waiter} {rest : List Waiter}
      (hc : t.control = .release d dep (w :: rest)) : Opens t (.releasing d dep rest)
  /-- Nobody waits for what stopped it before its chain was found not to
  close. -/
  | relying {d : Drive} {dep : Dependency} (hc : t.control = .stopped d dep)
      (hcy : t.store.cycle? d.registry d.record dep = none) : Opens t (.relying d)
  | filling {j : TableJob} {arguments : List TableId} (hc : t.control = .acquire j arguments) :
      Opens t (.filling j)
  | reporting {r : Report} {hook : HookId} {rest : List HookId} {policy : FaultPolicy}
      (hc : t.control = .report r (hook :: rest) policy) : Opens t (.reporting r rest policy)

/-- What a step does to the stack. -/
inductive Stacks (t t' : Turn σ) : Prop
  | same (hf : t'.frames = t.frames)
  /-- The topmost frame is taken off. -/
  | drop {f : Frame σ} (hf : t.frames = f :: t'.frames)
      (hc : (∃ v left, t.control = .give v left) ∨ ∃ e, t.control = .unwind e)
  /-- Frames are put on it; below the topmost of them programs wait. -/
  | opened (fs : List (Frame σ)) (hf : t'.frames = fs ++ t.frames) (hfs : ∀ f ∈ fs, t.Opens f)
    (htail : ∀ f ∈ fs.tail, f.isCall = true)

variable {lib : Library σ} {a : Actor} {t t' : Turn σ}

/-- A single frame that the control opens may be put on the stack. -/
theorem Stacks.push {f : Frame σ} (hf : t'.frames = f :: t.frames) (ho : t.Opens f) :
    Stacks t t' :=
  .opened [f] hf
    (fun g hg => by
      rw [List.mem_singleton.mp hg]
      exact ho)
    fun g hg => by cases hg

-- ====================================================== programs

/-- A call to a registry puts its continuation on the stack, and the allocation on top of it
if an instantiation is run. -/
theorem request_stacks {registry : RegistryId} {q : Request} {c : Call}
    {k : Response → Program σ Value} {s : Setting σ}
    (hc : t.control = .run (.request registry q c k) s)
    (h : Requested lib { t with frames := .forResponse k s :: t.frames } a registry q c t') :
    Stacks t t' := by
  have hpush : ∀ {u : Turn σ}, u.frames = .forResponse k s :: t.frames → Stacks t u :=
    fun hf => .push hf (.call hc rfl)
  cases h with
  | check => exact hpush (consult_frames ..)
  | instantiate =>
      refine .opened [.allocating _, .forResponse k s] rfl (fun f hf => ?_) fun f hf => ?_
      · rcases List.mem_cons.mp hf with rfl | hf
        · exact .allocating _ hc
        · rw [List.mem_singleton.mp hf]
          exact .call hc rfl
      · rw [List.mem_singleton.mp hf]
        rfl
  | _ => exact hpush rfl

/-- Only the founding of a name needs a frame of its own. -/
theorem requestName_stacks {registry : RegistryId} {candidate : CandidateId}
    (h : NameRequested lib t registry candidate t') :
    t'.frames = t.frames ∨ ∃ j, t'.frames = .founding j :: t.frames := by
  cases h with
  | known => exact .inl rfl
  | ask => exact .inl (askName_frames ..)
  | register => exact .inl rfl
  | found => exact .inr ⟨_, rfl⟩

/-- A request for a witness table needs no frame before its attempt. -/
theorem requestTable_frames {registry : RegistryId} {conformance : ConformanceId}
    {conforming : RecordId} {arguments : List TableId}
    (h : TableRequested lib t registry conformance conforming arguments t') :
    t'.frames = t.frames := by
  cases h <;> rfl

/-- A program puts the frame of its continuation on the stack for whatever it calls. -/
theorem run_stacks {p : Program σ Value} {s : Setting σ} (hc : t.control = .run p s)
    (h : Ran lib t a s p t') : Stacks t t' := by
  cases h with
  | request h => exact request_stacks hc h
  | fail => exact .same (handle_frames ..)
  | refuse => exact .same (handle_frames ..)
  | @structLayout _ _ _ k => exact .push (f := .forLayout k s) (startLayout_frames ..) (.call hc rfl)
  | table h => exact .push (requestTable_frames h) (.call hc rfl)
  | @canonical _ _ k _ h =>
      rcases requestName_stacks h with hf | ⟨j, hf⟩
      · exact .push hf (.call hc rfl)
      · refine .opened [.founding j, .forRecord k s] hf (fun f hm => ?_) fun f hm => ?_
        · rcases List.mem_cons.mp hm with rfl | hm
          · exact .founding j hc
          · rw [List.mem_singleton.mp hm]
            exact .call hc rfl
        · rw [List.mem_singleton.mp hm]
          rfl
  | raise => exact .push (f := .forResponse (fun _ => .done .unit) s) rfl (.call hc rfl)
  | _ => exact .same rfl

-- ====================================================== the other controls

/-- The end of a completion step opens no frame. -/
theorem stepped_frames (t : Turn σ) (d : Drive) (dep : Option Dependency) (left : Local) :
    (t.stepped d dep left).frames = t.frames := by
  obtain ⟨words, o, hst, -⟩ := stepped_spec t d dep left
  rw [hst]
  rfl

/-- An answer for a field opens no frame. -/
theorem laid_frames (t : Turn σ) (w : FieldWalk σ) (r : Response) :
    (t.laid w r).frames = t.frames := by
  unfold laid
  split <;> rfl

/-- An answer for an element opens no frame. -/
theorem measured_frames (t : Turn σ) (w : ElementWalk) (r : Response) :
    (t.measured w r).frames = t.frames := by
  unfold measured
  split
  · split <;> rfl
  · rfl

/-- What is handed over takes the topmost frame off; an attempt whose draft is at fault
keeps its own until the report is over. -/
theorem give_stacks {v : Value} {left : Local} (hc : t.control = .give v left)
    (h : Given lib t a v left t') : Stacks t t' := by
  have hdrop : ∀ {frame : Frame σ} {rest : List (Frame σ)}, t.frames = frame :: rest →
      t'.frames = rest → Stacks t t' := fun hf hf' => .drop (hf' ▸ hf) (.inl ⟨v, left, hc⟩)
  cases h with
  | ended => exact .same rfl
  | stepped hf => exact hdrop hf (stepped_frames ..)
  | laid hf => exact hdrop hf (laid_frames ..)
  | measured hf => exact hdrop hf (measured_frames ..)
  | filled hf h =>
      cases h with
      -- the attempt is still there when the fault is reported
      | lack => exact .same hf.symm
      | table => exact hdrop hf rfl
  | founded hf => exact hdrop hf rfl
  | response hf
  | layout hf
  | table hf
  | record hf
  | allocated hf
  | relied hf
  | released hf
  | reported hf => exact hdrop hf rfl

/-- Unwinding takes the topmost frame off, if there is one. -/
theorem unwind_stacks {e : Failure} (hc : t.control = .unwind e) (h : Unwound t e t') :
    Stacks t t' := by
  have hdrop : ∀ {frame : Frame σ} {rest : List (Frame σ)}, t.frames = frame :: rest →
      t'.frames = rest → Stacks t t' := fun hf hf' => .drop (hf' ▸ hf) (.inr ⟨e, hc⟩)
  cases h with
  | ended => exact .same rfl
  | handle hf => exact hdrop hf (handle_frames ..)
  | abandon hf => exact hdrop hf rfl
  | drop hf => exact hdrop hf rfl

/-- A completion step that runs something opens the frame of its initialization. -/
theorem begin_stacks {d : Drive} (hc : t.control = .begin d) (h : Begun lib t d t') :
    Stacks t t' := by
  cases h with
  | measure => exact .same rfl
  | close => exact .same rfl
  | layout _ _ hstage => exact .push (startLayout_frames ..) (.stepping hc hstage)
  | callback _ _ hstage => exact .push rfl (.stepping hc hstage)

/-- A walk opens its own frame for the field it asks for. -/
theorem lay_stacks {w : FieldWalk σ} (hc : t.control = .lay w) (h : FieldLaid t a w t') :
    Stacks t t' := by
  cases h with
  | done => exact .same rfl
  | consult => exact .push (consult_frames ..) (.laying hc)
  | compute => exact .push rfl (.laying hc)
  | lack => exact .same rfl

/-- Each waiter is resumed on top of the frame that has those after it. -/
theorem release_stacks {d : Drive} {dep : Option Dependency} {ready : List Waiter}
    (hc : t.control = .release d dep ready) (h : Released t a d dep ready t') : Stacks t t' := by
  cases h with
  | resume => exact .push rfl (.releasing hc)
  | forget => exact .push rfl (.releasing hc)
  | stop => exact .same rfl
  | finish => exact .same rfl
  | again => exact .same rfl

/-- What relies on a dependency opens a frame, and only if no cycle was found. -/
theorem stopped_stacks {d : Drive} {dep : Dependency} (hc : t.control = .stopped d dep)
    (h : Stopped t a d dep t') : Stacks t t' := by
  cases h with
  | cycle => exact .same rfl
  | rely hopen => exact .push (consult_frames ..) (.relying hc hopen)
  | suspend => exact .same rfl

/-- Who fills a cell opens the frame of the attempt. -/
theorem acquire_stacks {j : TableJob} {arguments : List TableId}
    (hc : t.control = .acquire j arguments) (h : Acquired lib t a j arguments t') :
    Stacks t t' := by
  cases h with
  | full => exact .same rfl
  | instantiate => exact .push rfl (.filling hc)
  | copy => exact .push rfl (.filling hc)

/-- Each hook runs on top of the frame that has those after it. -/
theorem report_stacks {r : Report} {hooks : List HookId} {policy : FaultPolicy}
    (hc : t.control = .report r hooks policy) (h : Reported lib t r hooks policy t') :
    Stacks t t' := by
  cases h with
  | hook => exact .push rfl (.reporting hc)
  | abort => exact .same rfl
  | unwind => exact .same rfl

/-- Every step does one of these things to the stack. -/
theorem step_stacks (h : t.step lib a = some t') : Stacks t t' := by
  cases step_cases h with
  | run hc h => exact run_stacks hc h
  | give hc h => exact give_stacks hc h
  | unwind hc h => exact unwind_stacks hc h
  | await hc h => cases h <;> exact .same rfl
  | allocated hc h => cases h <;> exact .same rfl
  | begin hc h => exact begin_stacks hc h
  | lay hc h => exact lay_stacks hc h
  | measure hc h =>
      cases h with
      | done => exact .same rfl
      | consult => exact .push (consult_frames ..) (.measuring hc)
  | publish hc h => cases h; exact .same rfl
  | release hc h => exact release_stacks hc h
  | stopped hc h => exact stopped_stacks hc h
  | enqueue hc h => cases h <;> exact .same rfl
  | acquire hc h => exact acquire_stacks hc h
  | standBy hc h => cases h; exact .same (askName_frames ..)
  | report hc h => exact report_stacks hc h

/-- What is handed to a frame takes it off, unless it is that of an attempt. -/
theorem give_frames {f : Frame σ} {rest : List (Frame σ)} {v : Value} {left : Local}
    (hf : t.frames = f :: rest) (hno : ∀ j, f ≠ .filling j) (h : Given lib t a v left t') :
    t'.frames = rest := by
  cases h with
  | ended hg => cases hf.symm.trans hg
  | filled hg => exact (hno _ (List.cons.inj (hf.symm.trans hg)).1).elim
  | stepped hg =>
      cases hf.symm.trans hg
      exact stepped_frames ..
  | laid hg =>
      cases hf.symm.trans hg
      exact laid_frames ..
  | measured hg =>
      cases hf.symm.trans hg
      exact measured_frames ..
  | response hg | layout hg | table hg | record hg | allocated hg | relied hg | released hg
  | founded hg | reported hg =>
      cases hf.symm.trans hg
      rfl

/-- What unwinds takes the topmost frame off. -/
theorem unwind_frames {f : Frame σ} {rest : List (Frame σ)} {e : Failure}
    (hf : t.frames = f :: rest) (h : Unwound t e t') : t'.frames = rest := by
  cases h with
  | ended hg => cases hf.symm.trans hg
  | handle hg =>
      cases hf.symm.trans hg
      exact handle_frames ..
  | abandon hg | drop hg =>
      cases hf.symm.trans hg
      rfl

/-- A frame that has its turn, or is unwound past, is off the stack. -/
theorem frame_dropped {f : Frame σ} {rest : List (Frame σ)} (hf : t.frames = f :: rest)
    (hno : ∀ j, f ≠ .filling j)
    (hc : (∃ v left, t.control = .give v left) ∨ ∃ e, t.control = .unwind e)
    (h : t.step lib a = some t') : t'.frames = rest := by
  rcases hc with ⟨v, left, hc⟩ | ⟨e, hc⟩
  · exact give_frames hf hno (step_give hc h)
  · exact unwind_frames hf (step_unwind hc h)

/-- A call that is over is off the stack. -/
theorem call_dropped {f : Frame σ} {rest : List (Frame σ)} (hf : t.frames = f :: rest)
    (hcall : f.isCall = true)
    (hc : (∃ v left, t.control = .give v left) ∨ ∃ e, t.control = .unwind e)
    (h : t.step lib a = some t') : t'.frames = rest :=
  frame_dropped hf (fun j hj => by rw [hj] at hcall; cases hcall) hc h

/-- A frame that is there after a step was there before, or has been opened
by it. -/
theorem opened_of_step (h : t.step lib a = some t') {f : Frame σ} (hf : f ∈ t'.frames) :
    f ∈ t.frames ∨ t.Opens f := by
  cases step_stacks h with
  | same hfs => exact .inl (hfs ▸ hf)
  | drop hfs hc => exact .inl (hfs ▸ List.mem_cons_of_mem _ hf)
  | opened fs hfs hopens htail =>
      rw [hfs] at hf
      exact (List.mem_append.mp hf).symm.imp_right (hopens f)

/-- A frame that has its place on the stack after a step had it before, or the step has
opened it. Then a program has been running, or it stands on what was there. -/
theorem frame_before (h : t.step lib a = some t') {f : Frame σ} {above base : List (Frame σ)}
    (hf : t'.frames = above ++ f :: base) :
    (∃ above', t.frames = above' ++ f :: base)
      ∨ t.Opens f ∧ ((∃ p s, t.control = .run p s) ∨ t.frames = base) := by
  cases step_stacks h with
  | same hsame => exact .inl ⟨above, hsame.symm.trans hf⟩
  | @drop g hdrop hc => exact .inl ⟨g :: above, hdrop.trans (congrArg _ hf)⟩
  | opened fs hopened hopens htail =>
      rcases List.append_eq_append_iff.mp (hopened.symm.trans hf) with
        ⟨as, rfl, hbelow⟩ | ⟨bs, rfl, hbelow⟩
      · exact .inl ⟨as, hbelow⟩
      · cases bs with
        | nil => exact .inl ⟨[], hbelow.symm⟩
        | cons g bs =>
            obtain ⟨rfl, hbase⟩ : f = g ∧ base = bs ++ t.frames := List.cons.inj hbelow
            have hnew : t.Opens f := hopens f (List.mem_append_right _ List.mem_cons_self)
            refine .inr ⟨hnew, ?_⟩
            cases bs with
            | nil => exact .inr hbase.symm
            | cons g bs =>
                -- a program waits in the frame below, and that is the one that has been running
                have hmem : g ∈ (above ++ f :: g :: bs).tail := by
                  cases above with
                  | nil => exact List.mem_cons_self
                  | cons x above =>
                      exact List.mem_append_right _ (List.mem_cons_of_mem _ List.mem_cons_self)
                have hcall := htail g hmem
                cases hopens g (List.mem_of_mem_tail hmem) with
                | call hc hf => exact .inl ⟨_, _, hc⟩
                | _ => cases hcall

end Turn

/-- In whichever thread a frame is found after a step, it was there before, or
the thread that took the step has opened it. -/
theorem Machine.step_frames {lib : Library σ} {m m' : Machine σ} {t u : ThreadId}
    {thread' : Thread σ} (h : m.step lib t = some m') (hu : m'.threads[u]? = some thread')
    {f : Frame σ} (hf : f ∈ thread'.frames) :
    (∃ thread, m.threads[u]? = some thread ∧ f ∈ thread.frames)
      ∨ ∃ thread, m.threads[t]? = some thread ∧ (m.turn thread).Opens f := by
  obtain ⟨-, thread, hthread, hs⟩ := step_cases h
  cases hs with
  | @alone turn hturn =>
      by_cases htu : t = u
      · subst htu
        obtain rfl := Option.some.inj ((after_threads hthread turn).symm.trans hu)
        rcases Turn.opened_of_step hturn hf with hold | hnew
        · exact .inl ⟨thread, hthread, hold⟩
        · exact .inr ⟨thread, hthread, hnew⟩
      · unfold after at hu
        rw [Array.getElem?_modify, if_neg htu] at hu
        exact .inl ⟨thread', hu, hf⟩
  | program p' started hc hp hs ht hnew =>
      rw [ht, Array.getElem?_append] at hu
      split at hu
      · rw [Array.getElem?_modify] at hu
        split at hu
        · obtain ⟨old, hold, rfl⟩ := Option.map_eq_some_iff.mp hu
          exact .inl ⟨old, hold, hf⟩
        · exact .inl ⟨thread', hu, hf⟩
      · rw [(hnew thread' (Array.mem_of_getElem? hu)).1] at hf
        cases hf

end TypeRecords
