/-
What lies below.

A step reads at most the topmost frame. So what a thread does above a frame is
the same whatever that frame is and whatever lies below it: the turn that
stands on `below` takes the steps that it takes by itself, until it hands
something down or unwinds with no frame of its own left (`Turn.step_under`).
-/
import TypeRecords.Proofs.Process.Run

namespace TypeRecords

variable {σ : Type}

namespace Turn

variable {lib : Library σ} {a : Actor} (t : Turn σ) (below : List (Frame σ))

/-- The turn on top of further frames. -/
def under : Turn σ := { t with frames := t.frames ++ below }

/-- The next step needs no frame, or has one of its own. -/
def Covered : Prop :=
  t.frames ≠ [] ∨ (∀ v left, t.control ≠ .give v left) ∧ ∀ f, t.control ≠ .unwind f

/-- Further frames leave the store as it is. -/
@[simp] theorem under_store : (t.under below).store = t.store := rfl

/-- Further frames leave what the thread is about to do as it is. -/
@[simp] theorem under_control : (t.under below).control = t.control := rfl

-- ====================================================== requests

/-- A consultation looks at the entries only: it waits for the one of the record, or
answers at once. -/
theorem consult_under (registry : RegistryId) (q : Request) (record : RecordId) :
    (t.under below).consult registry q record = (t.consult registry q record).under below := by
  unfold consult
  rw [under_store]
  cases t.store.entryOf? registry record <;> rfl

/-- A request for an instantiation pushes at most one frame, that of the allocation. -/
theorem requestGeneric_under (registry : RegistryId) (q : Request) (descriptor : DescriptorId)
    (arguments : List RecordId) :
    (t.under below).requestGeneric lib a registry q descriptor arguments
      = (t.requestGeneric lib a registry q descriptor arguments).map (·.under below) := by
  unfold requestGeneric
  cases lib.descriptors[descriptor]? with
  | none => rfl
  | some d =>
      by_cases hcount : d.parameters ≠ arguments.length
      · simp only [if_pos hcount]
        rfl
      · simp only [if_neg hcount]
        rw [under_store]
        cases t.store.find? registry ⟨.generic descriptor, arguments⟩ with
        | some entry => rfl
        | none => cases d.instantiate <;> rfl

/-- A request for a tuple looks at the keys of the registry only. -/
theorem requestTuple_under (registry : RegistryId) (q : Request) (elements : List RecordId) :
    (t.under below).requestTuple registry q elements
      = (t.requestTuple registry q elements).under below := by
  unfold requestTuple
  by_cases hempty : elements = []
  · simp only [if_pos hempty]
    rfl
  · simp only [if_neg hempty]
    rw [under_store]
    cases t.store.find? registry ⟨.tuple, elements⟩ <;> rfl

/-- A request for a witness table turns on the conformance alone. -/
theorem requestTable_under (registry : RegistryId) (conformance : ConformanceId)
    (conforming : RecordId) (arguments : List TableId) :
    (t.under below).requestTable lib registry conformance conforming arguments
      = (t.requestTable lib registry conformance conforming arguments).map (·.under below) := by
  unfold requestTable
  cases lib.conformances[conformance]? with
  | none => rfl
  | some c => cases hc : lib.isTrivial c <;> simp only [hc] <;> rfl

/-- The canonical record of a name is asked of the registry. -/
theorem askName_under (j : NameJob) (r : Registry) :
    (t.under below).askName j r = (t.askName j r).under below := by
  unfold askName
  cases r.canonical? j.position <;> rfl

/-- What a request for the canonical record does, founding the name included, turns on
the candidate and the registry alone. -/
theorem requestName_under (registry : RegistryId) (candidate : CandidateId) :
    (t.under below).requestName lib registry candidate
      = (t.requestName lib registry candidate).map (·.under below) := by
  unfold requestName
  rw [under_store]
  cases t.store.candidates[candidate]? with
  | none => rfl
  | some c =>
      cases t.store.registries[registry]? with
      | none => rfl
      | some r =>
          cases hunique : c.uniqueIn registry with
          | some record => simp only [hunique]; rfl
          | none =>
              cases hposition : r.position? c.name with
              | some position =>
                  simp only [hunique, hposition, Option.map_some]
                  rw [askName_under]
              | none =>
                  simp only [hunique, hposition]
                  cases lib.initializer candidate <;> rfl

-- ====================================================== programs

/-- Handlers stand in the setting of the program that failed, not in the frames. -/
theorem handle_under (f : Failure) (s : Setting σ) :
    (t.under below).handle f s = (t.handle f s).under below := by
  unfold handle
  cases s.handlers <;> rfl

/-- A field walk starts from the fields of the descriptor and the scratch words. -/
theorem startLayout_under (registry : RegistryId) (record : RecordId) (scratch : Scratch) :
    (t.under below).startLayout lib registry record scratch
      = (t.startLayout lib registry record scratch).under below := by
  unfold startLayout
  rw [under_store]
  cases (t.store.records[record]?).bind lib.descriptorOf? <;> rfl

/-- An instruction that calls something pushes the frame of its continuation; no other
looks at the frames. -/
theorem run_under (p : Program σ Value) (s : Setting σ) :
    (t.under below).run lib a p s = (t.run lib a p s).map (·.under below) := by
  cases p with
  | fail f => exact congrArg some (t.handle_under below f s)
  | scratch f k =>
      simp only [run]
      cases s.locals with
      | scratch words => rfl
      | nothing => exact congrArg some (t.handle_under below .refused s)
      | draft d => exact congrArg some (t.handle_under below .refused s)
  | draft k =>
      simp only [run]
      cases s.locals with
      | draft d => rfl
      | nothing => exact congrArg some (t.handle_under below .refused s)
      | scratch words => exact congrArg some (t.handle_under below .refused s)
  | fill index w k =>
      simp only [run]
      cases s.locals with
      | draft d => rfl
      | nothing => exact congrArg some (t.handle_under below .refused s)
      | scratch words => exact congrArg some (t.handle_under below .refused s)
  | storePrivate index value k =>
      simp only [run]
      cases s.locals with
      | draft d => rfl
      | nothing => exact congrArg some (t.handle_under below .refused s)
      | scratch words => exact congrArg some (t.handle_under below .refused s)
  | request registry q c k =>
      let u : Turn σ := { t with frames := .forResponse k s :: t.frames }
      cases c with
      | generic d arguments => exact u.requestGeneric_under below registry q d arguments
      | tuple elements => exact congrArg some (u.requestTuple_under below registry q elements)
      | check record => exact congrArg some (u.consult_under below registry q record)
  | structLayout registry record words k =>
      let u : Turn σ := { t with frames := .forLayout k s :: t.frames }
      exact congrArg some (u.startLayout_under below registry record words)
  | table registry c conforming arguments k =>
      let u : Turn σ := { t with frames := .forTable k s :: t.frames }
      exact u.requestTable_under below registry c conforming arguments
  | canonical registry c k =>
      let u : Turn σ := { t with frames := .forRecord k s :: t.frames }
      exact u.requestName_under below registry c
  | done v => rfl
  | look k => rfl
  | edit f k => rfl
  | act action k => rfl
  | raise policy limit fault => rfl
  | guarded handler body => rfl
  | disarm k => rfl
  | spawn name body k => rfl
  | join other k => rfl
  | settle other k => rfl

-- ====================================================== work on entries

/-- Whether a thread serves an entry, is answered or has to wait is up to the entry. -/
theorem await_under (registry : RegistryId) (entry : EntryId) (q : Request) :
    (t.under below).await a registry entry q
      = (t.await a registry entry q).map (·.under below) := by
  unfold await
  rw [under_store]
  cases t.store.entries[entry]? with
  | none => rfl
  | some e => cases hlook : e.look a.id q <;> simp only [hlook] <;> rfl

/-- The first stage of a new record is found in the store. -/
theorem allocated_under (al : Allocation) :
    (t.under below).allocated lib a al = (t.allocated lib a al).under below := by
  simp only [allocated]
  show (if (firstStage lib t.store al.record).2 = .complete then _ else _) = _
  by_cases hstage : (firstStage lib t.store al.record).2 = .complete
  · rw [if_pos hstage, if_pos hstage]
    rfl
  · rw [if_neg hstage, if_neg hstage]
    rfl

/-- A completion step pushes the frame of its own initialization before it runs
anything. -/
theorem begin_under (d : Drive) :
    (t.under below).begin lib d = (t.begin lib d).map (·.under below) := by
  simp only [begin, under_store, Store.note, Store.changeRegistry]
  cases t.store.records[d.record]? with
  | none => rfl
  | some r =>
      cases horigin : r.origin with
      | fixed => simp only [horigin]; rfl
      | tuple => simp only [horigin]; rfl
      | generic id =>
          simp only [horigin]
          cases (if d.stage < .nonTransitive then (lib.descriptors[id]?).bind (·.completion)
            else none) with
          | none => rfl
          | some completion =>
              cases completion with
              | callback step => rfl
              | structLayout =>
                  let u : Turn σ := { t with
                    store := t.store.note d.registry fun l => { l with steps := l.steps + 1 }
                    frames := .stepping d :: t.frames }
                  exact congrArg some (u.startLayout_under below d.registry d.record d.scratch)

/-- The type of a field is consulted, computed or looked up among the arguments on top
of the frame of the walk. -/
theorem resolve_under (registry : RegistryId) (q : Request) (owner : RecordId) (f : Frame σ)
    (type : FieldType σ) :
    (t.under below).resolve a registry q owner f type
      = (t.resolve a registry q owner f type).under below := by
  let u : Turn σ := { t with frames := f :: t.frames }
  unfold resolve
  cases type with
  | fixed record => exact u.consult_under below registry q record
  | computed accessor => rfl
  | argument index =>
      simp only [under_store]
      cases (t.store.records.argumentsOf owner)[index]? with
      | some record => exact u.consult_under below registry q record
      | none => rfl

/-- A field walk reads the field it is at from the walk itself. -/
theorem lay_under (w : FieldWalk σ) : (t.under below).lay a w = (t.lay a w).under below := by
  unfold lay
  cases w.todo with
  | nil => rfl
  | cons field rest => exact t.resolve_under below ..

/-- An element walk reads the element it is at from the walk itself. -/
theorem measure_under (w : ElementWalk) :
    (t.under below).measure w = (t.measure w).under below := by
  unfold measure
  cases w.todo with
  | nil => rfl
  | cons element rest =>
      let u : Turn σ := { t with frames := .measuring w :: t.frames }
      exact u.consult_under below ..

/-- An outcome is published in the entry of the initialization. -/
theorem publish_under (d : Drive) (o : StepOutcome) :
    (t.under below).publish d o = (t.publish d o).map (·.under below) := by
  unfold publish
  rw [under_store]
  cases t.store.entries[d.entry]? <;> rfl

/-- A released waiter is taken over on top of the frame that released it. -/
theorem resume_under (registry : RegistryId) (f : Frame σ) (w : Waiter) :
    (t.under below).resume a registry f w = (t.resume a registry f w).under below := by
  unfold resume
  rw [under_store]
  cases t.store.entries[w.entry]? with
  | none => rfl
  | some e =>
      cases hrecord : e.record with
      | none => simp only [hrecord]; rfl
      | some record => cases htaken : e.reclaim? a.id <;> simp only [hrecord, htaken] <;> rfl

/-- The waiters are resumed one after the other; after the last one the initialization
stops, answers or takes its next step. -/
theorem release_under (d : Drive) (dep : Option Dependency) (ready : List Waiter) :
    (t.under below).release a d dep ready = (t.release a d dep ready).under below := by
  cases ready with
  | cons w rest =>
      let u : Turn σ := { t with
        store := t.store.note d.registry fun l => { l with resumptions := l.resumptions + 1 } }
      exact u.resume_under below d.registry (.releasing d dep rest) w
  | nil =>
      unfold release
      cases dep with
      | some dep => rfl
      | none =>
          by_cases hstage : d.stage = .complete
          · simp only [if_pos hstage]
            rfl
          · simp only [if_neg hstage]
            rfl

/-- Whether a dependency is a fault, is waited for or parks the initialization is up to
the store and the request. -/
theorem stopped_under (d : Drive) (dep : Dependency) :
    (t.under below).stopped a d dep = (t.stopped a d dep).under below := by
  let noted := t.store.note d.registry fun l => { l with dependencies := l.dependencies + 1 }
  let u : Turn σ := { t with store := noted, frames := .relying d :: t.frames }
  simp only [stopped]
  rw [under_store]
  cases noted.cycle? d.registry d.record dep with
  | some cycle => rfl
  | none =>
      by_cases hwaits : d.request.waits ∧ ¬ d.request.satisfiedBy d.stage
      · simp only [if_pos hwaits]
        exact u.consult_under below ..
      · simp only [if_neg hwaits]
        rfl

/-- A parked initialization is queued at the entry it depends on, or taken up again. -/
theorem enqueue_under (d : Drive) (dep : Dependency) :
    (t.under below).enqueue a d dep = (t.enqueue a d dep).map (·.under below) := by
  simp only [enqueue]
  rw [under_store]
  cases (t.store.entryOf? d.registry dep.target).bind fun id =>
      (t.store.entries[id]?).bind fun e =>
        (e.enqueue? ⟨dep.required, d.entry⟩).map fun e => (id, e) with
  | some queue => rfl
  | none =>
      simp only
      cases t.store.entries[d.entry]? with
      | none => rfl
      | some own => cases htaken : own.reclaim? a.id <;> simp only [htaken] <;> rfl

-- ====================================================== witness tables and names

/-- A cell is shared, waited for or filled; who fills it pushes the frame of the attempt. -/
theorem acquire_under (j : TableJob) (arguments : List TableId) :
    (t.under below).acquire lib a j arguments
      = (t.acquire lib a j arguments).map (·.under below) := by
  unfold acquire
  rw [under_store]
  cases t.store.cells[j.cell]? with
  | none => rfl
  | some cell =>
      cases hstate : cell.state with
      | full table => simp only [hstate]; rfl
      | building thread => simp only [hstate]; rfl
      | empty =>
          simp only [hstate]
          cases lib.conformances[j.conformance]? with
          | none => rfl
          | some c =>
              cases hprotocol : lib.protocols[c.recipe.protocol]? with
              | none => simp only [hprotocol]; rfl
              | some p =>
                  cases hcallback : c.instantiator <;> simp only [hprotocol, hcallback] <;> rfl

/-- A draft is checked against its protocol alone. -/
theorem filled_under (j : TableJob) (draft : Draft) :
    (t.under below).filled lib a j draft = (t.filled lib a j draft).map (·.under below) := by
  unfold filled
  cases lib.protocols[draft.protocol]? with
  | none => rfl
  | some p => cases hempty : draft.firstEmpty? p <;> simp only [hempty] <;> rfl

/-- A founded name is announced in the registry. -/
theorem founded_under (j : NameJob) :
    (t.under below).founded j = (t.founded j).map (·.under below) := by
  unfold founded
  rw [under_store]
  cases t.store.candidates[j.candidate]? <;> rfl

/-- Whether there is something new to hear is up to the registry. -/
theorem standBy_under (j : NameJob) (heard : Nat) :
    (t.under below).standBy j heard = (t.standBy j heard).map (·.under below) := by
  unfold standBy
  rw [under_store]
  cases t.store.registries[j.registry]? with
  | none => rfl
  | some r =>
      by_cases hheard : heard < r.announcements
      · simp only [if_pos hheard, Option.map_some]
        rw [askName_under]
      · simp only [if_neg hheard]
        rfl

-- ====================================================== handing over

/-- The end of a completion step becomes the outcome of its own initialization. -/
theorem stepped_under (d : Drive) (dependency : Option Dependency) (left : Local) :
    (t.under below).stepped d dependency left = (t.stepped d dependency left).under below := by
  unfold stepped
  cases dependency <;> rfl

/-- The answer for a field goes into the walk, or stops it. -/
theorem laid_under (w : FieldWalk σ) (r : Response) :
    (t.under below).laid w r = (t.laid w r).under below := by
  unfold laid
  by_cases hlaid : w.scratch[0] ≤ w.index ∧ ¬ r.stage.satisfies .layoutComplete
  · simp only [if_pos hlaid]
    rfl
  · simp only [if_neg hlaid]
    rfl

/-- The answer for an element goes into the walk, or stops it. -/
theorem measured_under (w : ElementWalk) (r : Response) :
    (t.under below).measured w r = (t.measured w r).under below := by
  unfold measured
  cases w.todo with
  | nil => rfl
  | cons element rest =>
      by_cases hlaid : r.stage.satisfies .layoutComplete = true
      · simp only [if_pos hlaid]
        rfl
      · simp only [if_neg hlaid]
        rfl

/-- A value goes to the topmost frame, which is one of its own if the turn has any. -/
theorem give_under (hf : t.frames ≠ []) (v : Value) (left : Local) :
    (t.under below).give lib a v left = (t.give lib a v left).map (·.under below) := by
  obtain ⟨store, shared, control, frames⟩ := t
  cases frames with
  | nil => exact (hf rfl).elim
  | cons f rest =>
      let u : Turn σ := ⟨store, shared, control, rest⟩
      cases f with
      | forResponse k s => cases v <;> rfl
      | forLayout k s => cases v <;> cases left <;> rfl
      | forTable k s => cases v <;> rfl
      | forRecord k s => cases v <;> rfl
      | allocating al => rfl
      | relying d => rfl
      | releasing d dep rest => rfl
      | reporting r rest policy => rfl
      | stepping d =>
          cases v with
          | dependency dep => exact congrArg some (u.stepped_under below d dep left)
          | _ => rfl
      | laying w =>
          cases v with
          | response r => exact congrArg some (u.laid_under below w r)
          | _ => rfl
      | measuring w =>
          cases v with
          | response r => exact congrArg some (u.measured_under below w r)
          | _ => rfl
      | filling j =>
          cases left with
          | draft draft => exact u.filled_under below j draft
          | _ => rfl
      | founding j => exact u.founded_under below j

/-- A failure leaves the topmost frame or is handled there; the frames below see nothing
of it. -/
theorem unwind_under (hf : t.frames ≠ []) (f : Failure) :
    (t.under below).unwind f = (t.unwind f).under below := by
  obtain ⟨store, shared, control, frames⟩ := t
  cases frames with
  | nil => exact (hf rfl).elim
  | cons g rest =>
      let u : Turn σ := ⟨store, shared, control, rest⟩
      cases g with
      | forResponse k s => exact u.handle_under below f s
      | forLayout k s => exact u.handle_under below f s
      | forTable k s => exact u.handle_under below f s
      | forRecord k s => exact u.handle_under below f s
      | _ => rfl

/-- The hooks of a report run on top of its own frame. -/
theorem report_under (r : Report) (hooks : List HookId) (policy : FaultPolicy) :
    (t.under below).report lib r hooks policy = (t.report lib r hooks policy).under below := by
  unfold report
  cases hooks with
  | cons hook rest => rfl
  | nil => cases policy <;> rfl

/-- A thread does the same on top of any stack. -/
theorem step_under (h : t.Covered) :
    (t.under below).step lib a = (t.step lib a).map (·.under below) := by
  unfold step
  rw [under_control]
  have hframes : ((∃ v left, t.control = .give v left) ∨ ∃ f, t.control = .unwind f) →
      t.frames ≠ [] := by
    rintro (⟨v, left, hc⟩ | ⟨f, hc⟩)
    · exact h.resolve_right fun hno => hno.1 v left hc
    · exact h.resolve_right fun hno => hno.2 f hc
  cases hc : t.control with
  | run p s => exact t.run_under below p s
  | give v left => exact t.give_under below (hframes (.inl ⟨v, left, hc⟩)) v left
  | unwind f => exact congrArg some (t.unwind_under below (hframes (.inr ⟨f, hc⟩)) f)
  | await registry entry q => exact t.await_under below registry entry q
  | allocated al => exact congrArg some (t.allocated_under below al)
  | begin d => exact t.begin_under below d
  | lay w => exact congrArg some (t.lay_under below w)
  | measure w => exact congrArg some (t.measure_under below w)
  | publish d o => exact t.publish_under below d o
  | release d dep ready => exact congrArg some (t.release_under below d dep ready)
  | stopped d dep => exact congrArg some (t.stopped_under below d dep)
  | enqueue d dep => exact t.enqueue_under below d dep
  | acquire j arguments => exact t.acquire_under below j arguments
  | standBy j heard => exact t.standBy_under below j heard
  | report r hooks policy => exact congrArg some (t.report_under below r hooks policy)
  | ended => rfl

end Turn

end TypeRecords
