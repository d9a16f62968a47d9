/-
One step of a process.

`Turn.step` is what a thread can do by itself; `Machine.step` adds what needs
the other threads. Neither says which thread goes next, and both have no
result for a thread that has ended, that waits, or that has been handed
something its topmost frame has no use for. Once the process has halted
nothing steps.
-/
import TypeRecords.Machine.Caching
import TypeRecords.Machine.Completing
import TypeRecords.Machine.Conforming
import TypeRecords.Machine.Naming

namespace TypeRecords

namespace Turn

variable {σ : Type}

-- ====================================================== handing over

/-- Hands the outcome of a piece of work to the topmost frame. -/
def give (lib : Library σ) (t : Turn σ) (a : Actor) (v : Value) (left : Local) :
    Option (Turn σ) :=
  match t.frames with
  | [] => some (t.goto .ended)
  | frame :: rest =>
    let t := { t with frames := rest }
    match frame, v, left with
    | .forResponse k s, .response r, _ => some (t.goto (.run (k r) s))
    | .forLayout k s, .dependency d, .scratch words => some (t.goto (.run (k d words) s))
    | .forTable k s, .table table, _ => some (t.goto (.run (k table) s))
    | .forRecord k s, .record r, _ => some (t.goto (.run (k r) s))
    | .allocating al, _, _ => some (t.goto (.allocated al))
    | .stepping d, .dependency dep, left => some (t.stepped d dep left)
    | .laying w, .response r, _ => some (t.laid w r)
    | .measuring w, .response r, _ => some (t.measured w r)
    | .relying d, _, _ => some (t.goto (.begin d))
    | .releasing d dep ready, _, _ => some (t.goto (.release d dep ready))
    | .filling j, _, .draft draft => t.filled lib a j draft
    | .founding j, _, _ => t.founded j
    | .reporting r hooks policy, _, _ => some (t.goto (.report r hooks policy))
    | _, _, _ => none

-- ====================================================== unwinding

/-- Goes on with the innermost armed handler, or unwinds if there is none. -/
def handle (t : Turn σ) (f : Failure) (s : Setting σ) : Turn σ :=
  match s.handlers with
  | [] => t.goto (.unwind f)
  | h :: rest => t.goto (.run (h f) { s with handlers := rest })

/-- Drops the topmost frame. A program may have a handler armed; an attempt to
build a witness table leaves its cell empty; everything else is simply not
finished. -/
def unwind (t : Turn σ) (f : Failure) : Turn σ :=
  match t.frames with
  | [] => t.goto .ended
  | frame :: rest =>
    let t := { t with frames := rest }
    match frame with
    | .forResponse _ s => t.handle f s
    | .forLayout _ s => t.handle f s
    | .forTable _ s => t.handle f s
    | .forRecord _ s => t.handle f s
    | .filling j => { t with store := t.store.changeCell j.cell .empty, control := .unwind f }
    | _ => t.goto (.unwind f)

/-- Shows a report to the next hook. After the last one the policy decides:
the process ends, or the thread unwinds. -/
def report (lib : Library σ) (t : Turn σ) (r : Report) (hooks : List HookId)
    (policy : FaultPolicy) : Turn σ :=
  match hooks with
  | hook :: rest => t.call (.reporting r rest policy) (lib.hook hook r) (fun _ => .unit) .nothing
  | [] =>
    match policy with
    | .abort => { t with store := { t.store with halted := some r.message }, control := .ended }
    | .unwind => t.goto (.unwind (.fault r.message))

-- ====================================================== programs

/-- Runs the next node of a program. Nodes that concern other threads have no
step here. -/
def run (lib : Library σ) (t : Turn σ) (a : Actor) (p : Program σ Value) (s : Setting σ) :
    Option (Turn σ) :=
  match p with
  | .done v => some (t.goto (.give v s.locals))
  | .fail f => some (t.handle f s)
  | .look k => some (t.goto (.run (k a.id t.store t.shared) s))
  | .edit f k => some { t with shared := f t.shared, control := .run k s }
  | .act action k =>
    let done := t.store.perform action
    some { t with store := done.1, control := .run (k done.2) s }
  | .scratch f k =>
    match s.locals with
    | .scratch words => some (t.goto (.run (k (f words)) { s with locals := .scratch (f words) }))
    | _ => some (t.handle .refused s)
  | .draft k =>
    match s.locals with
    | .draft d => some (t.goto (.run (k d) s))
    | _ => some (t.handle .refused s)
  | .fill index w k =>
    match s.locals with
    | .draft d =>
      let set := d.set index w
      some (t.goto (.run (k set.2) { s with locals := .draft set.1 }))
    | _ => some (t.handle .refused s)
  | .storePrivate index value k =>
    match s.locals with
    | .draft d =>
      let set := d.storeWord index value
      some (t.goto (.run (k set.2) { s with locals := .draft set.1 }))
    | _ => some (t.handle .refused s)
  | .request registry q c k =>
    let t := { t with frames := .forResponse k s :: t.frames }
    match c with
    | .generic d arguments => t.requestGeneric lib a registry q d arguments
    | .tuple elements => some (t.requestTuple registry q elements)
    | .check record => some (t.consult registry q record)
  | .structLayout registry record words k =>
    some (({ t with frames := .forLayout k s :: t.frames }).startLayout lib registry record words)
  | .table registry c conforming arguments k =>
    ({ t with frames := .forTable k s :: t.frames }).requestTable lib registry c conforming
      arguments
  | .canonical registry c k =>
    ({ t with frames := .forRecord k s :: t.frames }).requestName lib registry c
  | .raise policy limit fault =>
    some (({ t with frames := .forResponse (fun _ => .done .unit) s :: t.frames }).raise a policy
      limit fault)
  | .guarded handler body => some (t.goto (.run body { s with handlers := handler :: s.handlers }))
  | .disarm k => some (t.goto (.run k { s with handlers := s.handlers.tail }))
  | .spawn .. => none
  | .join .. => none
  | .settle .. => none

/-- What a thread does next, as far as it can do it by itself. -/
def step (lib : Library σ) (a : Actor) (t : Turn σ) : Option (Turn σ) :=
  match t.control with
  | .run p s => t.run lib a p s
  | .give v left => t.give lib a v left
  | .unwind f => some (t.unwind f)
  | .await registry entry q => t.await a registry entry q
  | .allocated al => some (t.allocated lib a al)
  | .begin d => t.begin lib d
  | .lay w => some (t.lay a w)
  | .measure w => some (t.measure w)
  | .publish d o => t.publish d o
  | .release d dep ready => some (t.release a d dep ready)
  | .stopped d dep => some (t.stopped a d dep)
  | .enqueue d dep => t.enqueue a d dep
  | .acquire j arguments => t.acquire lib a j arguments
  | .standBy j heard => t.standBy j heard
  | .report r hooks policy => some (t.report lib r hooks policy)
  | .ended => none

end Turn

-- ====================================================== processes

/-- A thread that is about to run a program. -/
def Thread.start {σ : Type} (name : String) (p : Program σ Unit) : Thread σ :=
  { name, control := .run (p.bind fun _ => .done .unit) (.start .nothing) }

namespace Machine

variable {σ : Type}

/-- Whether a thread is over. Threads that never started count as over. -/
def hasEnded (m : Machine σ) (t : ThreadId) : Bool :=
  match m.threads[t]? with
  | some thread =>
    match thread.control with
    | .ended => true
    | _ => false
  | none => true

def goto (m : Machine σ) (t : ThreadId) (c : Control σ) : Machine σ :=
  { m with threads := m.threads.modify t fun thread => { thread with control := c } }

def step (lib : Library σ) (m : Machine σ) (t : ThreadId) : Option (Machine σ) :=
  if m.store.halted.isSome then none
  else
    match m.threads[t]? with
    | none => none
    | some thread =>
      match thread.control with
      | .run (.spawn name body k) s =>
        let m := m.goto t (.run (k m.threads.size) s)
        some { m with threads := m.threads.push (.start name body) }
      | .run (.join other k) s =>
        if m.hasEnded other then some (m.goto t (.run k s)) else none
      | .run (.settle other k) s => some (m.goto t (.run (k (m.hasEnded other)) s))
      | control =>
        (Turn.step lib ⟨t, thread.name⟩ ⟨m.store, m.shared, control, thread.frames⟩).map fun turn =>
          { store := turn.store
            shared := turn.shared
            threads := m.threads.modify t fun thread =>
              { thread with control := turn.control, frames := turn.frames } }

/-- What a process can come to, whichever thread goes next. -/
inductive Reachable (lib : Library σ) (start : Machine σ) : Machine σ → Prop
  | refl : Reachable lib start start
  | step {m m' : Machine σ} (t : ThreadId) (h : Reachable lib start m)
      (hs : m.step lib t = some m') : Reachable lib start m'

end Machine

end TypeRecords
