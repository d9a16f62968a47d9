/-
Completion steps: running one, publishing it, taking up the waiters it lets
go, and waiting for what stopped it.

The thread that runs an initialization repeats this until the record is
finished or the initialization is parked. Waiters are taken up by the same
thread, one after the other, before it looks at its own dependency.
-/
import TypeRecords.Machine.State

namespace TypeRecords.Turn

variable {σ : Type}

-- ====================================================== running a step

/-- What is left to do once a record is finished for itself. -/
def closing (s : Store) (d : Drive) : StepOutcome :=
  .closing (s.unfinished? d.registry d.record)

/-- Begins to lay out a record by its fields. -/
def startLayout (lib : Library σ) (t : Turn σ) (registry : RegistryId) (record : RecordId)
    (scratch : Scratch) : Turn σ :=
  match (t.store.records[record]?).bind lib.descriptorOf? with
  | none => t.goto (.give (.dependency none) (.scratch scratch))
  | some d => t.goto (.lay ⟨registry, record, scratch, d.fields, 0, []⟩)

/-- Begins a completion step. A generic record that is finished for itself is
not given to its completion again. -/
def begin (lib : Library σ) (t : Turn σ) (d : Drive) : Option (Turn σ) :=
  let t := { t with store := t.store.note d.registry fun l => { l with steps := l.steps + 1 } }
  match t.store.records[d.record]? with
  | none => none
  | some r =>
    match r.origin with
    | .fixed => none
    | .tuple => some (t.goto (.measure ⟨d, r.arguments, []⟩))
    | .generic id =>
      let completion :=
        if d.stage < .nonTransitive then (lib.descriptors[id]?).bind (·.completion) else none
      match completion with
      | none => some (t.goto (.publish d (closing t.store d)))
      | some .structLayout =>
        some (({ t with frames := .stepping d :: t.frames }).startLayout lib d.registry d.record
          d.scratch)
      | some (.callback step) =>
        some (t.call (.stepping d) (step d.registry d.record) .dependency (.scratch d.scratch))

def stepped (t : Turn σ) (d : Drive) (dependency : Option Dependency) (left : Local) : Turn σ :=
  let d := match left with
    | .scratch words => { d with scratch := words }
    | _ => d
  match dependency with
  | some dep => t.goto (.publish d (.blocked (t.store.inferredStage d.record) dep))
  | none => t.goto (.publish d (closing t.store d))

-- ====================================================== struct layout

/-- The record of the next field, at the first stage where its layout is
known, as far as it has got. -/
def resolve (t : Turn σ) (a : Actor) (registry : RegistryId) (q : Request) (owner : RecordId)
    (f : Frame σ) (type : FieldType σ) : Turn σ :=
  let arguments := t.store.records.argumentsOf owner
  match type with
  | .fixed record => ({ t with frames := f :: t.frames }).consult registry q record
  | .computed accessor => t.call f (accessor registry q arguments) .response .nothing
  | .argument index =>
    match arguments[index]? with
    | some record => ({ t with frames := f :: t.frames }).consult registry q record
    | none =>
      let name := ((t.store.records[owner]?).map (·.name)).getD ""
      t.raiseIn a registry (.argumentCount name (index + 1) arguments.length)

/-- Writes down the layout of a record whose fields are all known. -/
def layDown (s : Store) (record : RecordId) (layouts : List Layout) : Store :=
  let whole := Layout.sequence layouts
  s.changeRecord record fun r =>
    (r.writeOffsets whole.offsets).publish
      (if r.kind = .object then .reference else whole.layout)

/-- Looks at the next field, or finishes the layout. -/
def lay (t : Turn σ) (a : Actor) (w : FieldWalk σ) : Turn σ :=
  match w.todo with
  | [] =>
    { t with
      store := layDown t.store w.record w.layouts
      control := .give (.dependency none) (.scratch (w.scratch.set 0 w.index)) }
  | field :: _ => t.resolve a w.registry (.poll .layoutComplete) w.record (.laying w) field.type

/-- The record of a field is found. Fields before the first scratch word were
found to have a layout by an earlier step. -/
def laid (t : Turn σ) (w : FieldWalk σ) (r : Response) : Turn σ :=
  if w.scratch[0] ≤ w.index ∧ ¬ r.stage.satisfies .layoutComplete then
    t.goto (.give (.dependency (some ⟨r.record, .layoutComplete⟩))
      (.scratch (w.scratch.set 0 w.index)))
  else
    let layout := (t.store.records.layoutOf r.record).getD .empty
    t.goto (.lay { w with
      todo := w.todo.tail, index := w.index + 1, layouts := w.layouts ++ [layout] })

-- ====================================================== tuples

/-- Lays out a tuple by its elements, unless it has a layout. -/
def settleTuple (s : Store) (record : RecordId) : Store :=
  if (s.records.layoutOf record).isSome then s
  else
    let layouts := (s.records.argumentsOf record).map fun e =>
      (s.records.layoutOf e).getD .empty
    let whole := Layout.sequence layouts
    s.changeRecord record fun r => (r.writeOffsets whole.offsets).publish whole.layout

/-- The outcome of a tuple's step once every element has a layout. -/
def tupleOutcome (s : Store) (d : Drive) (stages : List Stage) : StepOutcome :=
  if stages.all (· = .complete) then .finished
  else
    let behind := ((s.records.argumentsOf d.record).zip stages).find? (·.2 < .nonTransitive)
    match behind with
    | some (element, _) => .blocked .nonTransitive ⟨element, .nonTransitive⟩
    | none => closing s d

/-- Looks at the next element, or finishes the step. -/
def measure (t : Turn σ) (w : ElementWalk) : Turn σ :=
  match w.todo with
  | [] =>
    let s := settleTuple t.store w.drive.record
    { t with store := s, control := .publish w.drive (tupleOutcome s w.drive w.stages) }
  | element :: _ =>
    ({ t with frames := .measuring w :: t.frames }).consult w.drive.registry
      (.poll .layoutComplete) element

def measured (t : Turn σ) (w : ElementWalk) (r : Response) : Turn σ :=
  match w.todo with
  | element :: rest =>
    if r.stage.satisfies .layoutComplete then
      t.goto (.measure { w with todo := rest, stages := w.stages ++ [r.stage] })
    else t.goto (.publish w.drive (.blocked .abstract ⟨element, .layoutComplete⟩))
  | [] => t.goto (.measure w)

-- ====================================================== after a step

def publish (t : Turn σ) (d : Drive) (o : StepOutcome) : Option (Turn σ) :=
  match t.store.entries[d.entry]? with
  | none => none
  | some e =>
    let published := e.publish o
    some { t with
      store := t.store.changeEntry d.entry fun _ => published.1
      control := .release { d with stage := published.1.stage } o.dependency published.2 }

/-- Takes up a waiter's initialization, if it is still parked. -/
def resume (t : Turn σ) (a : Actor) (registry : RegistryId) (f : Frame σ) (w : Waiter) : Turn σ :=
  match t.store.entries[w.entry]? with
  | none => t.push f (.give .unit .nothing)
  | some e =>
    match e.record, e.reclaim? a.id with
    | some record, some (taken, scratch) =>
      { t with
        store := t.store.changeEntry w.entry fun _ => taken
        frames := f :: t.frames
        control := .begin
          ⟨registry, w.entry, record, .poll .complete, e.published.getD .abstract, scratch⟩ }
    | _, _ => t.push f (.give .unit .nothing)

/-- Takes up the next waiter that was let go. After the last one the thread
turns to its own initialization again. -/
def release (t : Turn σ) (a : Actor) (d : Drive) (dependency : Option Dependency) :
    List Waiter → Turn σ
  | w :: rest =>
    let t := { t with
      store := t.store.note d.registry fun l => { l with resumptions := l.resumptions + 1 } }
    t.resume a d.registry (.releasing d dependency rest) w
  | [] =>
    match dependency with
    | some dep => t.goto (.stopped d dep)
    | none =>
      if d.stage = .complete then t.respond ⟨d.record, d.stage⟩ else t.goto (.begin d)

/-- Decides how to wait: a chain of dependencies that closes is a fault; a
request that waits and is not satisfied waits for the dependency; otherwise
the initialization is parked. -/
def stopped (t : Turn σ) (a : Actor) (d : Drive) (dep : Dependency) : Turn σ :=
  let t := { t with
    store := t.store.note d.registry fun l => { l with dependencies := l.dependencies + 1 } }
  match t.store.cycle? d.registry d.record dep with
  | some cycle => t.raiseIn a d.registry (.cycle cycle)
  | none =>
    if d.request.waits ∧ ¬ d.request.satisfiedBy d.stage then
      ({ t with frames := .relying d :: t.frames }).consult d.registry
        (.blocking dep.required) dep.target
    else
      { t with
        store := t.store.changeEntry d.entry (·.suspend d.scratch)
        control := .enqueue d dep }

/-- Queues a parked initialization, or takes it up again if what stopped it is
there by now. -/
def enqueue (t : Turn σ) (a : Actor) (d : Drive) (dep : Dependency) : Option (Turn σ) :=
  let queued := (t.store.entryOf? d.registry dep.target).bind fun id =>
    (t.store.entries[id]?).bind fun e =>
      (e.enqueue? ⟨dep.required, d.entry⟩).map fun e => (id, e)
  match queued with
  | some (id, e) =>
    some ({ t with store := t.store.changeEntry id fun _ => e }.respond ⟨d.record, d.stage⟩)
  | none =>
    match t.store.entries[d.entry]? with
    | none => none
    | some own =>
      match own.reclaim? a.id with
      | none => some (t.respond ⟨d.record, d.stage⟩)
      | some (taken, scratch) =>
        some { t with
          store := t.store.changeEntry d.entry fun _ => taken
          control := .begin { d with scratch := scratch } }

end TypeRecords.Turn
