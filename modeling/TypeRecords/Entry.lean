/-
Cache entries: the one place where a record's stage is kept.

An entry belongs to a key. It is there before its record is, it is advanced by
one thread at a time (its initializer), and while its initialization is parked
on another entry it has no initializer but keeps the scratch words of the step
that stopped. Other initializations may be parked on its queue; publishing a
stage lets go of those the stage is enough for, in the order they came.

The stage is kept twice: `published` is what may be read at any time, `stage`
is what is read together with the rest of the entry.
-/
import TypeRecords.Record

namespace TypeRecords

/-- Registries are numbered in the order they come into being. -/
abbrev RegistryId := Nat

/-- Entries are numbered in the order they come into being. -/
abbrev EntryId := Nat

/-- Threads are numbered in the order they start. -/
abbrev ThreadId := Nat

/-- Words that a completion callback keeps between the steps of one record. -/
abbrev Scratch := Vector Nat 4

/-- The words before the first step. -/
def Scratch.zero : Scratch := Vector.replicate 4 0

/-- What identifies a record within a registry. -/
structure Key where
  origin : Origin
  arguments : List RecordId
  deriving DecidableEq, Inhabited

/-- The key a record is cached under; records that were there from the start
have none. -/
def Record.key? (r : Record) : Option Key :=
  match r.origin with
  | .fixed => none
  | origin => some ⟨origin, r.arguments⟩

/-- An initialization that is parked until the entry it is queued on reaches
`required`. -/
structure Waiter where
  required : Stage
  entry : EntryId
  deriving DecidableEq, Inhabited

structure StepOutcome where
  /-- The stage the record has reached by itself. -/
  stage : Stage
  /-- What stopped the step, if anything did. -/
  dependency : Option Dependency
  deriving DecidableEq

namespace StepOutcome

def finished : StepOutcome := ⟨.complete, none⟩

/-- The record is at `stage` and waits. -/
def blocked (stage : Stage) (d : Dependency) : StepOutcome := ⟨stage, some d⟩

/-- The record is finished for itself; `rest` is what others still owe. -/
def closing (rest : Option Dependency) : StepOutcome :=
  match rest with
  | some d => blocked .nonTransitive d
  | none => finished

end StepOutcome

/-- A cached record and how far it is. -/
structure Entry where
  registry : RegistryId
  key : Key
  /-- `none` until the record is allocated. -/
  record : Option RecordId := none
  /-- The stage as it can be read at any time; `none` before the record is. -/
  published : Option Stage := none
  stage : Stage := .abstract
  /-- What the last step stopped on. -/
  blockedOn : Option Dependency := none
  /-- The thread that runs the steps. -/
  initializer : Option ThreadId := none
  /-- Scratch words, while the initialization is parked. -/
  saved : Option Scratch := none
  queue : List Waiter := []
  deriving DecidableEq

instance : Inhabited Entry := ⟨{ registry := 0, key := default }⟩

/-- What a thread finds when it looks at an entry with a request. -/
inductive Sight
  /-- The request is over. -/
  | answer (r : Response)
  /-- It would have to wait for the initialization it runs itself. -/
  | ownWork (record : RecordId)
  | wait
  deriving DecidableEq

namespace Entry

/-- The record and its published stage. -/
def snapshot? (e : Entry) : Option Response :=
  match e.record, e.published with
  | some r, some s => some ⟨r, s⟩
  | _, _ => none

/-- Whether the record exists and is at `required`. -/
def satisfies (e : Entry) (required : Stage) : Bool :=
  e.record.isSome && e.stage.satisfies required

/-- What the record waits for, if it exists and is not at `required` yet. -/
def blocker? (e : Entry) (required : Stage) : Option Dependency :=
  if e.record.isNone || e.stage.satisfies required then none else e.blockedOn

/-- What `thread` finds. Without a record even a request that does not wait
has to: there is nothing to hand out. -/
def look (e : Entry) (thread : ThreadId) (q : Request) : Sight :=
  match e.snapshot?.filter (q.settledBy ·.stage) with
  | some r => .answer r
  | none =>
    match e.record with
    | none => .wait
    | some r =>
      if q.settledBy e.stage then .answer ⟨r, e.stage⟩
      else if e.initializer = some thread then .ownWork r
      else .wait

/-- The record is allocated. Its initializer is the thread that made it,
unless nothing is left to do. -/
def finishAllocation (e : Entry) (thread : ThreadId) (record : RecordId) (stage : Stage) : Entry :=
  { e with
    record := some record
    published := some stage
    stage := stage
    initializer := if stage = .complete then e.initializer else some thread }

/-- The entry after a step, and the waiters that are let go. -/
def publish (e : Entry) (o : StepOutcome) : Entry × List Waiter :=
  let stage := e.stage.later o.stage
  let split := e.queue.partition fun w => stage.satisfies w.required
  ({ e with
      published := some stage
      stage := stage
      blockedOn := o.dependency
      initializer := if stage = .complete then none else e.initializer
      queue := split.2 }, split.1)

def suspend (e : Entry) (scratch : Scratch) : Entry :=
  { e with initializer := none, saved := some scratch }

/-- Takes a parked initialization up again. -/
def reclaim? (e : Entry) (thread : ThreadId) : Option (Entry × Scratch) :=
  match e.saved with
  | none => none
  | some scratch => some ({ e with saved := none, initializer := some thread }, scratch)

/-- Queues a waiter, unless it need not wait. -/
def enqueue? (e : Entry) (w : Waiter) : Option Entry :=
  if e.satisfies w.required then none else some { e with queue := e.queue ++ [w] }

end Entry

end TypeRecords
