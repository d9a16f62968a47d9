/-
The machine: who is doing what.

A thread is a control, which says what it does next, on top of a stack of
frames, which say who waits for the outcome and what they do with it. Every
call into a registry that can run callbacks is spelled out this way. So the
questions one asks about a process - who is completing this record, who waits
for whom, what is lost when a fault unwinds - are questions about the data
below.
-/
import TypeRecords.Library

namespace TypeRecords

-- ====================================================== work in progress

/-- An initialization that a thread is running. -/
structure Drive where
  registry : RegistryId
  entry : EntryId
  record : RecordId
  /-- The request that started it; it says whether dependencies are waited for
  or parked on. -/
  request : Request
  /-- The stage last published. -/
  stage : Stage
  scratch : Scratch
  deriving DecidableEq

/-- A record whose entry waits for its allocation to be finished. -/
structure Allocation where
  registry : RegistryId
  entry : EntryId
  record : RecordId
  request : Request
  deriving DecidableEq

/-- A struct layout part of the way through the fields. -/
structure FieldWalk (σ : Type) : Type 1 where
  registry : RegistryId
  record : RecordId
  scratch : Scratch
  todo : List (Field σ)
  /-- The number of the next field. -/
  index : Nat
  /-- Layouts of the fields before it. -/
  layouts : List Layout

/-- A tuple's completion step part of the way through the elements. -/
structure ElementWalk where
  drive : Drive
  todo : List RecordId
  /-- Stages of the elements before them. -/
  stages : List Stage
  deriving DecidableEq

/-- A witness table that is being built. -/
structure TableJob where
  registry : RegistryId
  cell : CellId
  conformance : ConformanceId
  conforming : RecordId
  deriving DecidableEq

/-- A foreign name that is being registered or waited for. -/
structure NameJob where
  registry : RegistryId
  candidate : CandidateId
  /-- The position of the name in the registry. -/
  position : Nat
  deriving DecidableEq

-- ====================================================== frames

/-- What a finished piece of work hands to whoever waits for it. -/
inductive Value
  | unit
  | dependency (d : Option Dependency)
  | response (r : Response)
  | table (t : TableId)
  | record (r : RecordId)
  deriving DecidableEq

/-- What a callback may change while it runs, and leaves behind. -/
inductive Local
  | nothing
  | scratch (words : Scratch)
  | draft (d : Draft)
  deriving DecidableEq

/-- What belongs to a running program besides its next node. -/
structure Setting (σ : Type) : Type 1 where
  /-- Handlers that are armed, the innermost first. -/
  handlers : List (Failure → Program σ Value)
  locals : Local

def Setting.start {σ : Type} (l : Local) : Setting σ := ⟨[], l⟩

/-- Someone who waits for a piece of work. -/
inductive Frame (σ : Type) : Type 1
  /-- A program that requested a record. -/
  | forResponse (k : Response → Program σ Value) (s : Setting σ)
  /-- A program that asked for a struct layout. -/
  | forLayout (k : Option Dependency → Scratch → Program σ Value) (s : Setting σ)
  /-- A program that requested a witness table. -/
  | forTable (k : TableId → Program σ Value) (s : Setting σ)
  /-- A program that requested a canonical record. -/
  | forRecord (k : RecordId → Program σ Value) (s : Setting σ)
  /-- The allocation of a record, during its instantiation callback. -/
  | allocating (a : Allocation)
  /-- A completion step, during its callback. -/
  | stepping (d : Drive)
  /-- A struct layout, while it finds the record of its next field. -/
  | laying (w : FieldWalk σ)
  /-- A tuple's completion step, while it looks at its next element. -/
  | measuring (w : ElementWalk)
  /-- An initialization that waits for what stopped it. -/
  | relying (d : Drive)
  /-- An initialization that has published a step and takes up the waiters it
  let go; the rest of them is still to come. -/
  | releasing (d : Drive) (dependency : Option Dependency) (rest : List Waiter)
  /-- The building of a witness table, during its callback. -/
  | filling (j : TableJob)
  /-- The registration of a name, during the candidate's initializer. -/
  | founding (j : NameJob)
  /-- The reporting of a fault, during a hook. -/
  | reporting (r : Report) (rest : List HookId) (policy : FaultPolicy)

-- ====================================================== threads

inductive Control (σ : Type) : Type 1
  | run (p : Program σ Value) (s : Setting σ)
  /-- It hands the outcome of its work to the topmost frame. -/
  | give (v : Value) (left : Local)
  | unwind (f : Failure)
  /-- It wants an entry to be as requested. -/
  | await (registry : RegistryId) (entry : EntryId) (q : Request)
  /-- It has allocated a record. -/
  | allocated (a : Allocation)
  | begin (d : Drive)
  | lay (w : FieldWalk σ)
  | measure (w : ElementWalk)
  | publish (d : Drive) (o : StepOutcome)
  /-- It takes up the waiters that were let go. -/
  | release (d : Drive) (dependency : Option Dependency) (ready : List Waiter)
  /-- It decides how to wait for what stopped it. -/
  | stopped (d : Drive) (dependency : Dependency)
  /-- It has parked an initialization and queues it. -/
  | enqueue (d : Drive) (dependency : Dependency)
  | acquire (j : TableJob) (arguments : List TableId)
  /-- It waits for a foreign name; `heard` announcements were made when it
  last looked. -/
  | standBy (j : NameJob) (heard : Nat)
  /-- It shows a report to hooks. -/
  | report (r : Report) (hooks : List HookId) (policy : FaultPolicy)
  | ended

structure Thread (σ : Type) : Type 1 where
  name : String
  control : Control σ
  frames : List (Frame σ) := []

/-- A process: what is stored, what programs share, and the threads. -/
structure Machine (σ : Type) : Type 1 where
  store : Store
  shared : σ
  threads : Array (Thread σ)

/-- The part of a process that a step of one thread works on. -/
structure Turn (σ : Type) : Type 1 where
  store : Store
  shared : σ
  control : Control σ
  frames : List (Frame σ)

/-- The thread whose turn it is. -/
structure Actor where
  id : ThreadId
  name : String

namespace Turn

variable {σ : Type}

/-- Goes on with `c`. -/
def goto (t : Turn σ) (c : Control σ) : Turn σ := { t with control := c }

/-- Goes on with `c`, and with a frame that waits for it. -/
def push (t : Turn σ) (f : Frame σ) (c : Control σ) : Turn σ :=
  { t with control := c, frames := f :: t.frames }

/-- Runs a callback for the topmost frame. -/
def call {α : Type} (t : Turn σ) (f : Frame σ) (p : Program σ α) (value : α → Value) (l : Local) :
    Turn σ :=
  t.push f (.run (p.bind fun a => .done (value a)) (.start l))

/-- Hands a response to the topmost frame. -/
def respond (t : Turn σ) (r : Response) : Turn σ := t.goto (.give (.response r) .nothing)

def raise (t : Turn σ) (a : Actor) (policy : FaultPolicy) (limit : Nat) (fault : Fault) : Turn σ :=
  let reported := t.store.reportFault limit fault a.name
  { t with
    store := reported.1
    control := .report reported.2 t.store.hooks policy }

/-- Reports a fault the way a registry is configured to. -/
def raiseIn (t : Turn σ) (a : Actor) (registry : RegistryId) (fault : Fault) : Turn σ :=
  let config := (t.store.registries[registry]?.map (·.config)).getD default
  t.raise a config.faultPolicy config.diagnosticLimit fault

/-- Looks a record up in a registry and wants it as requested. What the
registry does not keep is finished. -/
def consult (t : Turn σ) (registry : RegistryId) (q : Request) (record : RecordId) : Turn σ :=
  match t.store.entryOf? registry record with
  | some e => t.goto (.await registry e q)
  | none => t.respond (.finished record)

end Turn

end TypeRecords
