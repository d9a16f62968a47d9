/-
The session: what a scenario remembers across its operations, and the small
programs that look things up in it. A look-up that finds nothing refuses the
operation.
-/
import TypeRecords.Library
import TypeRecords.Scenario.Blocks
import TypeRecords.Scenario.Syntax

namespace TypeRecords.Scenario

/-- What a scenario remembers. -/
structure Session where
  /-- Variables that hold records, the latest binding first. -/
  recordVars : List (String × RecordId) := []
  tableVars : List (String × TableId) := []
  /-- Records in the order they were first shown. -/
  shownRecords : Array RecordId := #[]
  /-- Tables in the order they were first shown. -/
  shownTables : Array TableId := #[]
  /-- Registries in the order they were opened. -/
  registries : Array RegistryId := #[]
  /-- The book of each registry from which blocks were taken. -/
  books : List (RegistryId × Book) := []
  /-- How many callbacks have begun. -/
  callbacks : Nat := 0
  /-- What the current operation of each thread has logged. -/
  log : Array (ThreadId × Event) := #[]
  /-- What each thread's operations have answered. -/
  results : Array (ThreadId × Answered) := #[]
  /-- Threads that have not been joined, by name. -/
  threads : List (String × ThreadId) := []
  hooks : Array HookExpr := #[]

namespace Session

def logOf (s : Session) (t : ThreadId) : List Event :=
  (s.log.toList.filter (·.1 == t)).map (·.2)

def resultsOf (s : Session) (t : ThreadId) : List Answered :=
  (s.results.toList.filter (·.1 == t)).map (·.2)

def logged (s : Session) (t : ThreadId) (e : Event) : Session := { s with log := s.log.push (t, e) }

/-- Begins a new operation of a thread. -/
def clearLog (s : Session) (t : ThreadId) : Session := { s with log := s.log.filter (·.1 != t) }

def answered (s : Session) (t : ThreadId) (a : Answer) : Session :=
  { s with results := s.results.push (t, .mk a (s.logOf t)) }

/-- The number a record is shown with, given now if it has none. -/
def recordNumber (s : Session) (r : RecordId) : Session × Nat :=
  match s.shownRecords.findIdx? (· == r) with
  | some n => (s, n)
  | none => ({ s with shownRecords := s.shownRecords.push r }, s.shownRecords.size)

/-- The number a table is shown with, given now if it has none. -/
def tableNumber (s : Session) (t : TableId) : Session × Nat :=
  match s.shownTables.findIdx? (· == t) with
  | some n => (s, n)
  | none => ({ s with shownTables := s.shownTables.push t }, s.shownTables.size)

def bookOf (s : Session) (r : RegistryId) : Book := (s.books.lookup r).getD {}

def setBook (s : Session) (r : RegistryId) (b : Book) : Session :=
  { s with books := (r, b) :: s.books.filter (·.1 != r) }

end Session

-- ====================================================== what is declared

/-- What the names of a scenario stand for. -/
structure Catalog where
  statics : List (String × RecordId)
  /-- Candidates' own records. -/
  owns : List (String × RecordId)
  candidates : List (String × CandidateId)
  descriptors : List (String × DescriptorId)
  functions : List (String × Nat × Behaviour)
  protocols : List (String × ProtocolId)
  tables : List (String × TableId)
  conformances : List (String × ConformanceId)
  protocolList : List Protocol
  /-- The recipe of each conformance, and whether its tables are all the
  pattern. -/
  recipes : List (Recipe × Bool)
  /-- Offset and data words of each descriptor's records. -/
  extraWords : List Nat
  /-- Whether each candidate has an initializer. -/
  initializers : List Bool
  /-- The settings the shared registry is opened with when nobody has set any;
  `none` if there is no shared registry. -/
  sharedConfig : Option Config

/-- Splits off the first character. -/
def headTail (name : String) : Option (Char × String) :=
  match name.toList with
  | [] => none
  | c :: rest => some (c, String.ofList rest)

/-- The record a name stands for by declaration: that of a static, a
candidate's own, or a builtin. -/
def declared? (statics owns : List (String × RecordId)) (name : String) : Option RecordId :=
  match headTail name with
  | some ('@', id) => statics.lookup id
  | some ('#', id) => owns.lookup id
  | _ => Records.builtin? name

/-- The record a name stands for by declaration. -/
def Catalog.declared? (c : Catalog) (name : String) : Option RecordId :=
  Scenario.declared? c.statics c.owns name

def Behaviour.value (b : Behaviour) (rs : Records) (type : RecordId) : Nat :=
  match b with
  | constant n => n
  | nameLength => ((rs[type]?).map (·.name.utf8ByteSize)).getD 0
  | argumentCount => (rs.argumentsOf type).length
  | size => ((rs.layoutOf type).map (·.size)).getD 0
  | displayLength => (rs.display type).utf8ByteSize

-- ====================================================== scopes

/-- Which callback a script belongs to. -/
inductive Role
  /-- None: it is the operations of a thread. -/
  | thread
  | instantiate
  | complete
  | initializer
  | instantiator
  | accessor
  deriving DecidableEq

/-- The registry operations are for, unless they say otherwise. -/
inductive Home
  | registry (id : RegistryId)
  | shared

/-- What a running script can refer to. -/
structure Scope where
  role : Role
  home : Home
  /-- The callback's record, or the conforming type. -/
  self : Option RecordId := none
  arguments : List RecordId := []
  /-- The arguments of an instantiation. -/
  tables : List TableId := []
  /-- The record whose layout is published if no other is named. -/
  subject : Option RecordId := none

-- ====================================================== small programs

abbrev Act := Program Session

def refuse {α : Type} : Act α := .fail .refused

/-- What is there, or a refusal. -/
def demand {α : Type} : Option α → Act α
  | some a => pure a
  | none => refuse

def world : Act (Store × Session) := .look fun _ s x => pure (s, x)

/-- Changes the session and goes on with what the change hands out. -/
def change {α : Type} (f : Session → Session × α) : Act α :=
  .look fun _ _ x => .edit (fun _ => (f x).1) (pure (f x).2)

def remember (f : Session → Session) : Act Unit := .edit f (pure ())

def act (a : Action) : Act a.Reply := .act a pure

/-- Logs an event on this thread. -/
def emit (e : Event) : Act Unit := .look fun t _ _ => .edit (·.logged t e) (pure ())

/-- How many callbacks a scenario may begin. -/
def callbackLimit : Nat := 200

/-- Counts a callback. -/
def enterCallback : Act Unit := do
  let n ← change fun s => ({ s with callbacks := s.callbacks + 1 }, s.callbacks + 1)
  if callbackLimit < n then .fail .exhausted else pure ()

/-- The registry operations are for. The shared one is opened if need be. -/
def registryOf (c : Catalog) : Home → Act RegistryId
  | .registry id => pure id
  | .shared => do
    let config ← demand c.sharedConfig
    let opened ← act (.share config)
    pure opened.1

/-- The registry a place means. -/
def homeOf (c : Catalog) : Place → Act Home
  | .numbered n => do
    let (_, session) ← world
    return .registry (← demand session.registries[n]?)
  | .shared => if c.sharedConfig.isSome then pure .shared else refuse

-- ====================================================== showing

def present (r : RecordId) : Act Shown := do
  let (store, _) ← world
  let id ← change (·.recordNumber r)
  return ⟨store.records.display r, id⟩

def presentAll : List RecordId → Act (List Shown)
  | [] => pure []
  | r :: rest => do
    let first ← present r
    return first :: (← presentAll rest)

/-- Shows a record if there is one. -/
def presentSome : Option RecordId → Act (Option Shown)
  | none => pure none
  | some r => return some (← present r)

def presentTable (c : Catalog) (t : TableId) : Act ShownTable := do
  let (store, _) ← world
  let table ← demand store.tables[t]?
  let id ← change (·.tableNumber t)
  return ⟨id, ((c.protocolList[table.protocol]?).map (·.name)).getD ""⟩

def presentDependency (d : Dependency) : Act ShownDependency := do
  let (store, _) ← world
  let id ← change (·.recordNumber d.target)
  return ⟨store.records.displayDependency d, id, d.required⟩

/-- Shows a dependency if there is one. -/
def presentDependency? : Option Dependency → Act (Option ShownDependency)
  | none => pure none
  | some d => return some (← presentDependency d)

def presentDependencies : List Dependency → Act (List ShownDependency)
  | [] => pure []
  | d :: rest => do
    let first ← presentDependency d
    return first :: (← presentDependencies rest)

def presentCycle (c : Cycle) : Act ShownCycle := do
  let start ← present c.start
  let links ← presentDependencies c.links
  let (store, _) ← world
  return ⟨start, links, c.diagnostic store.records Cycle.standardLimit⟩

/-- Shows what stands in a slot, for a type. -/
def presentWitness (c : Catalog) (type : RecordId) : Witness → Act ShownWitness
  | .function f => do
    let (store, _) ← world
    let behaviour := (c.functions.find? (·.2.1 == f)).map (·.2.2)
    return .function ((behaviour.map (·.value store.records type)).getD 0)
  | .associatedType r => return .associatedType (← present r)
  | .base t => return .base (← presentTable c t)
  | .associatedConformance t => return .associatedConformance (← presentTable c t)

/-- Shows a slot that may be empty. -/
def presentWitness? (c : Catalog) (type : RecordId) : Option Witness → Act (Option ShownWitness)
  | none => pure none
  | some w => return some (← presentWitness c type w)

def presentWitnesses (c : Catalog) (type : RecordId) : List Witness → Act (List ShownWitness)
  | [] => pure []
  | w :: rest => do
    let first ← presentWitness c type w
    return first :: (← presentWitnesses c type rest)

-- ====================================================== requests

def request (r : RegistryId) (q : Request) (c : Call) : Act Response := .request r q c pure

/-- Stores a record in a variable, if one is named. -/
def bindRecord (bind : Option String) (r : RecordId) : Act Unit :=
  match bind with
  | none => pure ()
  | some v => remember fun s => { s with recordVars := (v, r) :: s.recordVars }

/-- Stores a table in a variable, if one is named. -/
def bindTable (bind : Option String) (t : TableId) : Act Unit :=
  match bind with
  | none => pure ()
  | some v => remember fun s => { s with tableVars := (v, t) :: s.tableVars }

end TypeRecords.Scenario
