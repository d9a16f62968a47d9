/-
Carrying out operations.

`answer` covers the operations that stand by themselves, `perform` adds those
that contain other operations or end a script. A failure inside an operation
unwinds to the nearest operation that catches it; the operations of a thread
always do.
-/
import TypeRecords.Scenario.Eval

namespace TypeRecords.Scenario

-- ====================================================== records

/-- Everything about a record, looked up in the order it is shown. -/
def describe (c : Catalog) (sc : Scope) (t : TypeExpr) : Act Answer := do
  let id ← evalType c sc t
  let shown ← present id
  let (store, _) ← world
  let r ← demand store.records[id]?
  let superclass ← presentSome r.superclass
  let arguments ← presentAll r.arguments
  let registry ← registryOf c sc.home
  let state ← request registry (.poll .complete) (.check id)
  let descriptor := match r.origin with
    | .generic d => some d
    | _ => none
  return .described
    { shown, superclass, arguments
      name := r.name
      kind := r.kind
      origin := r.origin
      descriptor := descriptor.map fun _ => r.name
      extraWords := descriptor.bind fun d => c.extraWords[d]?
      layout := r.layout
      offsets := r.offsets
      words := r.words
      stage := state.stage }

/-- Publishes the layout of a record. Those every process starts with keep
theirs. -/
def publish (r : RecordId) (l : Layout) : Act Answer := do
  if Records.isBuiltin r then refuse
  let _ ← act (.publish r l)
  return .nothing

/-- Sets a data word of a record. -/
def storeWord (r : RecordId) (index value : Nat) : Act Answer := do
  let (store, _) ← world
  let record ← demand store.records[r]?
  if record.words.length ≤ index then refuse
  let _ ← act (.storeWord r index value)
  return .nothing

/-- Finds the record of a field. -/
def resolve (c : Catalog) (sc : Scope) (owner : TypeExpr) (field : FieldExpr) (q : Request) :
    Act Answer := do
  let id ← evalType c sc owner
  let registry ← registryOf c sc.home
  let (store, _) ← world
  let r ← demand store.records[id]?
  let target ← match field with
    | .fixed name => demand (c.declared? name)
    | .argument index =>
      match r.arguments[index]? with
      | some a => pure a
      | none => do
        let config := (store.registries[registry]?.map (·.config)).getD default
        .raise config.faultPolicy config.diagnosticLimit
          (.argumentCount r.name (index + 1) r.arguments.length)
  let response ← request registry q (.check target)
  return .resolved (← present response.record) response.stage

/-- Scratch words from those given; the rest are zero. -/
def scratchOf (words : List Nat) : Scratch := Vector.ofFn fun i => (words[i.val]?).getD 0

/-- One layout step of a record. -/
def layoutStep (c : Catalog) (sc : Scope) (t : Option TypeExpr) (words : List Nat) :
    Act Answer := do
  let id ← evalSelf c sc t
  if Records.isBuiltin id || 4 < words.length then refuse
  let registry ← registryOf c sc.home
  let (stop, left) ← Program.structLayout registry id (scratchOf words) fun d w => pure (d, w)
  return .layoutStep (← presentDependency? stop) left

/-- The order of two lists of records: that of the first difference, and
otherwise the shorter one comes first. -/
def compareRecords : List RecordId → List RecordId → Ordering
  | [], [] => .eq
  | [], _ => .lt
  | _, [] => .gt
  | a :: as, b :: bs => (compare a b).then (compareRecords as bs)

-- ====================================================== witness tables

def witness (c : Catalog) (sc : Scope) (conformance : String) (t : TypeExpr)
    (arguments : List TableExpr) (bind : Option String) : Act Answer := do
  let id ← demand (c.conformances.lookup conformance)
  let type ← evalType c sc t
  let tables ← evalTables c sc arguments
  let registry ← registryOf c sc.home
  let recipe ← demand c.recipes[id]?
  let table ← Program.table registry id type tables pure
  bindTable bind table
  return .witnessed (← presentTable c table) (table == recipe.1.pattern) recipe.2

def showTable (c : Catalog) (sc : Scope) (table : TableExpr) (t : TypeExpr) : Act Answer := do
  let id ← evalTable c sc table
  let type ← evalType c sc t
  let (store, _) ← world
  let found ← demand store.tables[id]?
  let witnesses ← presentWitnesses c type found.witnesses
  let shown ← presentTable c id
  let conforming ← presentSome found.conforming
  return .table shown conforming witnesses found.words

/-- The place of a slot. A name stands for the first requirement of that
name. -/
def slotOf (c : Catalog) (protocol : ProtocolId) : SlotExpr → Option Nat
  | .index i => some i
  | .named name => (c.protocolList[protocol]?).bind (·.position? name)

/-- Shows a slot of a witness table. -/
def witnessAt (c : Catalog) (sc : Scope) (table : TableExpr) (t : TypeExpr) (slot : SlotExpr) :
    Act Answer := do
  let id ← evalTable c sc table
  let type ← evalType c sc t
  let (store, _) ← world
  let found ← demand store.tables[id]?
  let entry := (slotOf c found.protocol slot).bind (found.witnesses[·]?)
  let shown ← presentWitness? c type entry
  return .entry shown
    (match entry with | some (.function _) => true | _ => false)
    (match entry with | some (.associatedType _) => true | _ => false)

/-- Fills a slot of the table under construction. -/
def setWitness (c : Catalog) (sc : Scope) (slot : SlotExpr) (w : WitnessExpr) : Act Answer := do
  if sc.role ≠ .instantiator then refuse
  let value ← evalWitness c sc w
  match slot with
  | .index index => return .set (← Program.fill index value pure)
  | .named name => return .set (← Program.fillNamed (c.protocolList[·]?) name value pure)

/-- Shows a slot of the table under construction. -/
def getWitness (c : Catalog) (sc : Scope) (index : Nat) : Act Answer := do
  if sc.role ≠ .instantiator then refuse
  let type ← demand sc.self
  let draft ← Program.draft pure
  return .slot (← presentWitness? c type (draft.get? index))

/-- Stores a private word of the table under construction. -/
def storePrivate (sc : Scope) (index value : Nat) : Act Answer := do
  if sc.role ≠ .instantiator then refuse
  if ← Program.storePrivate index value pure then return .nothing else refuse

-- ====================================================== candidates

/-- Requests the canonical record of a candidate. -/
def unique (c : Catalog) (sc : Scope) (candidate : String) (bind : Option String) :
    Act Answer := do
  let id ← demand (c.candidates.lookup candidate)
  let registry ← registryOf c sc.home
  let record ← Program.canonical registry id pure
  bindRecord bind record
  let shown ← present record
  let (store, _) ← world
  let own ← demand store.candidates[id]?
  return .canonical shown (own.record == record) (store.records.layoutOf record)

def showCandidate (c : Catalog) (candidate : String) : Act Answer := do
  let id ← demand (c.candidates.lookup candidate)
  let (store, _) ← world
  let found ← demand store.candidates[id]?
  let cached ← presentSome (found.unique.map (·.2))
  let own ← present found.record
  return .candidate found.name ((c.initializers[id]?).getD false) cached own

-- ====================================================== cycles and faults

/-- Evaluates the links of a cycle in order. -/
def evalLinks (c : Catalog) (sc : Scope) : List (TypeExpr × Stage) → Act (List Dependency)
  | [] => pure []
  | (t, required) :: rest => do
    let target ← evalType c sc t
    return ⟨target, required⟩ :: (← evalLinks c sc rest)

/-- Whether waiting would close a cycle. -/
def cycleCheck (c : Catalog) (sc : Scope) (start target : TypeExpr) (required : Stage) :
    Act Answer := do
  let target ← evalType c sc target
  let start ← evalType c sc start
  let registry ← registryOf c sc.home
  let (store, _) ← world
  match store.cycle? registry start ⟨target, required⟩ with
  | none => return .cycleFound none
  | some cycle => return .cycleFound (some (← presentCycle cycle))

/-- Shows a cycle, or its report cut to a limit. -/
def cycleText (c : Catalog) (sc : Scope) (start : TypeExpr) (links : List (TypeExpr × Stage))
    (limit : Option Nat) : Act Answer := do
  let links ← evalLinks c sc links
  let start ← evalType c sc start
  let (store, _) ← world
  match limit with
  | none => return .cycle (← presentCycle ⟨start, links⟩)
  | some limit =>
    let cycle : Cycle := ⟨start, links⟩
    return .cycleText (cycle.diagnostic store.records limit)
      ((Fault.cycle cycle).diagnostic store.records limit)

def FaultExpr.fault : FaultExpr → Fault
  | .reentrant type => .reentrant type
  | .missingWitness protocol requirement type => .missingWitness protocol requirement type
  | .argumentCount descriptor expected actual => .argumentCount descriptor expected actual

def addHook (h : HookExpr) : Act Unit := do
  let id ← change fun s => ({ s with hooks := s.hooks.push h }, s.hooks.size)
  let _ ← act (.addHook id)

/-- What a hook of a scenario does with a report. -/
def runHook (id : HookId) (r : Report) : Act Unit := do
  let (_, session) ← world
  match session.hooks[id]? with
  | none => pure ()
  | some (.mk tag adds) =>
    emit (.hook tag r)
    match adds with
    | none => pure ()
    | some next => addHook next

-- ====================================================== registries

/-- The settings of a registry a scenario opens. Without a shared registry
faults only unwind, whatever was set. -/
def Catalog.configOf (c : Catalog) (settings : List Config.Setting) : Config :=
  let config := Config.build settings
  if c.sharedConfig.isSome then config else config.set (.faultPolicy .unwind)

/-- A registry an operation is for. -/
def registry (c : Catalog) (sc : Scope) : Act (RegistryId × Registry) := do
  let id ← registryOf c sc.home
  let (store, _) ← world
  return (id, ← demand store.registries[id]?)

/-- The settings of the shared registry, which is opened with those given if
it is not open yet; says whether it was. -/
def shareWith (c : Catalog) (config : Config) : Act (Bool × Config) := do
  if c.sharedConfig.isNone then refuse
  let opened ← act (.share config)
  let (store, _) ← world
  let r ← demand store.registries[opened.1]?
  return (opened.2, r.config)

def alloc (c : Catalog) (sc : Scope) (size align : Nat) : Act Answer := do
  if !Book.serves align then refuse
  let (id, r) ← registry c sc
  let (address, pooled) ← act (.takeBlock id size align)
  change fun s =>
    let entered := (s.bookOf id).enter r.arena.limits.pageSize size align address pooled
    (s.setBook id entered.1, entered.2)

def free (c : Catalog) (sc : Scope) (n : Nat) : Act Answer := do
  let (id, _) ← registry c sc
  let (_, session) ← world
  let block ← demand ((session.bookOf id).live? n)
  let outcome ← act (.returnBlock id block.address block.size)
  remember fun s => s.setBook id ((s.bookOf id).strike n)
  return .freed n outcome

-- ====================================================== scratch words

/-- A scratch word of the completion the script belongs to. -/
def scratchWord (sc : Scope) (index : Nat) : Act (Fin 4 × Nat) := do
  if sc.role ≠ .complete then refuse
  if h : index < 4 then
    let words ← Program.scratch id pure
    return (⟨index, h⟩, words[index])
  else refuse

def setScratch (sc : Scope) (index value : Nat) : Act Unit := do
  let (i, _) ← scratchWord sc index
  let _ ← Program.scratch (fun w => w.set i value) pure

-- ====================================================== single operations

/-- Carries out an operation that stands by itself. -/
def answer (c : Catalog) (sc : Scope) : Op → Act Answer
  | .get descriptor arguments q bind => do
    let response ← evalWith c sc q (.get descriptor arguments none)
    bindRecord bind response.record
    return .held (← present response.record) response.stage
  | .tuple elements q bind => do
    let response ← evalWith c sc q (.tuple elements none)
    bindRecord bind response.record
    return .held (← present response.record) response.stage
  | .check t q bind => do
    let response ← evalWith c sc q t
    bindRecord bind response.record
    return .held (← present response.record) response.stage
  | .eval t bind => do
    let id ← evalType c sc t
    bindRecord bind id
    return .shown (← present id)
  | .describe t => describe c sc t
  | .same a b => do
    let a ← evalType c sc a
    let b ← evalType c sc b
    return .same (a == b)
  | .fieldOffset t index => do
    let id ← evalType c sc t
    let (store, _) ← world
    return .offset ((store.records[id]?).bind (·.offsets[index]?))
  | .publish t layout => do
    let r ← match t with
      | some t => evalType c sc t
      | none => demand sc.subject
    publish r layout
  | .storeWord t index value => do storeWord (← evalSelf c sc t) index value
  | .resolve owner field q => resolve c sc owner field q
  | .structLayout t words => layoutStep c sc t words
  | .key a as b bs => do
    let as ← evalTypes c sc as
    let bs ← evalTypes c sc bs
    return .keys ((compare a b).then (compareRecords as bs)) a as.length
  | .witness conformance t arguments bind => witness c sc conformance t arguments bind
  | .table table t => showTable c sc table t
  | .witnessAt table t slot => witnessAt c sc table t slot
  | .sameTable a b => do
    let a ← evalTable c sc a
    let b ← evalTable c sc b
    return .same (a == b)
  | .unique candidate bind => unique c sc candidate bind
  | .candidate candidate => showCandidate c candidate
  | .cycleCheck start target required => cycleCheck c sc start target required
  | .cycleText start links limit => cycleText c sc start links limit
  | .raise fault limit => .raise .unwind limit fault.fault
  | .faultCount => do
    let (store, _) ← world
    return .count store.faults
  | .addHook hook => do
    addHook hook
    return .nothing
  | .clearHooks => do
    let _ ← act .clearHooks
    return .nothing
  | .openRegistry settings => do
    let id ← act (.openRegistry (c.configOf settings))
    let n ← change fun s => ({ s with registries := s.registries.push id }, s.registries.size)
    return .opened n
  | .config => do
    let (_, r) ← registry c sc
    return .config r.config
  | .stats => do
    let (id, r) ← registry c sc
    let (store, _) ← world
    return .stats r.ledger r.arena.tally (store.cachedCount id) r.foreign.length
  | .alloc size align => alloc c sc size align
  | .free block => free c sc block
  | .sharedConfig => do
    if c.sharedConfig.isNone then refuse
    let (store, _) ← world
    return .sharedConfig ((store.shared.bind (store.registries[·]?)).map (·.config))
  | .shareEnvironment => do
    let config ← demand c.sharedConfig
    return .config (← shareWith c config).2
  | .shareConfig settings => do return .config (← shareWith c (Config.build settings)).2
  | .install settings => do
    let (opened, config) ← shareWith c (Config.build settings)
    return .installed opened config
  | .setScratch index value => do
    setScratch sc index value
    return .nothing
  | .setSuperclass t => do
    if sc.role ≠ .instantiate then refuse
    let superclass ← evalType c sc t
    let r ← demand sc.self
    let _ ← act (.setSuperclass r superclass)
    return .nothing
  | .setWitness slot w => setWitness c sc slot w
  | .getWitness index => getWitness c sc index
  | .storePrivate index value => storePrivate sc index value
  | _ => refuse

-- ====================================================== scripts

/-- How a script goes on after an operation. -/
inductive Flow
  /-- With the next operation. -/
  | next (a : Answer)
  /-- Not at all. -/
  | leave (d : Option Dependency)

def start (name : String) (body : Act Unit) : Act ThreadId := .spawn name body pure

/-- Waits for a thread and shows what its operations answered. -/
def finish (name : String) (t : ThreadId) : Act Answer := do
  Program.join t (pure ())
  let (_, session) ← world
  return .thread name (session.resultsOf t)

/-- Lays out the callback's record with the scratch words of its completion. -/
def layoutSelf (c : Catalog) (sc : Scope) : Act (Option Dependency) := do
  let r ← demand sc.self
  let registry ← registryOf c sc.home
  let words ← Program.scratch id pure
  let (stop, left) ← Program.structLayout registry r words fun d w => pure (d, w)
  let _ ← Program.scratch (fun _ => left) pure
  return stop

mutual

def perform (c : Catalog) (sc : Scope) : Op → Act Flow
  | .on place op => do perform c { sc with home := ← homeOf c place } op
  | .caught op => do
    match ← (perform c sc op).attempt with
    | .ok flow => return flow
    | .error f => return .next (.failed f)
  | .thread name ops => do
    let t ← start name (performThread c { role := .thread, home := sc.home } ops)
    return .next (← finish name t)
  | .spawn name ops => do
    let t ← start name (performThread c { role := .thread, home := sc.home } ops)
    remember fun s => { s with threads := (name, t) :: s.threads.filter (·.1 != name) }
    let ended ← Program.settle t pure
    return .next (.spawned name (!ended))
  | .join name => do
    let (_, session) ← world
    let t ← demand (session.threads.lookup name)
    remember fun s => { s with threads := s.threads.filter (·.1 != name) }
    return .next (← finish name t)
  | .require t required => do
    if sc.role = .thread then refuse
    let response ← evalWith c sc (.poll required) t
    if response.stage.satisfies required then return .next .nothing
    else return .leave (some ⟨response.record, required⟩)
  | .depend t required => do
    if sc.role = .thread then refuse
    return .leave (some ⟨← evalType c sc t, required⟩)
  | .leave => if sc.role = .thread then refuse else pure (.leave none)
  | .countScratch index bound ops => do
    let (i, word) ← scratchWord sc index
    if word < bound then
      let _ ← Program.scratch (fun w => w.set i (word + 1)) pure
      match ← performScript c sc ops with
      | some d => return .leave d
      | none => return .next .nothing
    else return .next .nothing
  | .structLayout t words => do
    if sc.role = .complete then
      match ← layoutSelf c sc with
      | some d => return .leave (some d)
      | none => return .next .nothing
    else return .next (← layoutStep c sc t words)
  | op => return .next (← answer c sc op)

/-- Carries out a script. The result says how it was left, if it was. -/
def performScript (c : Catalog) (sc : Scope) : Script → Act (Option (Option Dependency))
  | [] => pure none
  | op :: rest => do
    match ← perform c sc op with
    | .leave d => return some d
    | .next a =>
      if !a.isNothing then emit (.answered a)
      performScript c sc rest

/-- Carries out the operations of a thread, each with a log of its own. -/
def performThread (c : Catalog) (sc : Scope) : List Op → Act Unit
  | [] => pure ()
  | op :: rest => do
    let self ← Program.self
    remember (·.clearLog self)
    match ← (perform c sc op).attempt with
    | .ok (.next a) => remember (·.answered self a)
    | .ok (.leave _) => remember (·.answered self .nothing)
    | .error f => remember (·.answered self (.failed f))
    performThread c sc rest

end

end TypeRecords.Scenario
