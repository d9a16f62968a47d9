/-
From a scenario to a process: what is declared becomes a library, the scripts
in it become callbacks, and the operations become the first thread.
-/
import TypeRecords.Machine.Run
import TypeRecords.Scenario.Perform

namespace TypeRecords.Scenario

-- ====================================================== callbacks

/-- Runs a script as an instantiation callback. -/
def instantiateWith (c : Catalog) (script : Script) (r : RegistryId) (record : RecordId) :
    Act Unit := do
  enterCallback
  let (store, _) ← world
  emit (.instantiate (store.records.display record))
  let _ ← performScript c
    { role := .instantiate, home := .registry r, self := some record
      arguments := store.records.argumentsOf record, subject := some record } script

/-- Runs a script as a completion callback. -/
def completeWith (c : Catalog) (script : Script) (r : RegistryId) (record : RecordId) :
    Act (Option Dependency) := do
  enterCallback
  let (store, _) ← world
  let name := store.records.display record
  emit (.completing name (← Program.scratch id pure))
  let left ← performScript c
    { role := .complete, home := .registry r, self := some record
      arguments := store.records.argumentsOf record, subject := some record } script
  let shown ← presentDependency? left.join
  emit (.completed name (← Program.scratch id pure) shown)
  return left.join

/-- Runs a script as the initializer of a candidate. -/
def initializeWith (c : Catalog) (script : Script) (candidate : CandidateId) (r : RegistryId) :
    Act Unit := do
  enterCallback
  let (store, _) ← world
  let own ← demand store.candidates[candidate]?
  emit (.foreign own.name)
  let _ ← performScript c
    { role := .initializer, home := .registry r, subject := some own.record } script

/-- Runs a script as the callback of a conformance. -/
def conformWith (c : Catalog) (script : Script) (protocol : ProtocolId) (r : RegistryId)
    (type : RecordId) (tables : List TableId) : Act Unit := do
  enterCallback
  let (store, _) ← world
  let name := ((c.protocolList[protocol]?).map (·.name)).getD ""
  emit (.witness name (store.records.display type))
  let _ ← performScript c
    { role := .instantiator, home := .registry r, self := some type, tables := tables
      subject := some type } script

/-- Evaluates an expression as the accessor of a field. -/
def accessWith (c : Catalog) (t : TypeExpr) (r : RegistryId) (q : Request)
    (arguments : List RecordId) : Act Response := do
  enterCallback
  evalWith c { role := .accessor, home := .registry r, arguments := arguments } q t

-- ====================================================== declarations

def numbered (first : Nat) (names : List String) : List (String × Nat) :=
  names.mapIdx fun i name => (name, first + i)

/-- What a declared slot holds. -/
def declaredWitness? (types : String → Option RecordId) (functions tables : List (String × Nat)) :
    WitnessExpr → Option Witness
  | .function name => (functions.lookup name).map .function
  | .associatedType (.named name) => (types name).map .associatedType
  | .base (.named name) => (tables.lookup name).map .base
  | .associatedConformance (.named name) => (tables.lookup name).map .associatedConformance
  | _ => none

/-- All of a list, if all of it is there. -/
def allOf {α : Type} : List (Option α) → Option (List α)
  | [] => some []
  | x :: rest => do return (← x) :: (← allOf rest)

def ProtocolDecl.protocol? (functions : List (String × Nat)) (p : ProtocolDecl) :
    Option Protocol := do
  let requirements ← allOf <| p.requirements.map fun (name, kind, default) =>
    match default with
    | none => some (Requirement.mk name kind none)
    | some f => (functions.lookup f).map fun f => ⟨name, kind, some f⟩
  return ⟨p.name, requirements⟩

/-- A witness for one requirement, as declared. -/
def declaredResilient? (protocols : List (String × ProtocolId)) (protocolList : List Protocol)
    (functions : List (String × Nat)) (r : String × Nat × String) : Option Resilient := do
  let protocol ← protocols.lookup r.1
  let p ← protocolList[protocol]?
  let function ← functions.lookup r.2.2
  if r.2.1 < p.requirements.length then return ⟨protocol, r.2.1, function⟩ else none

def fieldOf? (c : Catalog) (types : String → Option RecordId) (f : String × FieldDecl) :
    Option (Field Session) :=
  match f.2 with
  | .argument index => some ⟨f.1, .argument index⟩
  | .fixed name => (types name).map fun r => ⟨f.1, .fixed r⟩
  | .computed t => some ⟨f.1, .computed (accessWith c t)⟩

def fieldsOf? (c : Catalog) (types : String → Option RecordId) :
    List (String × FieldDecl) → Option (List (Field Session))
  | [] => some []
  | f :: rest =>
    match fieldOf? c types f, fieldsOf? c types rest with
    | some first, some others => some (first :: others)
    | _, _ => none

def descriptorOf? (c : Catalog) (types : String → Option RecordId) (d : DescriptorDecl) :
    Option (Descriptor Session) :=
  (fieldsOf? c types d.fields).map fun fields =>
    { name := d.name
      kind := d.kind
      parameters := d.parameters
      fields := fields
      layout := d.layout
      words := d.words
      instantiate := d.instantiate.map (instantiateWith c)
      completion := d.completion.map fun
        | .structLayout => .structLayout
        | .script ops => .callback (completeWith c ops) }

def descriptorsOf? (c : Catalog) (types : String → Option RecordId) :
    List DescriptorDecl → Option (List (Descriptor Session))
  | [] => some []
  | d :: rest =>
    match descriptorOf? c types d, descriptorsOf? c types rest with
    | some first, some others => some (first :: others)
    | _, _ => none

-- ====================================================== loading

/-- What the declarations amount to, scripts and fields apart. -/
structure Contents where
  /-- Statics and candidates' own records, by name. -/
  statics : List (String × RecordId)
  owns : List (String × RecordId)
  functions : List (String × Nat)
  protocols : List (String × ProtocolId)
  protocolList : List Protocol
  /-- Tables that are there from the start. -/
  tables : List WitnessTable
  recipes : List Recipe

/-- Looks up all that is declared. Static tables may use the tables before
them. -/
def Plan.contents? (p : Plan) : Option Contents := do
  let statics := numbered Records.builtins.size (p.statics.map (·.id))
  let owns := numbered (Records.builtins.size + statics.length) (p.candidates.map (·.id))
  let types := declared? statics owns
  let functions := numbered 0 (p.functions.map (·.1))
  let protocols := numbered 0 (p.protocols.map (·.id))
  let protocolList ← allOf (p.protocols.map (·.protocol? functions))
  let tableNames := numbered 0 (p.tables.map (·.id))
  let tables ← allOf <| p.tables.mapIdx fun i t => do
    let protocol ← protocols.lookup t.protocol
    let witnesses ← allOf (t.witnesses.map (declaredWitness? types functions (tableNames.take i)))
    return WitnessTable.mk protocol none witnesses []
  let recipes ← allOf <| p.conformances.mapIdx fun i d => do
    let protocol ← protocols.lookup d.protocol
    let prefilled ← allOf (d.witnesses.map (declaredWitness? types functions tableNames))
    let resilient ← allOf
      (d.resilient.map (declaredResilient? protocols protocolList functions))
    return Recipe.mk protocol (tables.length + i) prefilled resilient d.privateWords
  return { statics, owns, functions, protocols, protocolList, tables, recipes }

/-- What the names of a scenario stand for. -/
def Plan.catalog (p : Plan) (n : Contents) : Catalog :=
  let trivial := (n.recipes.zip p.conformances).map fun (recipe, d) =>
    (recipe, d.instantiator.isNone &&
      ((n.protocolList[recipe.protocol]?).map recipe.isPlain).getD false)
  { statics := n.statics
    owns := n.owns
    candidates := numbered 0 (p.candidates.map (·.id))
    descriptors := numbered 0 (p.descriptors.map (·.id))
    functions := p.functions.mapIdx fun i f => (f.1, i, f.2)
    protocols := n.protocols
    tables := numbered 0 (p.tables.map (·.id))
    conformances := numbered 0 (p.conformances.map (·.id))
    protocolList := n.protocolList
    recipes := trivial
    extraWords := p.descriptors.map fun d => d.fields.length + d.words.length
    initializers := p.candidates.map (·.initializer.isSome)
    sharedConfig := p.environment.map Config.ofEnvironment }

def Plan.library (p : Plan) (n : Contents) (c : Catalog)
    (descriptors : List (Descriptor Session)) : Library Session :=
  { descriptors := descriptors.toArray
    protocols := n.protocolList.toArray
    conformances := ((n.recipes.zip p.conformances).map fun (recipe, d) =>
      Conformance.mk recipe (d.instantiator.map fun ops =>
        conformWith c ops recipe.protocol)).toArray
    initializer := fun candidate =>
      ((p.candidates[candidate]?).bind (·.initializer)).map fun ops =>
        initializeWith c ops candidate
    hook := runHook }

/-- What is stored before anything has happened. -/
def Plan.store (p : Plan) (n : Contents) : Store :=
  let firstOwn := Records.builtins.size + n.statics.length
  let patterns := n.recipes.map fun recipe =>
    WitnessTable.mk recipe.protocol none recipe.prefilled []
  { records := Records.builtins
      ++ (p.statics.map (·.record)).toArray
      ++ (p.candidates.map fun d => Record.ofForeign d.name d.layout).toArray
    tables := (n.tables ++ patterns).toArray
    candidates :=
      (p.candidates.mapIdx fun i d => Candidate.mk d.name (firstOwn + i) none).toArray }

/-- A scenario whose declarations make sense. -/
structure Loaded : Type 1 where
  catalog : Catalog
  library : Library Session
  store : Store

/-- Makes a library and a store of what is declared. -/
def Plan.load? (p : Plan) : Option Loaded :=
  match p.contents? with
  | none => none
  | some n =>
    let c := p.catalog n
    match descriptorsOf? c c.declared? p.descriptors with
    | none => none
    | some descriptors => some ⟨c, p.library n c descriptors, p.store n⟩

-- ====================================================== running

/-- The process of a scenario before its first step. -/
def Plan.machine (p : Plan) (l : Loaded) : Machine Session :=
  let opened := l.store.addRegistry (l.catalog.configOf p.config)
  let home := if p.environment.isSome then .shared else .registry opened.2
  { store := opened.1
    shared := { registries := #[opened.2] }
    threads := #[.start "case" (performThread l.catalog { role := .thread, home := home } p.ops)] }

/-- Steps a run is given. Scenarios are much shorter: they may begin only so
many callbacks, and between two of them there are only so many fields,
elements and waiters to go through. -/
def patience : Nat := 1000000000

/-- What a process shows when it can go no further. -/
def outcome (m : Machine Session) : Outcome :=
  let results := m.shared.resultsOf 0
  match m.store.halted with
  | some diagnostic => .aborted results diagnostic (m.shared.logOf 0)
  | none => if m.hasEnded 0 then .finished results else .deadlock results (m.shared.logOf 0)

def Plan.run (p : Plan) : Outcome :=
  match p.load? with
  | none => .refused
  | some l => outcome ((p.machine l).run l.library patience 0)

end TypeRecords.Scenario
