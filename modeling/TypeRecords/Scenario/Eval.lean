/-
Evaluation of expressions.

Evaluating an expression plainly makes the records it names and asks nothing
of them; evaluating it with a request makes the outermost record with that
request, or checks it. Parts are evaluated from left to right.
-/
import TypeRecords.Scenario.Session

namespace TypeRecords.Scenario

/-- The request an expression is evaluated with when nothing is asked of its
record. -/
def plain : Request := .poll .abstract

/-- The record a name stands for: the one the callback is for, a variable, or a declared
one. -/
def evalName (c : Catalog) (sc : Scope) (name : String) : Act RecordId := do
  let (_, session) ← world
  if name = "self" then demand sc.self
  else
    match headTail name with
    | some ('$', v) => demand (session.recordVars.lookup v)
    | _ => demand (c.declared? name)

mutual

/-- The record an expression stands for, which is made if there is none yet. -/
def evalType (c : Catalog) (sc : Scope) : TypeExpr → Act RecordId
  | .named name => evalName c sc name
  | .argument index => demand sc.arguments[index]?
  | .superclass t => do
    let r ← evalType c sc t
    let (store, _) ← world
    demand ((store.records[r]?).bind (·.superclass))
  | .element t index => do
    let r ← evalType c sc t
    let (store, _) ← world
    demand (store.records.argumentsOf r)[index]?
  | .unique candidate => do
    let id ← demand (c.candidates.lookup candidate)
    let registry ← registryOf c sc.home
    .canonical registry id pure
  | .get descriptor arguments q => do
    let id ← demand (c.descriptors.lookup descriptor)
    let rs ← evalTypes c sc arguments
    let registry ← registryOf c sc.home
    return (← request registry (q.getD plain) (.generic id rs)).record
  | .tuple elements q => do
    let rs ← evalTypes c sc elements
    let registry ← registryOf c sc.home
    return (← request registry (q.getD plain) (.tuple rs)).record
  | .asked _ t => evalType c sc t
  | .unreadable => refuse

/-- The records of several expressions. -/
def evalTypes (c : Catalog) (sc : Scope) : List TypeExpr → Act (List RecordId)
  | [] => pure []
  | t :: rest => do
    let first ← evalType c sc t
    return first :: (← evalTypes c sc rest)

end

/-- Evaluates an expression with a request. -/
def evalWith (c : Catalog) (sc : Scope) (q : Request) : TypeExpr → Act Response
  | .get descriptor arguments own => do
    let id ← demand (c.descriptors.lookup descriptor)
    let rs ← evalTypes c sc arguments
    let registry ← registryOf c sc.home
    request registry (own.getD q) (.generic id rs)
  | .tuple elements own => do
    let rs ← evalTypes c sc elements
    let registry ← registryOf c sc.home
    request registry (own.getD q) (.tuple rs)
  | .asked own t => evalWith c sc own t
  | t => do
    let r ← evalType c sc t
    let registry ← registryOf c sc.home
    request registry q (.check r)

mutual

/-- The witness table an expression stands for. -/
def evalTable (c : Catalog) (sc : Scope) : TableExpr → Act TableId
  | .named name => do
    let (_, session) ← world
    match headTail name with
    | some ('$', v) => demand (session.tableVars.lookup v)
    | _ => demand (c.tables.lookup name)
  | .argument index => demand sc.tables[index]?
  | .pattern conformance => do
    let id ← demand (c.conformances.lookup conformance)
    return (← demand c.recipes[id]?).1.pattern
  | .witness conformance t arguments => do
    let id ← demand (c.conformances.lookup conformance)
    let type ← evalType c sc t
    let tables ← evalTables c sc arguments
    let registry ← registryOf c sc.home
    .table registry id type tables pure
  | .unreadable => refuse

/-- The witness tables of several expressions. -/
def evalTables (c : Catalog) (sc : Scope) : List TableExpr → Act (List TableId)
  | [] => pure []
  | t :: rest => do
    let first ← evalTable c sc t
    return first :: (← evalTables c sc rest)

end

/-- What an expression puts into a slot of a witness table. -/
def evalWitness (c : Catalog) (sc : Scope) : WitnessExpr → Act Witness
  | .function name => return .function (← demand (c.functions.lookup name)).1
  | .associatedType t => return .associatedType (← evalType c sc t)
  | .base t => return .base (← evalTable c sc t)
  | .associatedConformance t => return .associatedConformance (← evalTable c sc t)
  | .unreadable => refuse

/-- The record an operation is for: the one named, or the callback's. -/
def evalSelf (c : Catalog) (sc : Scope) : Option TypeExpr → Act RecordId
  | some t => evalType c sc t
  | none => demand sc.self

end TypeRecords.Scenario
