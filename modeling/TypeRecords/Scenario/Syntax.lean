/-
Scenarios: a small language for exercising registries.

A scenario declares types, protocols and candidates and then runs operations.
Callbacks are written in the same language: a script is a list of operations
that is run each time the callback is called. Everything is referred to by
name; a name that means nothing is only noticed when the operation that uses
it is carried out.
-/
import TypeRecords.Config
import TypeRecords.Record
import TypeRecords.Witness

namespace TypeRecords.Scenario

-- ====================================================== expressions

inductive TypeExpr
  /-- A builtin, `@static`, `#candidate`, `$variable` or `self`. -/
  | named (name : String)
  | argument (index : Nat)
  | superclass (t : TypeExpr)
  /-- An argument or element of a record. -/
  | element (t : TypeExpr) (index : Nat)
  /-- The canonical record of a candidate. -/
  | unique (candidate : String)
  /-- A descriptor applied to arguments. -/
  | get (descriptor : String) (arguments : List TypeExpr) (q : Option Request)
  | tuple (elements : List TypeExpr) (q : Option Request)
  /-- An expression with a request of its own. -/
  | asked (q : Request) (t : TypeExpr)
  | unreadable
  deriving Inhabited

inductive TableExpr
  /-- A declared table or `$variable`. -/
  | named (name : String)
  /-- An argument of the instantiation. -/
  | argument (index : Nat)
  /-- The pattern of a conformance. -/
  | pattern (conformance : String)
  /-- The table of a conformance and a type. -/
  | witness (conformance : String) (t : TypeExpr) (arguments : List TableExpr)
  | unreadable
  deriving Inhabited

/-- An expression for what stands in a slot. -/
inductive WitnessExpr
  | function (name : String)
  | associatedType (t : TypeExpr)
  | base (t : TableExpr)
  | associatedConformance (t : TableExpr)
  | unreadable

/-- How a slot is chosen. -/
inductive SlotExpr
  | index (i : Nat)
  | named (name : String)

/-- A field whose type does not need a script. -/
inductive FieldExpr
  | argument (index : Nat)
  | fixed (name : String)

/-- Which registry an operation is for. -/
inductive Place
  /-- One of those the scenario has opened. -/
  | numbered (n : Nat)
  /-- The one the process shares. -/
  | shared
  deriving DecidableEq

/-- A fault that is raised by hand. -/
inductive FaultExpr
  | reentrant (type : String)
  | missingWitness (protocol requirement type : String)
  | argumentCount (descriptor : String) (expected actual : Nat)

/-- A hook: it logs its tag, and then registers another one if it has one. -/
inductive HookExpr
  | mk (tag : String) (adds : Option HookExpr)

-- ====================================================== operations

inductive Op
  /-- Carries out an operation on another registry. -/
  | on (place : Place) (op : Op)
  /-- Turns a failure of an operation into its answer. -/
  | caught (op : Op)
  | get (descriptor : String) (arguments : List TypeExpr) (q : Request) (bind : Option String)
  | tuple (elements : List TypeExpr) (q : Request) (bind : Option String)
  | check (t : TypeExpr) (q : Request) (bind : Option String)
  | eval (t : TypeExpr) (bind : Option String)
  | describe (t : TypeExpr)
  | same (a b : TypeExpr)
  | fieldOffset (t : TypeExpr) (index : Nat)
  | publish (t : Option TypeExpr) (layout : Layout)
  | storeWord (t : Option TypeExpr) (index value : Nat)
  | resolve (owner : TypeExpr) (field : FieldExpr) (q : Request)
  /-- In a completion script: lays out the callback's record and ends the
  script if something stopped it. Elsewhere: one layout step of a record. -/
  | structLayout (t : Option TypeExpr) (words : List Nat)
  | key (a : Nat) (as : List TypeExpr) (b : Nat) (bs : List TypeExpr)
  | witness (conformance : String) (t : TypeExpr) (arguments : List TableExpr)
      (bind : Option String)
  | table (table : TableExpr) (t : TypeExpr)
  | witnessAt (table : TableExpr) (t : TypeExpr) (slot : SlotExpr)
  | sameTable (a b : TableExpr)
  | unique (candidate : String) (bind : Option String)
  | candidate (candidate : String)
  | cycleCheck (start target : TypeExpr) (required : Stage)
  | cycleText (start : TypeExpr) (links : List (TypeExpr × Stage)) (limit : Option Nat)
  | raise (fault : FaultExpr) (limit : Nat)
  | faultCount
  | addHook (hook : HookExpr)
  | clearHooks
  | openRegistry (settings : List Config.Setting)
  | config
  | stats
  | alloc (size align : Nat)
  | free (block : Nat)
  | thread (name : String) (ops : List Op)
  | spawn (name : String) (ops : List Op)
  | join (name : String)
  | sharedConfig
  | shareEnvironment
  | shareConfig (settings : List Config.Setting)
  | install (settings : List Config.Setting)
  /-- Ends the script unless a record is where it is required. -/
  | require (t : TypeExpr) (required : Stage)
  /-- Ends the script with a dependency. -/
  | depend (t : TypeExpr) (required : Stage)
  | leave
  | setScratch (index value : Nat)
  /-- If a scratch word is below a bound: counts it up and runs operations. -/
  | countScratch (index bound : Nat) (ops : List Op)
  | setSuperclass (t : TypeExpr)
  | setWitness (slot : SlotExpr) (w : WitnessExpr)
  | getWitness (index : Nat)
  | storePrivate (index value : Nat)
  | unreadable
  deriving Inhabited

abbrev Script := List Op

-- ====================================================== declarations

/-- A record that is there from the start. -/
inductive StaticDecl
  | scalar (id name : String) (layout : Layout)
  | foreign (id name : String) (layout : Option Layout)
  | emptyTuple (id : String)

/-- The name a static is referred to by. -/
def StaticDecl.id : StaticDecl → String
  | scalar id _ _ => id
  | foreign id _ _ => id
  | emptyTuple id => id

def StaticDecl.record : StaticDecl → Record
  | scalar _ name layout => .ofScalar name layout
  | foreign _ name layout => .ofForeign name layout
  | emptyTuple _ => .emptyTuple

structure CandidateDecl where
  id : String
  name : String
  layout : Option Layout
  initializer : Option Script

/-- How the type of a declared field is found. -/
inductive FieldDecl
  | argument (index : Nat)
  | fixed (name : String)
  | computed (t : TypeExpr)

/-- How records of a declared descriptor are completed. -/
inductive CompletionDecl
  | structLayout
  | script (ops : Script)

structure DescriptorDecl where
  id : String
  name : String
  kind : Kind
  parameters : Nat
  fields : List (String × FieldDecl)
  layout : Option Layout
  words : List Nat
  instantiate : Option Script
  completion : Option CompletionDecl

/-- What a witness function computes from a type. -/
inductive Behaviour
  | constant (n : Nat)
  /-- Bytes of the name without arguments. -/
  | nameLength
  | argumentCount
  /-- Bytes of a value, or zero where that is not known. -/
  | size
  /-- Bytes of the whole name. -/
  | displayLength

/-- A protocol; each requirement with the name of its default. -/
structure ProtocolDecl where
  id : String
  name : String
  requirements : List (String × RequirementKind × Option String)

/-- A witness table that is there from the start. -/
structure TableDecl where
  id : String
  protocol : String
  witnesses : List WitnessExpr

structure ConformanceDecl where
  id : String
  protocol : String
  witnesses : List WitnessExpr
  /-- Protocol, requirement and function. -/
  resilient : List (String × Nat × String)
  privateWords : Nat
  instantiator : Option Script

/-- A whole scenario. -/
structure Plan where
  config : List Config.Setting
  /-- The environment of the process; `none` if there is no shared registry
  and faults only unwind. -/
  environment : Option Config.Environment
  statics : List StaticDecl
  candidates : List CandidateDecl
  descriptors : List DescriptorDecl
  functions : List (String × Behaviour)
  protocols : List ProtocolDecl
  tables : List TableDecl
  conformances : List ConformanceDecl
  ops : List Op

end TypeRecords.Scenario
