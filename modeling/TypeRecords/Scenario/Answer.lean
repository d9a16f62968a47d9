/-
What a scenario shows.

Records and tables are shown by number: each gets the next number the first
time it is shown. Everything that happens in callbacks is logged, in order, by
the thread it happens on.
-/
import TypeRecords.Store

namespace TypeRecords.Scenario

/-- A record with its number. -/
structure Shown where
  type : String
  id : Nat

structure ShownTable where
  table : Nat
  protocol : String

/-- A dependency with the number of its target. -/
structure ShownDependency where
  on : String
  id : Nat
  required : Stage

/-- A chain of dependencies. -/
structure ShownCycle where
  start : Shown
  links : List ShownDependency
  text : String

/-- What stands in a slot; a function is shown by what it computes. -/
inductive ShownWitness
  | function (value : Nat)
  | associatedType (s : Shown)
  | base (t : ShownTable)
  | associatedConformance (t : ShownTable)

/-- Everything about a record. -/
structure Description where
  shown : Shown
  name : String
  kind : Kind
  origin : Origin
  descriptor : Option String
  extraWords : Option Nat
  superclass : Option Shown
  layout : Option Layout
  arguments : List Shown
  offsets : List Nat
  words : List Nat
  stage : Stage

/-- Where a block of an arena is. -/
inductive BlockPlace
  | page (number offset : Nat)
  | large (aligned : Bool)

mutual

inductive Answer
  | nothing
  | held (s : Shown) (stage : Stage)
  | shown (s : Shown)
  | described (d : Description)
  | same (yes : Bool)
  | offset (o : Option Nat)
  | resolved (s : Shown) (stage : Stage)
  | layoutStep (d : Option ShownDependency) (words : Scratch)
  | keys (order : Ordering) (template arguments : Nat)
  | witnessed (t : ShownTable) (isPattern trivial : Bool)
  | table (t : ShownTable) (conforming : Option Shown) (witnesses : List ShownWitness)
      (words : List Nat)
  | entry (w : Option ShownWitness) (isFunction isAssociatedType : Bool)
  | canonical (s : Shown) (own : Bool) (layout : Option Layout)
  | candidate (name : String) (needsInitializer : Bool) (cached : Option Shown) (own : Shown)
  | cycleFound (c : Option ShownCycle)
  | cycle (c : ShownCycle)
  | cycleText (text fault : String)
  | count (n : Nat)
  | opened (n : Nat)
  | config (c : Config)
  | stats (ledger : Ledger) (arena : ArenaTally) (cached foreign : Nat)
  | block (n : Nat) (place : BlockPlace)
  | freed (n : Nat) (outcome : Arena.Return)
  | thread (name : String) (results : List Answered)
  | spawned (name : String) (blocked : Bool)
  | set (yes : Bool)
  | slot (w : Option ShownWitness)
  | sharedConfig (c : Option Config)
  | installed (yes : Bool) (c : Config)
  | failed (f : Failure)

inductive Event
  | instantiate (type : String)
  | foreign (name : String)
  | witness (protocol type : String)
  | completing (type : String) (words : Scratch)
  | completed (type : String) (words : Scratch) (d : Option ShownDependency)
  | hook (tag : String) (r : Report)
  | answered (a : Answer)

/-- An answer with what was logged while it came about. -/
inductive Answered
  | mk (a : Answer) (log : List Event)

end

/-- Whether an operation has an answer at all. -/
def Answer.isNothing : Answer → Bool
  | nothing => true
  | _ => false

inductive Outcome
  /-- Something declared makes no sense. -/
  | refused
  | finished (results : List Answered)
  /-- The first thread waits for ever. -/
  | deadlock (results : List Answered) (log : List Event)
  /-- A fault ended the process. -/
  | aborted (results : List Answered) (diagnostic : String) (log : List Event)

end TypeRecords.Scenario
