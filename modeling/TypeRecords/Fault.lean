/-
Faults: what a registry cannot recover from. A fault is a cause; its wording
is one function of the cause. Only the report of a dependency cycle can grow
without bound, so only it is cut to a limit.
-/
import TypeRecords.Record

namespace TypeRecords

-- ====================================================== cycles

/-- A chain of dependencies that leads back into itself. -/
structure Cycle where
  /-- The record whose waiting closed the chain. -/
  start : RecordId
  links : List Dependency
  deriving DecidableEq

namespace Cycle

/-- The first two lines of the report. -/
def headline (rs : Records) (c : Cycle) : String :=
  "runtime error: unresolvable type metadata dependency cycle detected\n  Request for "
    ++ rs.display c.start

def line (rs : Records) (d : Dependency) : String :=
  "\n  depends on " ++ rs.displayDependency d

/-- Adds the lines of `links` to `out` while it is shorter than `limit`. -/
def appendLines (rs : Records) (limit : Nat) : String → List Dependency → String
  | out, [] => out
  | out, d :: rest =>
    if limit ≤ out.utf8ByteSize then out else appendLines rs limit (out ++ line rs d) rest

/-- The characters that fit into `limit` bytes, from the left. -/
def fitting : Nat → List Char → List Char
  | _, [] => []
  | limit, c :: rest =>
    if c.utf8Size ≤ limit then c :: fitting (limit - c.utf8Size) rest else []

/-- Cuts a text to at most `limit` bytes between two characters, and marks
the cut. -/
def cut (limit : Nat) (text : String) : String :=
  if limit < text.utf8ByteSize then String.ofList (fitting limit text.toList) ++ "..." else text

/-- The report, cut to about `limit` bytes. -/
def diagnostic (rs : Records) (c : Cycle) (limit : Nat) : String :=
  cut limit (appendLines rs limit (c.headline rs) c.links) ++ "\nAborting!"

/-- The limit that applies where nobody has set one. -/
def standardLimit : Nat := 131072

end Cycle

-- ====================================================== faults

/-- What a registry cannot recover from. -/
inductive Fault
  | cycle (c : Cycle)
  /-- A thread waits for a record that it is completing itself. -/
  | reentrant (type : String)
  /-- A witness table has an empty slot. -/
  | missingWitness (protocol requirement type : String)
  /-- A descriptor was given the wrong number of arguments. -/
  | argumentCount (descriptor : String) (expected actual : Nat)
  deriving DecidableEq

/-- The wording of a fault; `limit` bounds the report of a cycle. -/
def Fault.diagnostic (rs : Records) (limit : Nat) : Fault → String
  | cycle c => c.diagnostic rs limit
  | reentrant type =>
    "runtime error: unresolvable type metadata dependency cycle detected\n  " ++ type
      ++ " was requested while its own initialization was in progress\nAborting!"
  | missingWitness protocol requirement type =>
    "runtime error: witness table for " ++ type ++ ": " ++ protocol
      ++ " has no witness for requirement '" ++ requirement ++ "'"
  | argumentCount descriptor expected actual =>
    "runtime error: " ++ descriptor ++ " expects " ++ toString expected
      ++ " generic arguments but " ++ toString actual ++ " were supplied"

/-- A fault as hooks get to see it. -/
structure Report where
  message : String
  /-- How many faults the process has reported, this one included. -/
  count : Nat
  /-- The thread that raised it. -/
  thread : String
  deriving DecidableEq

inductive Failure
  | fault (message : String)
  /-- A callback asked for something that does not exist. -/
  | refused
  /-- Callbacks ran more often than they may. -/
  | exhausted
  deriving DecidableEq

end TypeRecords
