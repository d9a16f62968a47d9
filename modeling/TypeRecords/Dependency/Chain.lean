/-
The chain of waiting records.

A record that waits names one dependency, so waiting makes chains: the record
waited for may itself wait, and so on. The chain of a new dependency is
followed until it ends or comes back to a record that is already in it. Each
target is compared with the start and with all targets before it first, and
only then asked what it waits for.
-/
import TypeRecords.Dependency.Unseen
import TypeRecords.Stage

namespace TypeRecords.Chain

/-- What a chain is followed through: for a dependency on a record below
`bound` that has not been met, what that record itself waits for. -/
structure Waits where
  bound : Nat
  next : Dependency → Option Dependency

/-- Follows the chain behind `last`. `earlier` holds the links before it, the
latest first. The result is the whole chain if it closes. -/
def follow (w : Waits) (start : RecordId) (earlier : List Dependency) (last : Dependency) :
    Option (List Dependency) :=
  if _h : last.target = start ∨ last.target ∈ earlier.map (·.target) then
    some (last :: earlier).reverse
  else if _hb : last.target < w.bound then
    match w.next last with
    | none => none
    | some d => follow w start (last :: earlier) d
  else none
termination_by unseen w.bound (earlier.map (·.target))
decreasing_by
  have := unseen_cons _hb (fun hm => _h (.inr hm))
  simp only [List.map_cons]
  omega

/-- The chain that starts with `start` waiting on `first`, if it closes. -/
def closed? (w : Waits) (start : RecordId) (first : Dependency) : Option (List Dependency) :=
  follow w start [] first

end TypeRecords.Chain
