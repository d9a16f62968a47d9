/-
Registries: one owner of caches, arena, foreign names and counters. Several
registries can live in one process and share candidates; each keeps its own
names.
-/
import TypeRecords.Arena
import TypeRecords.Entry
import TypeRecords.Ledger

namespace TypeRecords

/-- Candidates are numbered as they are declared. -/
abbrev CandidateId := Nat

/-- A module's own copy of a foreign type. -/
structure Candidate where
  name : String
  /-- The candidate's own record. -/
  record : RecordId
  /-- The first canonical record the candidate was told of, and the registry
  that chose it. -/
  unique : Option (RegistryId × RecordId) := none
  deriving DecidableEq, Inhabited

/-- The canonical record this registry chose, if the candidate remembers it. -/
def Candidate.uniqueIn (c : Candidate) (registry : RegistryId) : Option RecordId :=
  (c.unique.filter (·.1 == registry)).map (·.2)

/-- Remembers a canonical record; only the first one is kept. -/
def Candidate.remember (c : Candidate) (registry : RegistryId) (record : RecordId) : Candidate :=
  { c with unique := c.unique.or (some (registry, record)) }

/-- A registered name. -/
structure ForeignName where
  name : String
  /-- `none` until the first registrant's initializer has returned. -/
  canonical : Option RecordId
  deriving DecidableEq, Inhabited

/-- Owner of caches, arena, foreign names and counters. -/
structure Registry where
  config : Config
  arena : Arena
  ledger : Ledger := {}
  /-- Names in the order they were registered. -/
  foreign : List ForeignName := []
  /-- How often an initializer has returned. Whoever waits for a name looks
  again when this changes. -/
  announcements : Nat := 0
  deriving DecidableEq, Inhabited

namespace Registry

/-- A registry that has done nothing yet. -/
def new (c : Config) : Registry := { config := c, arena := Arena.new c }

/-- The position of a registered name. -/
def position? (r : Registry) (name : String) : Option Nat :=
  r.foreign.findIdx? (·.name == name)

/-- The canonical record of the name at a position, once there is one. -/
def canonical? (r : Registry) (position : Nat) : Option RecordId :=
  (r.foreign[position]?).bind (·.canonical)

/-- Registers a name. -/
def register (r : Registry) (name : String) (canonical : Option RecordId) : Registry :=
  { r with
    foreign := r.foreign ++ [⟨name, canonical⟩]
    ledger := { r.ledger with foreignNames := r.ledger.foreignNames + 1 } }

/-- Makes the record of a name known to those who wait for it. -/
def announce (r : Registry) (position : Nat) (record : RecordId) : Registry :=
  { r with
    foreign := r.foreign.modify position fun n => { n with canonical := some record }
    announcements := r.announcements + 1 }

/-- Makes an entry in the ledger. -/
def note (r : Registry) (f : Ledger → Ledger) : Registry := { r with ledger := f r.ledger }

end Registry

end TypeRecords
