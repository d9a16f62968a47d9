/-
The store: everything in a process that changes.

All registries of the process share it, because records, candidates and hooks
do not belong to any one of them. The store holds data only: what runs
is kept by the machine, and what is declared by the library.
-/
import TypeRecords.Dependency.Chain
import TypeRecords.Dependency.Search
import TypeRecords.Fault
import TypeRecords.Registry
import TypeRecords.Witness

namespace TypeRecords

/-- Conformances are numbered as they are declared. -/
abbrev ConformanceId := Nat

/-- Hooks are numbered by whoever registers them. -/
abbrev HookId := Nat

/-- How far the table of a conformance and a type is. -/
inductive CellState
  /-- Nobody is building it. -/
  | empty
  /-- A thread is building it. -/
  | building (thread : ThreadId)
  /-- It is there for good. -/
  | full (table : TableId)
  deriving DecidableEq, Inhabited

/-- The place of a witness table in a registry. -/
structure Cell where
  registry : RegistryId
  conformance : ConformanceId
  conforming : RecordId
  state : CellState := .empty
  deriving DecidableEq, Inhabited

/-- Cells are numbered in the order they come into being. -/
abbrev CellId := Nat

/-- Everything in a process that changes. -/
structure Store where
  records : Records := Records.builtins
  entries : Array Entry := #[]
  registries : Array Registry := #[]
  cells : Array Cell := #[]
  tables : Array WitnessTable := #[]
  candidates : Array Candidate := #[]
  heap : Heap := {}
  /-- Hooks in the order they were registered. -/
  hooks : List HookId := []
  /-- How many faults have been reported. -/
  faults : Nat := 0
  /-- The registry the whole process shares, once it exists. -/
  shared : Option RegistryId := none
  /-- The diagnostic the process ended with. -/
  halted : Option String := none

instance : Inhabited Store := ⟨{}⟩

namespace Store

-- ====================================================== records

def addRecord (s : Store) (r : Record) : Store × RecordId :=
  ({ s with records := s.records.push r }, s.records.size)

def changeRecord (s : Store) (id : RecordId) (f : Record → Record) : Store :=
  { s with records := s.records.modify id f }

/-- Whether a record was there from the start. -/
def isFixed (s : Store) (id : RecordId) : Bool :=
  match s.records[id]? with
  | some r => r.origin == .fixed
  | none => true

-- ====================================================== registries

def addRegistry (s : Store) (c : Config) : Store × RegistryId :=
  ({ s with registries := s.registries.push (.new c) }, s.registries.size)

def changeRegistry (s : Store) (id : RegistryId) (f : Registry → Registry) : Store :=
  { s with registries := s.registries.modify id f }

/-- Makes an entry in the ledger of a registry. -/
def note (s : Store) (id : RegistryId) (f : Ledger → Ledger) : Store :=
  s.changeRegistry id (·.note f)

/-- Takes a block from the arena of a registry: its address, and whether it
lies in a page. -/
def takeBlock (s : Store) (id : RegistryId) (size align : Nat) : Store × Nat × Bool :=
  match s.registries[id]? with
  | none => (s, 0, false)
  | some r =>
    let served := r.arena.allocateFrom s.heap size align
    ({ s with
        registries := s.registries.modify id fun r => { r with arena := served.1.arena }
        heap := served.2 },
      served.1.address, served.1.pooled)

/-- Hands a block back to the arena of a registry. -/
def returnBlock (s : Store) (id : RegistryId) (address size : Nat) : Store × Arena.Return :=
  match s.registries[id]? with
  | none => (s, .leaked)
  | some r =>
    let back := r.arena.deallocate address size
    (s.changeRegistry id fun r => { r with arena := back.1 }, back.2)

-- ====================================================== entries

def changeEntry (s : Store) (id : EntryId) (f : Entry → Entry) : Store :=
  { s with entries := s.entries.modify id f }

/-- The entry of a key in a registry. -/
def find? (s : Store) (registry : RegistryId) (key : Key) : Option EntryId :=
  s.entries.findIdx? fun e => e.registry == registry && e.key == key

/-- The entry a registry keeps for a record. A record the registry did not
make, and one that was there from the start, has none. -/
def entryOf? (s : Store) (registry : RegistryId) (record : RecordId) : Option EntryId :=
  (s.records[record]?).bind fun r => r.key?.bind (s.find? registry)

/-- How many records a registry holds or is about to. -/
def cachedCount (s : Store) (registry : RegistryId) : Nat :=
  s.entries.countP (·.registry == registry)

/-- The published stage of a record, as a registry sees it. What it does not
keep is finished, and what has no record yet is at the first stage. -/
def stageOf (s : Store) (registry : RegistryId) (record : RecordId) : Stage :=
  match (s.entryOf? registry record).bind (s.entries[·]?) with
  | none => .complete
  | some e => (e.snapshot?.map (·.stage)).getD .abstract

/-- What the target of a dependency waits for itself, if it is not where the
dependency needs it. -/
def blockerOf? (s : Store) (registry : RegistryId) (d : Dependency) : Option Dependency :=
  (s.entryOf? registry d.target).bind fun id =>
    (s.entries[id]?).bind fun e => e.blocker? d.required

-- ====================================================== dependencies

/-- The records as a search sees them from a registry. -/
def graph (s : Store) (registry : RegistryId) : Search.Graph :=
  ⟨s.records.size, s.records.referents, s.stageOf registry⟩

/-- What a record still has to wait for before it is finished for good. -/
def unfinished? (s : Store) (registry : RegistryId) (record : RecordId) : Option Dependency :=
  Search.unfinished (s.graph registry) record

/-- The waiting records as a chain is followed through them. -/
def waits (s : Store) (registry : RegistryId) : Chain.Waits :=
  ⟨s.records.size, s.blockerOf? registry⟩

/-- The cycle that `start` closes by waiting on `first`, if it closes one. -/
def cycle? (s : Store) (registry : RegistryId) (start : RecordId) (first : Dependency) :
    Option Cycle :=
  (Chain.closed? (s.waits registry) start first).map (Cycle.mk start)

/-- Whether everything a record refers to was there from the start. -/
def refersToFixed (s : Store) (record : RecordId) : Bool :=
  (s.records.referents record).all s.isFixed

/-- The stage a record is at by the look of it, before it is finished. -/
def inferredStage (s : Store) (record : RecordId) : Stage :=
  if (s.records.layoutOf record).isSome then .layoutComplete else .abstract

-- ====================================================== witness tables

def changeCell (s : Store) (id : CellId) (state : CellState) : Store :=
  { s with cells := s.cells.modify id fun c => { c with state := state } }

/-- The cell of a conformance and a type in a registry. -/
def findCell? (s : Store) (registry : RegistryId) (conformance : ConformanceId)
    (conforming : RecordId) : Option CellId :=
  s.cells.findIdx? fun c =>
    c.registry == registry && c.conformance == conformance && c.conforming == conforming

/-- The cell of a conformance and a type, made if it is not there. -/
def cellFor (s : Store) (registry : RegistryId) (conformance : ConformanceId)
    (conforming : RecordId) : Store × CellId :=
  match s.findCell? registry conformance conforming with
  | some id => (s, id)
  | none =>
    ({ s with cells := s.cells.push { registry, conformance, conforming } }, s.cells.size)

def addTable (s : Store) (t : WitnessTable) : Store × TableId :=
  ({ s with tables := s.tables.push t }, s.tables.size)

-- ====================================================== candidates

/-- Tells a candidate of its canonical record. -/
def remember (s : Store) (candidate : CandidateId) (registry : RegistryId) (record : RecordId) :
    Store :=
  { s with candidates := s.candidates.modify candidate (·.remember registry record) }

-- ====================================================== faults

/-- Counts a fault and writes its report. -/
def reportFault (s : Store) (limit : Nat) (fault : Fault) (thread : String) : Store × Report :=
  let count := s.faults + 1
  ({ s with faults := count }, ⟨fault.diagnostic s.records limit, count, thread⟩)

end Store

end TypeRecords
