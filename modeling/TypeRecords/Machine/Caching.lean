/-
Requests for records: finding the entry of a key, making one, and waiting for
what was requested.
-/
import TypeRecords.Machine.State

namespace TypeRecords.Turn

variable {σ : Type}

/-- Waits until the entry is as requested. There is no step while it has to
wait. -/
def await (t : Turn σ) (a : Actor) (registry : RegistryId) (entry : EntryId) (q : Request) :
    Option (Turn σ) :=
  match t.store.entries[entry]? with
  | none => none
  | some e =>
    match e.look a.id q with
    | .answer r => some (t.respond r)
    | .ownWork record => some (t.raiseIn a registry (.reentrant (t.store.records.display record)))
    | .wait => none

/-- Makes an entry for a key and a record for the entry. -/
def create (t : Turn σ) (registry : RegistryId) (q : Request) (key : Key) (record : Record) :
    Turn σ × Allocation :=
  let entry := t.store.entries.size
  let s := { t.store with entries := t.store.entries.push { registry, key } }
  let s := (s.takeBlock registry record.blockSize wordSize).1
  let added := s.addRecord record
  ({ t with store := added.1 }, ⟨registry, entry, added.2, q⟩)

/-- A request whose key has an entry. -/
def hit (t : Turn σ) (registry : RegistryId) (entry : EntryId) (q : Request) : Turn σ :=
  { t with
    store := t.store.note registry fun l => { l with hits := l.hits + 1 }
    control := .await registry entry q }

/-- Requests the record of a descriptor applied to arguments. -/
def requestGeneric (lib : Library σ) (t : Turn σ) (a : Actor) (registry : RegistryId) (q : Request)
    (descriptor : DescriptorId) (arguments : List RecordId) : Option (Turn σ) :=
  match lib.descriptors[descriptor]? with
  | none => none
  | some d =>
    if d.parameters ≠ arguments.length then
      some (t.raiseIn a registry (.argumentCount d.name d.parameters arguments.length))
    else
      let key : Key := ⟨.generic descriptor, arguments⟩
      match t.store.find? registry key with
      | some entry => some (t.hit registry entry q)
      | none =>
        let made := t.create registry q key (d.record descriptor arguments)
        match d.instantiate with
        | some callback =>
          some (made.1.call (.allocating made.2) (callback registry made.2.record)
            (fun _ => .unit) .nothing)
        | none => some (made.1.goto (.allocated made.2))

/-- Requests the record of a tuple. The tuple without elements is there from
the start. -/
def requestTuple (t : Turn σ) (registry : RegistryId) (q : Request) (elements : List RecordId) :
    Turn σ :=
  if elements = [] then t.respond (.finished Records.emptyTuple)
  else
    let key : Key := ⟨.tuple, elements⟩
    match t.store.find? registry key with
    | some entry => t.hit registry entry q
    | none =>
      let made := t.create registry q key (.ofElements elements)
      made.1.goto (.allocated made.2)

/-- Publishes the layout of a record that will not be completed by anyone and
has none yet. -/
def settleLayout (s : Store) (record : RecordId) (kind : Kind) : Store :=
  if (s.records.layoutOf record).isSome then s
  else s.changeRecord record (·.publish (if kind = .object then .reference else .empty))

/-- The stage a fresh record starts in. Without completion its layout has to
be known now, and it is finished at once if everything it refers to was there
from the start. -/
def firstStage (lib : Library σ) (s : Store) (record : RecordId) : Store × Stage :=
  match (s.records[record]?).bind lib.descriptorOf? with
  | none => (s, .abstract)
  | some d =>
    if d.completion.isSome then (s, s.inferredStage record)
    else
      let s := settleLayout s record d.kind
      (s, if s.refersToFixed record then .complete else .nonTransitive)

/-- Makes an allocated record known, and begins to complete it. -/
def allocated (lib : Library σ) (t : Turn σ) (a : Actor) (al : Allocation) : Turn σ :=
  let first := firstStage lib t.store al.record
  let s := first.1.note al.registry fun l => { l with instantiations := l.instantiations + 1 }
  let s := s.changeEntry al.entry (·.finishAllocation a.id al.record first.2)
  let t := { t with store := s }
  if first.2 = .complete then t.respond (.finished al.record)
  else t.goto (.begin ⟨al.registry, al.entry, al.record, al.request, first.2, .zero⟩)

end TypeRecords.Turn
