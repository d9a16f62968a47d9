/-
Witness tables: one for each conformance and type, built by whoever asks
first. The cell of a table is `building` while its callback runs; if that
unwinds the cell is empty again, and the next request starts afresh.
-/
import TypeRecords.Machine.State

namespace TypeRecords.Turn

variable {σ : Type}

/-- Requests the witness table of a type. -/
def requestTable (lib : Library σ) (t : Turn σ) (registry : RegistryId)
    (conformance : ConformanceId) (conforming : RecordId) (arguments : List TableId) :
    Option (Turn σ) :=
  match lib.conformances[conformance]? with
  | none => none
  | some c =>
    if lib.isTrivial c then
      some { t with
        store := t.store.note registry fun l => { l with patterns := l.patterns + 1 }
        control := .give (.table c.recipe.pattern) .nothing }
    else
      let found := t.store.cellFor registry conformance conforming
      some { t with
        store := found.1
        control := .acquire ⟨registry, found.2, conformance, conforming⟩ arguments }

/-- Takes the table from its cell, or begins to build it. There is no step
while another attempt is under way. -/
def acquire (lib : Library σ) (t : Turn σ) (a : Actor) (j : TableJob) (arguments : List TableId) :
    Option (Turn σ) :=
  match t.store.cells[j.cell]? with
  | none => none
  | some cell =>
    match cell.state with
    | .full table => some (t.goto (.give (.table table) .nothing))
    | .building _ => none
    | .empty =>
      match lib.conformances[j.conformance]? with
      | none => none
      | some c =>
        match lib.protocols[c.recipe.protocol]? with
        | none => none
        | some p =>
          let s := t.store.changeCell j.cell (.building a.id)
          let s := (s.takeBlock j.registry (c.recipe.blockSize p) wordSize).1
          let t := { t with store := s }
          let draft := Draft.start c.recipe p
          match c.instantiator with
          | some callback =>
            some (t.call (.filling j) (callback j.registry j.conforming arguments)
              (fun _ => .unit) (.draft draft))
          | none => some (t.push (.filling j) (.give .unit (.draft draft)))

/-- A draft is filled as far as it will be. An empty slot is a fault, which
unwinds through the frame of the attempt; otherwise the attempt is over. -/
def filled (lib : Library σ) (t : Turn σ) (a : Actor) (j : TableJob) (draft : Draft) :
    Option (Turn σ) :=
  match lib.protocols[draft.protocol]? with
  | none => none
  | some p =>
    match draft.firstEmpty? p with
    | some requirement =>
      some (({ t with frames := .filling j :: t.frames }).raiseIn a j.registry
        (.missingWitness p.name requirement.name (t.store.records.display j.conforming)))
    | none =>
      let added := t.store.addTable
        ⟨draft.protocol, some j.conforming, draft.witnesses, draft.words⟩
      let s := added.1.changeCell j.cell (.full added.2)
      let s := s.note j.registry fun l => { l with tables := l.tables + 1 }
      some { t with store := s, control := .give (.table added.2) .nothing }

end TypeRecords.Turn
