/-
Foreign names: the first candidate of a name in a registry is canonical there.
If it has an initializer, the name is registered without a record first, and
nobody is given the record before the initializer has returned.
-/
import TypeRecords.Machine.State

namespace TypeRecords.Turn

variable {σ : Type}

/-- Hands out a canonical record and tells the candidate of it. -/
def nameAs (t : Turn σ) (registry : RegistryId) (candidate : CandidateId) (record : RecordId) :
    Turn σ :=
  { t with
    store := t.store.remember candidate registry record
    control := .give (.record record) .nothing }

/-- Hands out the record of a registered name if it is known, and waits for it
otherwise. -/
def askName (t : Turn σ) (j : NameJob) (r : Registry) : Turn σ :=
  match r.canonical? j.position with
  | some record => t.nameAs j.registry j.candidate record
  | none =>
    { t with
      store := t.store.note j.registry fun l => { l with foreignWaits := l.foreignWaits + 1 }
      control := .standBy j r.announcements }

/-- Requests the canonical record of a candidate. -/
def requestName (lib : Library σ) (t : Turn σ) (registry : RegistryId) (candidate : CandidateId) :
    Option (Turn σ) :=
  match t.store.candidates[candidate]?, t.store.registries[registry]? with
  | some c, some r =>
    match c.uniqueIn registry with
    | some record => some (t.goto (.give (.record record) .nothing))
    | none =>
      match r.position? c.name with
      | some position => some (t.askName ⟨registry, candidate, position⟩ r)
      | none =>
        match lib.initializer candidate with
        | none =>
          let s := t.store.changeRegistry registry (·.register c.name (some c.record))
          some (({ t with store := s }).nameAs registry candidate c.record)
        | some callback =>
          let s := t.store.changeRegistry registry (·.register c.name none)
          some (({ t with store := s }).call (.founding ⟨registry, candidate, r.foreign.length⟩)
            (callback registry) (fun _ => .unit) .nothing)
  | _, _ => none

/-- The initializer of the first candidate has returned. -/
def founded (t : Turn σ) (j : NameJob) : Option (Turn σ) :=
  match t.store.candidates[j.candidate]? with
  | none => none
  | some c =>
    let s := t.store.changeRegistry j.registry (·.announce j.position c.record)
    some (({ t with store := s }).nameAs j.registry j.candidate c.record)

/-- Looks again after an announcement. There is no step without one. -/
def standBy (t : Turn σ) (j : NameJob) (heard : Nat) : Option (Turn σ) :=
  match t.store.registries[j.registry]? with
  | none => none
  | some r => if heard < r.announcements then some (t.askName j r) else none

end TypeRecords.Turn
