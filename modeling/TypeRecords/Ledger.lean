/-
The ledger of a registry: how often each thing has happened. Counters only
ever go up by one.
-/

namespace TypeRecords

/-- Counts of what a registry has done. -/
structure Ledger where
  /-- Records created by the generic and tuple caches. -/
  instantiations : Nat := 0
  /-- Requests that found a record already there or on its way. -/
  hits : Nat := 0
  /-- Completion steps begun. -/
  steps : Nat := 0
  /-- Dependencies that stopped a completion step. -/
  dependencies : Nat := 0
  /-- Parked records taken up again. -/
  resumptions : Nat := 0
  /-- Witness tables built. -/
  tables : Nat := 0
  /-- Witness requests answered by a pattern. -/
  patterns : Nat := 0
  /-- Foreign names registered. -/
  foreignNames : Nat := 0
  /-- Times someone began to wait for a foreign name. -/
  foreignWaits : Nat := 0
  deriving DecidableEq

instance : Inhabited Ledger := ⟨{}⟩

end TypeRecords
