/-
The two settings that are chosen by a word: what happens after a fault, and
how much is logged. Both are read without regard to case and have more than
one spelling; each has one spelling it is written with.
-/
import TypeRecords.Text.Blank

namespace TypeRecords

/-- What happens to the process once a fault has been reported. -/
inductive FaultPolicy
  /-- The process ends. -/
  | abort
  /-- Only the thread that raised the fault unwinds. -/
  | unwind
  deriving DecidableEq, Inhabited

namespace FaultPolicy

/-- Reads a policy. The one that unwinds goes by two words. -/
def ofText? (text : String) : Option FaultPolicy :=
  match Text.fold text with
  | "abort" => some abort
  | "panic" => some unwind
  | "unwind" => some unwind
  | _ => none

/-- The word a policy is written with. -/
def name : FaultPolicy → String
  | abort => "abort"
  | unwind => "panic"

end FaultPolicy

/-- How much of what the runtime does is logged. Each level includes those before it. -/
inductive LogLevel
  | off
  | error
  | warn
  | info
  | debug
  | trace
  deriving DecidableEq

instance : Inhabited LogLevel := ⟨.info⟩

namespace LogLevel

/-- Reads a level, by one of its words or by its number. -/
def ofText? (text : String) : Option LogLevel :=
  match Text.fold text with
  | "off" => some off
  | "none" => some off
  | "0" => some off
  | "error" => some error
  | "err" => some error
  | "1" => some error
  | "warn" => some warn
  | "warning" => some warn
  | "2" => some warn
  | "info" => some info
  | "3" => some info
  | "debug" => some debug
  | "4" => some debug
  | "trace" => some trace
  | "5" => some trace
  | _ => none

/-- The word a level is written with. -/
def name : LogLevel → String
  | off => "off"
  | error => "error"
  | warn => "warn"
  | info => "info"
  | debug => "debug"
  | trace => "trace"

/-- The directive that makes a log filter let messages of this level through. -/
def directive (level : LogLevel) : String := "metadata_runtime=" ++ level.name

end LogLevel

/-- Reads a switch that is on or off. -/
def flag? (text : String) : Option Bool :=
  match Text.fold text with
  | "true" => some true
  | "1" => some true
  | "yes" => some true
  | "on" => some true
  | "false" => some false
  | "0" => some false
  | "no" => some false
  | "off" => some false
  | _ => none

end TypeRecords
