/-
Configuration of a registry: the settings, the steps that change them, which
settings are accepted, and what can be read from the environment.

Changing the page size also moves the pool limit to half a page, so the order
of steps matters; reading from the environment never lets an unusable value
through.
-/
import TypeRecords.Config.Choice
import TypeRecords.Text.Numeral

namespace TypeRecords

def version : String := "0.1.0"

/-- Whether a number is a power of two. -/
def isPowerOfTwo (n : Nat) : Bool := n == 1 <<< n.log2

/-- The least power of two that is not below `n`. -/
def ceilPowerOfTwo (n : Nat) : Nat := if n ≤ 1 then 1 else 1 <<< ((n - 1).log2 + 1)

/-- The smallest page an arena works with. -/
def minPageSize : Nat := 4096

/-- The largest page an arena works with. -/
def maxPageSize : Nat := 1073741824

structure Config where
  /-- Bytes in a pool page. -/
  pageSize : Nat := 16384
  /-- Larger requests than this bypass the pool. -/
  poolLimit : Nat := 8192
  faultPolicy : FaultPolicy := default
  /-- Cycle reports are cut to this many bytes. -/
  diagnosticLimit : Nat := 131072
  logLevel : LogLevel := default
  timestamps : Bool := true
  threadNames : Bool := false
  deriving DecidableEq

namespace Config

/-- What applies where nothing was set. -/
def standard : Config := {}

instance : Inhabited Config := ⟨standard⟩

-- ====================================================== changing settings

inductive Setting
  | pageSize (bytes : Nat)
  | poolLimit (bytes : Nat)
  | diagnosticLimit (bytes : Nat)
  | faultPolicy (policy : FaultPolicy)
  | logLevel (level : LogLevel)
  | timestamps (on : Bool)
  | threadNames (on : Bool)

/-- Makes one change. A new page size takes the pool limit with it. -/
def set (c : Config) : Setting → Config
  | .pageSize bytes => { c with pageSize := bytes, poolLimit := bytes / 2 }
  | .poolLimit bytes => { c with poolLimit := bytes }
  | .diagnosticLimit bytes => { c with diagnosticLimit := bytes }
  | .faultPolicy policy => { c with faultPolicy := policy }
  | .logLevel level => { c with logLevel := level }
  | .timestamps on => { c with timestamps := on }
  | .threadNames on => { c with threadNames := on }

/-- The standard settings with changes made in order. -/
def build (settings : List Setting) : Config := settings.foldl set standard

-- ====================================================== accepted settings

inductive Refusal
  | pageNotPowerOfTwo
  | pageOutOfRange
  | poolOutOfRange
  | noDiagnostics
  deriving DecidableEq

/-- The setting a refusal is about. -/
def Refusal.field : Refusal → String
  | pageNotPowerOfTwo => "arena.page_size"
  | pageOutOfRange => "arena.page_size"
  | poolOutOfRange => "arena.max_pool_allocation"
  | noDiagnostics => "diagnostics.max_diagnostic_bytes"

/-- What the setting should have been. -/
def Refusal.demand : Refusal → String
  | pageNotPowerOfTwo => "must be a power of two"
  | pageOutOfRange =>
    "must be between " ++ toString minPageSize ++ " and " ++ toString maxPageSize ++ " bytes"
  | poolOutOfRange => "must be between 1 and page_size"
  | noDiagnostics => "must be at least 1"

def Refusal.message (r : Refusal) : String :=
  "invalid configuration for '" ++ r.field ++ "': " ++ r.demand

/-- The first thing wrong with the settings, if anything is. -/
def refusal? (c : Config) : Option Refusal :=
  if !isPowerOfTwo c.pageSize then some .pageNotPowerOfTwo
  else if c.pageSize < minPageSize || maxPageSize < c.pageSize then some .pageOutOfRange
  else if c.poolLimit == 0 || c.pageSize < c.poolLimit then some .poolOutOfRange
  else if c.diagnosticLimit == 0 then some .noDiagnostics
  else none

/-- The standard settings with changes made in order, if they are accepted. -/
def build? (settings : List Setting) : Except Refusal Config :=
  match (build settings).refusal? with
  | some r => .error r
  | none => .ok (build settings)

-- ====================================================== the environment

/-- The variables that hold settings, as they are set; `none` for one that is
not set. -/
structure Environment where
  pageSize : Option String := none
  poolLimit : Option String := none
  faultPolicy : Option String := none
  diagnosticLimit : Option String := none
  logLevel : Option String := none
  timestamps : Option String := none

/-- Sets the variable of that name, if it is one that holds a setting. -/
def Environment.set? (env : Environment) (name text : String) : Option Environment :=
  match name with
  | "METADATA_PAGE_SIZE" => some { env with pageSize := some text }
  | "METADATA_MAX_POOL_ALLOCATION" => some { env with poolLimit := some text }
  | "METADATA_FATAL_POLICY" => some { env with faultPolicy := some text }
  | "METADATA_MAX_DIAGNOSTIC_BYTES" => some { env with diagnosticLimit := some text }
  | "METADATA_LOG_LEVEL" => some { env with logLevel := some text }
  | "METADATA_LOG_TIMESTAMPS" => some { env with timestamps := some text }
  | _ => none

/-- A number in a variable; blanks around it do not count. -/
def number? (text : String) : Option Nat := Text.word? (Text.trim text.toList)

/-- Makes a change if a variable holds something usable. -/
def adopt {α : Type} (c : Config) (value : Option α) (change : α → Setting) : Config :=
  match value with
  | some v => c.set (change v)
  | none => c

/-- The settings the environment asks for. A variable that is not set or holds
something unusable leaves the setting as it is; the pool limit is judged by
the page size that has been read before it. -/
def ofEnvironment (env : Environment) : Config :=
  let c := standard
  let c := c.adopt
    ((env.pageSize.bind number?).filter fun n =>
      isPowerOfTwo n && minPageSize ≤ n && n ≤ maxPageSize) .pageSize
  let c := c.adopt
    ((env.poolLimit.bind number?).filter fun n => 0 < n && n ≤ c.pageSize) .poolLimit
  let c := c.adopt (env.faultPolicy.bind FaultPolicy.ofText?) .faultPolicy
  let c := c.adopt ((env.diagnosticLimit.bind number?).filter fun n => 0 < n) .diagnosticLimit
  let c := c.adopt (env.logLevel.bind LogLevel.ofText?) .logLevel
  c.adopt (env.timestamps.bind flag?) .timestamps

end Config

end TypeRecords
