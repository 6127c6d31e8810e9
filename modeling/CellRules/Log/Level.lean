/-
CellRules.Log.Level — how much is logged.

Levels run from errors to traces; a level lets through itself and everything before it.
`LogSettings` says which of the chattier events a scheduler writes, `FilterSettings` what a program
around it shows.
-/

namespace CellRules

/-- How important an event is. -/
inductive Level where
  | error
  | warn
  | info
  | debug
  | trace
  deriving DecidableEq, Repr

namespace Level

/-- The place of a level, the most important first. -/
def rank : Level → Nat
  | error => 0
  | warn => 1
  | info => 2
  | debug => 3
  | trace => 4

def label : Level → String
  | error => "ERROR"
  | warn => "WARN"
  | info => "INFO"
  | debug => "DEBUG"
  | trace => "TRACE"

def word : Level → String
  | error => "error"
  | warn => "warn"
  | info => "info"
  | debug => "debug"
  | trace => "trace"

def all : List Level := [error, warn, info, debug, trace]

def ofWord? (s : String) : Option Level := all.find? (·.word == s)

end Level

/-- Which events a scheduler writes. -/
structure LogSettings where
  level : Level
  ruleDetails : Bool
  schedulerEvents : Bool
  /-- The number of bytes to which long texts are cut. -/
  fieldLimit : Nat
  deriving DecidableEq, Repr

namespace LogSettings

def standard : LogSettings := ⟨.info, false, true, 256⟩

def verbose : LogSettings := ⟨.debug, true, true, 1024⟩

def production : LogSettings := ⟨.warn, false, false, 128⟩

def balanced : LogSettings := standard

/-- The settings by name. -/
def presets : List (String × LogSettings) :=
  [("default", standard), ("verbose", verbose), ("production", production), ("balanced", balanced)]

/-- The level lets debug events through. -/
def debugEnabled (s : LogSettings) : Bool := Level.debug.rank ≤ s.level.rank

end LogSettings

/-- What a program shows of the events: its own level, the level of this library, the form of the
output, and a filter that replaces both levels. -/
structure FilterSettings where
  level : Level
  gridLevel : Level
  jsonOutput : Bool
  override : Option String
  deriving DecidableEq, Repr

namespace FilterSettings

def standard : FilterSettings := ⟨.info, .debug, false, none⟩

def production : FilterSettings := ⟨.warn, .info, true, none⟩

def development : FilterSettings := ⟨.debug, .debug, false, none⟩

/-- The settings by name. -/
def presets : List (String × FilterSettings) :=
  [("default", standard), ("production", production), ("development", development)]

/-- The filter as text. -/
def filter (s : FilterSettings) : String :=
  s.override.getD (s.level.word ++ ",grid_guard=" ++ s.gridLevel.word)

end FilterSettings

end CellRules
