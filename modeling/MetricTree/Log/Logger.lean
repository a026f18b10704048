import MetricTree.Log.Level
import MetricTree.Log.Line

namespace MetricTree.Log

/-- The logger above all others of the library. -/
def rootName : String := "statscope"

/-- The level of loggers that none is set for. -/
def defaultLevel : Int := warning

/-- The configuration of the root logger: its level, zero if none is set, and whether lines are written. -/
structure Config where
  level : Int
  attached : Bool
  deriving DecidableEq

namespace Config

def unconfigured : Config := ⟨0, false⟩

/-- Sets the level and sees to it that lines are written. Without a level, only the first call counts. -/
def configure (c : Config) (level : Value) : Except Fault Config :=
  match c.attached, level with
  | true, .null => pure c
  | _, _ => return ⟨← resolveLevel level, true⟩

/-- Is it the root logger, or one under it? -/
def governs (logger : String) : Bool := logger = rootName || logger.startsWith (rootName ++ ".")

/-- The level of a logger: that of the root logger if it has one and stands above. -/
def effectiveLevel (c : Config) (logger : String) : Int :=
  if governs logger && c.level != 0 then c.level else defaultLevel

def isEnabled (c : Config) (logger : String) (level : Int) : Bool :=
  0 < level && c.effectiveLevel logger ≤ level

def handlers (c : Config) (logger : String) : Nat :=
  if c.attached && logger = rootName then 1 else 0

/-- Writes an event of a level, to which it is told what the level is called. If the level is enabled, the event is
made; it may have no extra of a taken name. One that cannot be put into a line is dropped. -/
def write (c : Config) (logger : String) (level : Value) (event : Value → Event) : Except Fault (Option Json) := do
  let n ← exactLevel level
  if !c.isEnabled logger n then return none
  let made := event (← levelTitle level)
  match made.extras.keys.find? takenAttributes.contains with
  | some name => throw (.attributeTaken name)
  | none => return if c.attached && governs logger then made.toJson.toOption else none

end Config

end MetricTree.Log
