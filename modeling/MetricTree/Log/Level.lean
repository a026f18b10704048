import MetricTree.Log.Template
import MetricTree.Text.Blank
import MetricTree.Text.Capital
import MetricTree.Value.Key

namespace MetricTree.Log

def debug : Int := 10

def info : Int := 20

def warning : Int := 30

/-- The levels that have a name, which is the one that they are called by. -/
def levelNames : List (Int × String) :=
  [(0, "NOTSET"), (10, "DEBUG"), (20, "INFO"), (30, "WARNING"), (40, "ERROR"), (50, "CRITICAL")]

/-- The level of a name in capitals. Some levels have two names. -/
def levelOfName? (name : Text) : Option Int :=
  name.string?.bind fun name =>
    [("CRITICAL", 50), ("FATAL", 50), ("ERROR", 40), ("WARN", 30), ("WARNING", 30), ("INFO", 20), ("DEBUG", 10),
      ("NOTSET", 0)].lookup name

/-- What a level is called: the name of an equal number, or the number of a name. -/
def levelTitle (level : Value) : Except Fault Value := do
  level.hashable
  match levelNames.find? fun named => level == .int named.1, level.textKey?.bind levelOfName? with
  | some (_, name), _ => return .text name
  | none, some n => return .int n
  | none, none => return .text (← fillTemplate "Level %s" level)

/-- A level that may be given as a truth value. -/
def exactLevel : Value → Except Fault Int
  | .int n => pure n
  | .bool b => pure b.toNat
  | _ => throw .levelNotInteger

/-- The level that a value asks for. A name may be in any case and have space around it; one that
is not known, like no value at all, asks for the default. -/
def resolveLevel : Value → Except Fault Int
  | .null => pure info
  | .bool b => pure b.toNat
  | .int n => pure n
  | .text s =>
    let name := s.chars?.map fun cs => String.ofList (Text.trimBy Text.isSpacing cs)
    pure ((name.bind fun name => levelOfName? (Text.capitals name)).getD info)
  | .bytes _ => pure info
  | v => throw (.missingMethod v.typeName "strip")

end MetricTree.Log
