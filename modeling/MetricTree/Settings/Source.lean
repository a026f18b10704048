import MetricTree.Value.Basic
import MetricTree.Settings.File

namespace MetricTree

/-- The things that can be set. -/
inductive Setting where
  | interval
  | stem
  | separator
  | level
  deriving DecidableEq

namespace Setting

/-- The name of a setting in the environment and in files, where its case does not matter. -/
def title : Setting → String
  | interval => "REPORT_INTERVAL"
  | stem => "METRICS_PREFIX"
  | separator => "METRICS_SEPARATOR"
  | level => "LOG_LEVEL"

/-- The other name of a setting, which arguments may use. -/
def fieldName (s : Setting) : String := s.title.toLower

end Setting

/-- Where settings come from, besides arguments: variables of the environment, and the text of a
file that sets more of them. -/
structure Source where
  environment : Table String String
  file : String

namespace Source

def empty : Source := ⟨.empty, ""⟩

/-- The entry of a setting, by its title in any case. -/
def isFor (s : Setting) (name : String) : Bool := name.toLower == s.fieldName

/-- The variable of a setting. Of several, the last one counts. -/
def variableOf? {α : Type} (t : Table String α) (s : Setting) : Option α :=
  (t.entries.reverse.find? fun entry => isFor s entry.1).map (·.2)

/-- The name that an argument of a setting is told under: of its two names the one that is written
first among the arguments, in just its own case. -/
def toldName (args : Table String Value) (s : Setting) : String :=
  ((args.entries.map (·.1)).find? fun name => name == s.title || name == s.fieldName).getD s.title

/-- The argument of a setting, with the name that it is told under. Of several, the first one counts. -/
def argumentOf? (args : Table String Value) (s : Setting) : Option (String × Value) :=
  (args.entries.find? fun entry => isFor s entry.1).map fun entry => (toldName args s, entry.2)

/-- What is supplied for a setting, and the name that it is supplied under: an argument, a variable
of the environment, or one of the file. -/
def supplied? (source : Source) (args : Table String Value) (s : Setting) : Option (String × Value) :=
  let inFile := (variableOf? (VariableFile.variablesOf source.environment source.file) s).join
  argumentOf? args s <|>
    (variableOf? source.environment s <|> inFile).map fun text => (s.title, .text text)

/-- Sets a variable of the environment, if it can have such a name and value. -/
def setVariable (source : Source) (name value : String) : Except Fault Source := do
  if (name ++ value).contains '\x00' then throw .nullCharacter
  if name.contains '=' then throw .variableNameUnusable
  if name.isEmpty then throw .variableUnnamed
  return { source with environment := source.environment.insert name value }

end Source

end MetricTree
