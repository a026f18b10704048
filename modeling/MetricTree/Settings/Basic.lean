import MetricTree.Identity.Part
import MetricTree.Loop.Opening
import MetricTree.Record.Field
import MetricTree.Settings.Source
import MetricTree.Text.Capital

namespace MetricTree

/-- The levels that can be set. -/
inductive Severity where
  | debug
  | info
  | warning
  | error
  | critical
  deriving DecidableEq

namespace Severity

def name : Severity → String
  | debug => "DEBUG"
  | info => "INFO"
  | warning => "WARNING"
  | error => "ERROR"
  | critical => "CRITICAL"

def all : List Severity := [debug, info, warning, error, critical]

def ofName? (name : String) : Option Severity := all.find? fun s => s.name == name

end Severity

/-- What a tree is opened with when it is set up from outside. -/
structure Settings where
  interval : Binary64
  stem : Text
  separator : Text
  level : Severity

namespace Settings

/-- Ten seconds, no stem, a point, and the level of information. -/
def standard : Settings := ⟨.signed false (.nearest 10 1), "", ".", .info⟩

def readInterval (v : Value) : Except Refusal Binary64 := do
  let x ← Field.number v
  if Binary64.zero.atMost x then pure x else throw .belowMinimum

def readStem (v : Value) : Except Refusal Text := do
  let s ← Field.text v
  (Identity.checkName "prefix" true (.text s)).mapError fun fault => .forbidden fault.message

def readSeparator (v : Value) : Except Refusal Text := do
  let s ← Field.text v
  if s.toList.any Identity.isReserved then
    throw (.forbidden ("separator " ++ Text.quoted s ++ " contains a reserved character"))
  else pure s

/-- The name of a level, in any case. -/
def readLevel : Value → Except Refusal Severity
  | .text s => do (Severity.ofName? (Text.capitals (← Field.unicode s))).elim (throw .notAmongChoices) pure
  | _ => throw .notAmongChoices

/-- Reads the settings from arguments and a source. What is not supplied is as in the standard settings. -/
def load (source : Source) (args : Table String Value) : Except (List Issue) Settings := do
  let field := fun {α : Type} (s : Setting) (otherwise : α) (read : Value → Except Refusal α) =>
    (source.supplied? args s).elim (pure otherwise) fun (name, v) => Field.named [name] (read v)
  let (interval, stem, separator, level) ←
    Field.both (field .interval standard.interval readInterval) <|
    Field.both (field .stem standard.stem readStem) <|
    Field.both (field .separator standard.separator readSeparator)
      (field .level standard.level readLevel)
  return ⟨interval, stem, separator, level⟩

/-- The options that settings stand for, with a reporter. -/
def options (s : Settings) (reporter : Option Reporter) : Options :=
  { stem := .text s.stem, separator := .text s.separator, tags := .empty, reporter := reporter }

/-- Opens a tree as the settings say. -/
def openTree (s : Settings) (reporter : Option Reporter) : Except Fault Opening :=
  Opening.ofOptions (s.options reporter) (.value (.float s.interval))

end Settings

end MetricTree
