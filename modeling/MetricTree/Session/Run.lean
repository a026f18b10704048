import MetricTree.Session.Perform
import MetricTree.Loop.Opening

namespace MetricTree.Session

/-- The answer to a step, with what reached the reporter and the log meanwhile. -/
structure StepAnswer where
  result : Result
  entries : List Entry
  lines : List Json

/-- The answers of a session: to its opening, and to its steps. -/
structure Answers where
  root : StepAnswer
  steps : List StepAnswer

/-- A reporter to attach: what is known of it, what it does with calls, and the rules it follows. -/
structure Attachment where
  reporter : Option Reporter
  sink : Sink
  rules : List Rule

namespace Attachment

def absent : Attachment := ⟨none, .absent, []⟩

def bare : Attachment := ⟨some ⟨"object", false, false⟩, .bare, []⟩

def recording (complete closes : Bool) (rules : List Rule) : Attachment :=
  ⟨some ⟨"ScriptedReporter", complete, closes⟩, .recording, rules⟩

def batching (rules : List Rule) : Attachment :=
  ⟨some ⟨"ScriptedBatchReporter", true, false⟩, .batch .empty, rules⟩

def logging (j : Journal) : Attachment :=
  ⟨some ⟨"LoggingReporter", true, false⟩, .journal j .empty, []⟩

end Attachment

/-- A session on a tree that was just opened. Its root is kept under a name of its own. -/
def start (config : Log.Config) (origin : Log.Origin) (attached : Attachment) (opening : Opening) : Session :=
  { config := config
    origin := origin
    loop := opening.loop
    kept := .ofList [("root", .scope opening.root)]
    sink := attached.sink
    rules := attached.rules
    counts := .empty
    entries := #[]
    lines := (config.tell origin opening.notices).toArray }

/-- Takes a step, and hands out what was recorded and logged. -/
def take (s : Session) (command : Command) : StepAnswer × Session :=
  let (result, after) := perform command { s with entries := #[], lines := #[] }
  (⟨result, after.entries.toList, after.lines.toList⟩, after)

def takeAll : List Command → Session → List StepAnswer × Session
  | [], s => ([], s)
  | command :: rest, s =>
    let (answer, after) := s.take command
    let (answers, final) := takeAll rest after
    (answer :: answers, final)

/-- The events of the closing at the end go with those of the last step, if it had any. -/
def withClosing (entries : List Entry) (steps : List StepAnswer) : List StepAnswer :=
  steps.modify (steps.length - 1) fun last =>
    if last.entries.isEmpty then last else { last with entries := last.entries ++ entries }

/-- Runs a session from the opening to the closing at its end, at which no rules apply. -/
def run (config : Log.Config) (origin : Log.Origin) (attached : Attachment)
    (opening : Except Fault Opening) (commands : List Command) : Answers :=
  match opening with
  | .error fault => ⟨⟨.refused fault, [], []⟩, []⟩
  | .ok opening =>
    let s := start config origin attached opening
    let info := s.loop.tree.scope opening.root |>.map fun root =>
      Result.scope ⟨root, s.loop.tree.separator, opening.root, none⟩
    let (result, _) := s.answer info
    let (answers, final) := takeAll commands s
    let (_, closed) := close perform { final with entries := #[], lines := #[], rules := [] }
    ⟨⟨result, [], s.lines.toList⟩, withClosing closed.entries.toList answers⟩

end MetricTree.Session
