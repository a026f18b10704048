import MetricTree.Json.Image
import MetricTree.Table
import MetricTree.Value.Key
import MetricTree.Log.Level
import MetricTree.Log.Template
import MetricTree.Log.Timestamp

namespace MetricTree.Log

/-- What an event tells of an exception: nothing, its report, or whatever was put in its place. -/
inductive Cause where
  | absent
  | reported (text : Text)
  | other (v : Value)

namespace Cause

/-- What stands in the place of an exception has three places: its type, itself and its trace. There
is a report only of one that is null and has no trace. -/
def reportOf (v : Value) : Except Fault Text := do
  let trace ← v.place 2
  let _ ← v.place 0
  let exception ← v.place 1
  match trace, exception with
  | .null, .null => return "NoneType: None"
  | .null, v => throw (.missingMethod v.typeName "__suppress_context__")
  | v, _ => throw (.missingMethod v.typeName "tb_frame")

def report? : Cause → Except Fault (Option Text)
  | absent => pure none
  | reported text => pure (some text)
  | other v => if v.isTruthy then some <$> reportOf v else pure none

end Cause

/-- Something to be logged. What it is made of need not be of the type that is usual for it, and may
be missing if all its attributes were replaced. -/
structure Event where
  created : Option Value
  level : Option Value
  logger : Option Value
  thread : Option Value
  message : Option Value
  /-- A tuple, or one argument that is no tuple. -/
  arguments : Option Value
  extras : Table Text Value
  /-- The first attribute name that is no text. -/
  stray : Option Value
  cause : Option Cause

/-- The attributes that every event has; extras of these names are not shown. -/
def standardAttributes : List Text :=
  ["args", "created", "exc_info", "exc_text", "filename", "funcName", "levelname", "levelno",
    "lineno", "message", "module", "msecs", "msg", "name", "pathname", "process", "processName",
    "relativeCreated", "stack_info", "taskName", "thread", "threadName"]

/-- The attributes that an extra may not take the name of. -/
def takenAttributes : List Text :=
  "asctime" :: standardAttributes.filter (· != ("taskName" : Text))

/-- One dictionary that is not empty stands for arguments by name; any other arguments are a tuple. -/
def argumentsOf : List Value → Value
  | [.dict (entry :: rest)] => .dict (entry :: rest)
  | args => .tuple args

/-- When and in which thread an event is made. -/
structure Origin where
  created : Value
  thread : Text

namespace Event

/-- An event of a logger with a message that stands for itself. -/
def plain (origin : Origin) (logger : Text) (level : Value) (message : Text)
    (extras : List (Text × Value)) (failure : Option Failure) : Event :=
  { created := some origin.created
    level := some level
    logger := some (.text logger)
    thread := some (.text origin.thread)
    message := some (.text message)
    arguments := some (.tuple [])
    extras := .ofList extras
    stray := none
    cause := some (failure.elim .absent fun f => .reported f.text) }

/-- The entries of a table that have a text for a name. -/
def named (t : Table Value Value) : Table Text Value :=
  ⟨t.entries.filterMap fun (name, v) => name.text?.map (·, v)⟩

/-- The first name in a table that is no text. -/
def strayOf (t : Table Value Value) : Option Value := t.keys.find? fun name => name.text?.isNone

/-- The event of which nothing is known but its attributes. -/
def ofAttributes (t : Table Value Value) : Event :=
  let extras := named t
  { created := extras.get? "created"
    level := extras.get? "levelname"
    logger := extras.get? "name"
    thread := extras.get? "threadName"
    message := extras.get? "msg"
    arguments := extras.get? "args"
    extras := extras
    stray := strayOf t
    cause := (extras.get? "exc_info").map .other }

/-- Sets an attribute after the event was made. Of the three that a plain value cannot be set to, one
takes a dictionary, which replaces all attributes. -/
def assign (e : Event) (name : Text) (v : Value) : Except Fault Event :=
  match name.string?, v with
  | some "created", v => pure { e with created := some v }
  | some "levelname", v => pure { e with level := some v }
  | some "name", v => pure { e with logger := some v }
  | some "threadName", v => pure { e with thread := some v }
  | some "msg", v => pure { e with message := some v }
  | some "args", v => pure { e with arguments := some v }
  | some "exc_info", v => pure { e with cause := some (.other v) }
  | some "__dict__", .dict entries => pure (ofAttributes ⟨entries⟩)
  | some "__class__", v => throw (.attributeKind "__class__" "class" ("'" ++ v.typeName ++ "' object"))
  | some "__dict__", v => throw (.attributeKind "__dict__" "dictionary" ("a '" ++ v.typeName ++ "'"))
  | some "__weakref__", _ => throw (.attributeFixed "__weakref__")
  | _, v => pure { e with extras := e.extras.insert name v }

/-- An attribute that a line needs. -/
def need {α : Type} (name : String) (held : Option α) : Except Fault α :=
  held.elim (throw (.missingMethod "LogRecord" name)) pure

/-- The attribute by which an event is asked for its message. -/
def messageAttribute : Text := "getMessage"

/-- The message, with the arguments filled in if there are any. An extra of the name by which it is
asked for stands in its way. -/
def text (e : Event) : Except Fault Text := do
  match e.extras.get? messageAttribute with
  | some v => throw (.notCallable v.typeName)
  | none =>
    let template ← (← need "msg" e.message).display
    let arguments ← need "args" e.arguments
    if arguments.isTruthy then fillTemplate template arguments else pure template

def isShown (name : Text) : Bool := !standardAttributes.contains name && name.toList.head? != some (.char '_')

/-- A value that JSON can write, or else its written form. One that cannot be written either way is a fault. -/
def writable (v : Value) : Except Fault Value :=
  match v.image with
  | .ok _ => pure v
  | .error _ => return .text (← v.literal)

/-- What a name that is no text fails with, when it is asked how it starts. -/
def strayFault : Value → Fault
  | .bytes _ => .startNotBytes
  | name => .missingMethod name.typeName "startswith"

/-- The members of the event's line: five that every line has, the extras in their order, and the
exception. One that is named like an earlier one takes its place. -/
def members (e : Event) : Except Fault (Table Text Value) := do
  let time ← (← Timestamp.ofSeconds (← need "created" e.created)).toText
  let fixed : List (Text × Value) := [("timestamp", .text time), ("level", ← need "levelname" e.level),
    ("logger", ← need "name" e.logger), ("event", .text (← e.text)),
    ("thread", ← need "threadName" e.thread)]
  e.stray.elim (pure ()) fun name => throw (strayFault name)
  let shown ← (e.extras.entries.filter fun extra => isShown extra.1).mapM fun extra =>
    return (extra.1, ← writable extra.2)
  let report? ← (← need "exc_info" e.cause).report?
  let exception : List (Text × Value) := (report?.map fun text => (↑"exception", .text text)).toList
  return Table.ofList (fixed ++ shown ++ exception)

/-- The event as one JSON object. -/
def toJson (e : Event) : Except Fault Json := do
  (Value.dict ((← e.members).entries.map fun member => (.text member.1, member.2))).image

/-- The event as one line of text. -/
def line (e : Event) : Except Fault Text := return (← e.toJson).print

end Event

end MetricTree.Log
