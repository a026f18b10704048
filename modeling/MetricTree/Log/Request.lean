import MetricTree.Log.Logger

namespace MetricTree.Log

/-- What can be asked of a log. -/
inductive Request where
  | configure (level : Value)
  | resolve (level : Value)
  | logger (name : String)
  | emit (logger : String) (level : Value) (message : Value) (arguments : List Value)
    (extras : Except Fault (Table Value Value))

inductive Reply where
  | configured (level : Int) (handlers : Nat)
  | resolved (level : Int)
  | logger (name : String) (level : Int) (handlers : Nat)
  | written (lines : List Json)
  | refused (fault : Fault)

namespace Config

/-- Writes an event of any level. -/
def emit (c : Config) (origin : Origin) (logger : String) (level message : Value) (arguments : List Value)
    (extras : Table Value Value) : Except Fault (Option Json) := do
  c.write logger level fun title =>
    { Event.plain origin logger title "" [] none with
      message := some message
      arguments := some (argumentsOf arguments)
      extras := Event.named extras
      stray := Event.strayOf extras }

/-- Answers a request. Whoever asks for a logger finds the log configured; the empty name is the
name of the one above all. -/
def answer (c : Config) (origin : Origin) : Request → Reply × Config
  | .configure level =>
    match c.configure level with
    | .ok after => (.configured after.level (after.handlers rootName), after)
    | .error fault => (.refused fault, c)
  | .resolve level =>
    match resolveLevel level with
    | .ok n => (.resolved n, c)
    | .error fault => (.refused fault, c)
  | .logger name =>
    match c.configure .null with
    | .ok after =>
      (.logger (if name.isEmpty then "root" else name) (after.effectiveLevel name) (after.handlers name), after)
    | .error fault => (.refused fault, c)
  | .emit logger level message arguments extras =>
    match do c.emit origin logger level message arguments (← extras) with
    | .ok line? => (.written line?.toList, c)
    | .error fault => (.refused fault, c)

def answerAll (origin : Origin) : Config → List Request → List Reply
  | _, [] => []
  | c, request :: rest =>
    let (reply, after) := c.answer origin request
    reply :: answerAll origin after rest

end Config

end MetricTree.Log
