import MetricTree.Settings.Basic
import MetricTree.Session.Run

namespace MetricTree

/-- Settings as one object: the same number means the same object. -/
structure SettingsObject where
  number : Nat
  settings : Settings

/-- A process that sets up trees: its source of settings, the object that is cached, how many objects
were made, those that were shown, and its log. -/
structure SettingsSession where
  source : Source
  cached : Option SettingsObject
  made : Nat
  shown : List Nat
  config : Log.Config
  origin : Log.Origin

namespace SettingsSession

inductive Command where
  | setVariable (name value : String)
  | unsetVariable (name : String)
  | writeFile (text : String)
  | clear
  | load (args : Except Fault (Table String Value))
  | cached
  /-- Opens a tree with settings from these arguments, or with the cached ones, and takes steps on it. -/
  | openTree (args : Option (Except Fault (Table String Value))) (attached : Session.Attachment)
    (commands : List Session.Command)

inductive Result where
  | nothing
  | refused (fault : Fault)
  | settings (s : Settings) (sameAs : Option Nat)
  | tree (answers : Session.Answers)

def start (origin : Log.Origin) : SettingsSession :=
  ⟨.empty, none, 0, [], .unconfigured, origin⟩

/-- A new object with settings from these arguments. -/
def make (s : SettingsSession) (args : Table String Value) : Except Fault (SettingsObject × SettingsSession) := do
  let settings ← (Settings.load s.source args).mapError .invalid
  return (⟨s.made, settings⟩, { s with made := s.made + 1 })

/-- The cached object. If there is none, one is made without arguments and cached. -/
def fetch (s : SettingsSession) : Except Fault (SettingsObject × SettingsSession) :=
  match s.cached with
  | some object => pure (object, s)
  | none => do
    let (object, after) ← s.make .empty
    return (object, { after with cached := some object })

/-- Shows an object, with its place among those that were shown before. -/
def present (s : SettingsSession) (object : SettingsObject) : Result × SettingsSession :=
  match s.shown.idxOf? object.number with
  | some place => (.settings object.settings (some place), s)
  | none => (.settings object.settings none, { s with shown := s.shown ++ [object.number] })

def presentMade (s : SettingsSession) (made : Except Fault (SettingsObject × SettingsSession)) :
    Result × SettingsSession :=
  match made with
  | .ok (object, after) => after.present object
  | .error fault => (.refused fault, s)

def putSource (s : SettingsSession) (source : Source) : Result × SettingsSession :=
  (.nothing, { s with source := source })

/-- Opens a tree, for which the log is configured first. -/
def openTree (s : SettingsSession) (object : SettingsObject) (attached : Session.Attachment)
    (commands : List Session.Command) : Result × SettingsSession :=
  match s.config.configure (.text object.settings.level.name) with
  | .error fault => (.refused fault, s)
  | .ok config =>
    let after := { s with config := config }
    match object.settings.openTree attached.reporter with
    | .error fault => (.refused fault, after)
    | .ok opening => (.tree (Session.run config s.origin attached (pure opening) commands), after)

def step (s : SettingsSession) : Command → Result × SettingsSession
  | .setVariable name value =>
    match s.source.setVariable name value with
    | .ok source => s.putSource source
    | .error fault => (.refused fault, s)
  | .unsetVariable name => s.putSource { s.source with environment := s.source.environment.erase name }
  | .writeFile text => s.putSource { s.source with file := text }
  | .clear => (.nothing, { s with cached := none })
  | .load args => s.presentMade do s.make (← args)
  | .cached => s.presentMade s.fetch
  | .openTree args attached commands =>
    match args.elim s.fetch fun args => do s.make (← args) with
    | .ok (object, after) => after.openTree object attached commands
    | .error fault => (.refused fault, s)

def run : SettingsSession → List Command → List Result
  | _, [] => []
  | s, command :: rest =>
    let (result, after) := s.step command
    result :: run after rest

end SettingsSession

end MetricTree
