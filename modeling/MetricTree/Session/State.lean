import MetricTree.Session.Script
import MetricTree.Batch.Journal
import MetricTree.Loop.Notice
import MetricTree.Loop.Progress
import MetricTree.Tree.Metric

namespace MetricTree

namespace Session

/-- What is kept under a name. -/
inductive Item where
  | scope (identity : Text)
  | counter (h : Handle)
  | gauge (h : Handle)
  | snapshot (s : Snapshot)

namespace Item

def typeName : Item → String
  | scope _ => "Scope"
  | counter _ => "Counter"
  | gauge _ => "Gauge"
  | snapshot _ => "Snapshot"

/-- Are the items one and the same scope, counter or gauge? -/
def isSame : Item → Item → Bool
  | scope i, scope j => i == j
  | counter h, counter k => h == k
  | gauge h, gauge k => h == k
  | _, _ => false

end Item

/-- The reporter at the far end. -/
inductive Sink where
  | absent
  | bare
  | recording
  | batch (b : Batch)
  | journal (j : Journal) (b : Batch)

end Session

/-- A tree in use: its loop, what is kept under names, the reporter with the rules it follows, the
number of events of each kind, and what was recorded and logged in the present step. -/
structure Session where
  config : Log.Config
  origin : Log.Origin
  loop : Loop
  kept : Table String Session.Item
  sink : Session.Sink
  rules : List Session.Rule
  counts : Table Session.EventKind Nat
  entries : Array Session.Entry
  lines : Array Json

namespace Session

def log (s : Session) (lines : List Json) : Session := { s with lines := s.lines ++ lines.toArray }

def tell (s : Session) (notices : List Notice) : Session := s.log (s.config.tell s.origin notices)

def putLoop (s : Session) (l : Loop) : Session := { s with loop := l }

def putTree (s : Session) (t : Tree) : Session := { s with loop := { s.loop with tree := t } }

/-- The loop and the log after a step of the reporting. -/
def moved (s : Session) (m : Move) : Session := (s.putLoop m.loop).tell m.notices

/-- Keeps an item under a name, unless the name is taken. -/
def keep (s : Session) (name : Option String) (item : Item) : Session :=
  match name with
  | some name => if s.kept.contains name then s else { s with kept := s.kept.insert name item }
  | none => s

/-- The first name that an item was kept under. -/
def sameAs (s : Session) (item : Item) : Option String :=
  (s.kept.entries.find? fun entry => entry.2.isSame item).map (·.1)

def item (s : Session) (name : String) : Except Fault Item :=
  (s.kept.get? name).elim (throw (.keyMissing (Text.quoted name))) pure

/-- The scope that is kept under a name. Another item lacks what is asked of the scope. -/
def scopeFor (s : Session) (name asked : String) : Except Fault Text := do
  match ← s.item name with
  | .scope identity => pure identity
  | item => throw (.missingMethod item.typeName asked)

/-- The counter at a place; one that is named is made if need be. -/
def counterAt (s : Session) (asked : String) : Place → Except Fault (Handle × Session)
  | .named scope name => do
    let (h, t) ← s.loop.tree.counter (← s.scopeFor scope "counter") name
    return (h, s.putTree t)
  | .kept handle => do
    match ← s.item handle with
    | .counter h => pure (h, s)
    | item => throw (.missingMethod item.typeName asked)

/-- The gauge at a place; one that is named is made if need be. -/
def gaugeAt (s : Session) (asked : String) : Place → Except Fault (Handle × Session)
  | .named scope name => do
    let (h, t) ← s.loop.tree.gauge (← s.scopeFor scope "gauge") name
    return (h, s.putTree t)
  | .kept handle => do
    match ← s.item handle with
    | .gauge h => pure (h, s)
    | item => throw (.missingMethod item.typeName asked)

/-- Counts and records an event. The answer is how often its kind has occurred by now. -/
def record (s : Session) (event : Event) : Nat × Session :=
  let count := (s.counts.get? event.kind).getD 0 + 1
  (count, { s with
    counts := s.counts.insert event.kind count
    entries := s.entries.push ⟨event, none⟩ })

/-- Adds answers to the entry at a position. -/
def nest (s : Session) (position : Nat) (results : List Result) : Session :=
  { s with entries := s.entries.modify position fun entry =>
      { entry with nested := some (entry.nested.getD [] ++ results) } }

end Session

end MetricTree
