import MetricTree.Tree.Basic
import MetricTree.Record.Field

namespace MetricTree

/-- A metric as a snapshot shows it. -/
structure Reading (α : Type) where
  name : Text
  tags : Tags
  value : α

/-- The unreported deltas and the last gauge values of a tree, by the identity of full name and tags. -/
structure Snapshot where
  counters : Table Text (Reading Int)
  gauges : Table Text (Reading Binary64)

namespace Snapshot

/-- The delta of a counter as an integer, with what other scopes have under the same identity. -/
def total (delta : Number) (standing : Option (Reading Int)) : Except Fault Int := do
  let sum ← standing.elim (pure delta) fun reading => delta.add (.int reading.value)
  (Field.named ["value"] (Field.integer (.ofNumber sum))).mapError .invalid

def addCounters (separator : Text) (s : Scope) :
    Table Text (Reading Int) → List (Text × Counter) → Except Fault (Table Text (Reading Int))
  | seen, [] => pure seen
  | seen, (name, counter) :: rest => do
    let fullName := s.qualify separator name
    let identity := Identity.encode fullName s.tags
    let value ← total (← counter.delta) (seen.get? identity)
    addCounters separator s (seen.insert identity ⟨fullName, s.tags, value⟩) rest

def counterReadings (separator : Text) :
    Table Text (Reading Int) → List Scope → Except Fault (Table Text (Reading Int))
  | seen, [] => pure seen
  | seen, s :: rest => do counterReadings separator (← addCounters separator s seen s.counters.entries) rest

/-- A gauge shows its value under the identity of its full name; of several, the last one counts. -/
def gaugeReadings (separator : Text) (scopes : List Scope) : Table Text (Reading Binary64) :=
  .ofList <| scopes.flatMap fun s => s.gauges.entries.map fun (name, gauge) =>
    let fullName := s.qualify separator name
    (Identity.encode fullName s.tags, ⟨fullName, s.tags, gauge.value⟩)

end Snapshot

/-- What a tree has to report, seen without touching it. -/
def Tree.snapshot (t : Tree) : Except Fault Snapshot :=
  return ⟨← Snapshot.counterReadings t.separator .empty t.scopes,
    Snapshot.gaugeReadings t.separator t.scopes⟩

end MetricTree
