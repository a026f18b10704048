import MetricTree.Tree.Metric
import MetricTree.Tree.Observation
import MetricTree.Record.Summary

namespace MetricTree

/-- Where a pass stands within a scope: the names of the counters, and then of the gauges, that are
still to be visited there. -/
inductive Cursor where
  | counters (scope : Text) (names : List Text)
  | gauges (scope : Text) (names : List Text)

def Cursor.scope : Cursor → Text
  | .counters scope _ => scope
  | .gauges scope _ => scope

/-- A pass over the scopes that were registered when it began: those still to be entered, its place
in the one it is in, and what came of its calls so far. -/
structure Pass where
  waiting : List Text
  cursor : Cursor
  tally : Summary

namespace Tree

/-- Consumes a counter; a delta that is not zero is to be reported. -/
def visitCounter (t : Tree) (identity name : Text) : Except Fault (Option Observation × Tree) := do
  let s ← t.scope identity
  let (delta, after) ← t.consumeCounter ⟨identity, name⟩
  return (if delta.isZero then none else some (.counter (s.qualify t.separator name) s.tags delta), after)

/-- Consumes a gauge; a value that was written is to be reported. -/
def visitGauge (t : Tree) (identity name : Text) : Except Fault (Option Observation × Tree) := do
  let s ← t.scope identity
  let ((value, dirty), after) ← t.consumeGauge ⟨identity, name⟩
  return (if dirty then some (.gauge (s.qualify t.separator name) s.tags value) else none, after)

/-- Visits metrics up to the first one that is to be reported. With it come the names after it. -/
def scan (visit : Tree → Text → Except Fault (Option Observation × Tree)) (t : Tree) :
    List Text → Except Fault (Option (Observation × List Text)) × Tree
  | [] => (pure none, t)
  | name :: rest =>
    match visit t name with
    | .error fault => (throw fault, t)
    | .ok (none, after) => scan visit after rest
    | .ok (some found, after) => (pure (some (found, rest)), after)

def counterNames (t : Tree) (identity : Text) : List Text :=
  ((t.scope? identity).map (·.counters.keys)).getD []

def gaugeNames (t : Tree) (identity : Text) : List Text :=
  ((t.scope? identity).map (·.gauges.keys)).getD []

/-- What a pass finds next in a scope. Which gauges there are is settled once the counters are done. -/
def nextWithin (t : Tree) : Cursor → Except Fault (Option (Observation × Cursor)) × Tree
  | .gauges identity names =>
    let (found, after) := scan (visitGauge · identity) t names
    (found.map (·.map fun (o, rest) => (o, .gauges identity rest)), after)
  | .counters identity names =>
    match scan (visitCounter · identity) t names with
    | (.error fault, after) => (throw fault, after)
    | (.ok (some (o, rest)), after) => (pure (some (o, .counters identity rest)), after)
    | (.ok none, after) =>
      let (found, final) := scan (visitGauge · identity) after (after.gaugeNames identity)
      (found.map (·.map fun (o, rest) => (o, .gauges identity rest)), final)

/-- What a pass finds next when it enters these scopes one after the other. -/
def enter (t : Tree) (tally : Summary) : List Text → Except Fault (Option (Observation × Pass)) × Tree
  | [] => (pure none, t)
  | identity :: waiting =>
    match t.nextWithin (.counters identity (t.counterNames identity)) with
    | (.error fault, after) => (throw fault, after)
    | (.ok (some (o, cursor)), after) => (pure (some (o, ⟨waiting, cursor, tally⟩)), after)
    | (.ok none, after) => after.enter tally waiting

/-- What a pass over all scopes of the tree finds first. -/
def beginPass (t : Tree) : Except Fault (Option (Observation × Pass)) × Tree :=
  t.enter .empty t.identities

/-- What a pass finds next. -/
def continuePass (t : Tree) (p : Pass) : Except Fault (Option (Observation × Pass)) × Tree :=
  match t.nextWithin p.cursor with
  | (.error fault, after) => (throw fault, after)
  | (.ok (some (o, cursor)), after) => (pure (some (o, { p with cursor := cursor })), after)
  | (.ok none, after) => after.enter p.tally p.waiting

end Tree

end MetricTree
