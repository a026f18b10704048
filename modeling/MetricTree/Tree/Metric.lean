import MetricTree.Tree.Basic

namespace MetricTree

/-- A counter or gauge of a tree: the identity of its scope, and its name there. -/
structure Handle where
  scope : Text
  name : Text
  deriving DecidableEq

namespace Tree

/-- The metric of this name. It is looked for first; only where there is none, the name is checked and a new one stored.
A name that could be no key is refused already by the looking. -/
def findOrMake (t : Tree) (identity : Text) (name : Value) (known : Scope → Text → Bool)
    (store : Scope → Text → Scope) : Except Fault (Handle × Tree) := do
  let s ← t.scope identity
  name.hashable
  match name.textKey?.filter (known s) with
  | some text => return (⟨identity, text⟩, t)
  | none =>
    let text ← Identity.checkName "metric name" false name
    return (⟨identity, text⟩, t.putScope identity (store s text))

/-- The counter of this name, made on first use. -/
def counter (t : Tree) (identity : Text) (name : Value) : Except Fault (Handle × Tree) :=
  t.findOrMake identity name (·.counters.contains ·) fun s text =>
    { s with counters := s.counters.insert text .fresh }

/-- The gauge of this name, made on first use. -/
def gauge (t : Tree) (identity : Text) (name : Value) : Except Fault (Handle × Tree) :=
  t.findOrMake identity name (·.gauges.contains ·) fun s text =>
    { s with gauges := s.gauges.insert text .fresh }

def readCounter (t : Tree) (h : Handle) : Except Fault Counter := do
  let s ← t.scope h.scope
  (s.counters.get? h.name).elim (throw (.keyMissing (Text.quoted h.name))) pure

def readGauge (t : Tree) (h : Handle) : Except Fault Gauge := do
  let s ← t.scope h.scope
  (s.gauges.get? h.name).elim (throw (.keyMissing (Text.quoted h.name))) pure

def putCounter (t : Tree) (h : Handle) (c : Counter) : Except Fault Tree := do
  let s ← t.scope h.scope
  return t.putScope h.scope { s with counters := s.counters.insert h.name c }

def putGauge (t : Tree) (h : Handle) (g : Gauge) : Except Fault Tree := do
  let s ← t.scope h.scope
  return t.putScope h.scope { s with gauges := s.gauges.insert h.name g }

/-- Adds to a counter. An amount that is refused leaves the tree as it was. -/
def inc (t : Tree) (h : Handle) (amount : Value) : Except Fault Tree := do
  t.putCounter h (← (← t.readCounter h).inc amount)

/-- Writes a gauge. A value that is refused leaves the tree as it was. -/
def update (t : Tree) (h : Handle) (value : Value) : Except Fault Tree := do
  t.putGauge h (← (← t.readGauge h).update value)

/-- The unreported delta of a counter, which is then taken as reported. -/
def consumeCounter (t : Tree) (h : Handle) : Except Fault (Number × Tree) := do
  let (delta, c) ← (← t.readCounter h).consume
  return (delta, ← t.putCounter h c)

/-- The value of a gauge, and whether it was still to be reported, as it then no longer is. -/
def consumeGauge (t : Tree) (h : Handle) : Except Fault ((Binary64 × Bool) × Tree) := do
  let (seen, g) := (← t.readGauge h).consume
  return (seen, ← t.putGauge h g)

end Tree

end MetricTree
