import MetricTree.Identity.Encoding
import MetricTree.Cell.Counter
import MetricTree.Cell.Gauge

namespace MetricTree

/-- Counters and gauges under a stem and tags. A scope is known by its identity. -/
structure Scope where
  stem : Text
  tags : Tags
  counters : Table Text Counter
  gauges : Table Text Gauge

namespace Scope

def fresh (stem : Text) (tags : Tags) : Scope := ⟨stem, tags, .empty, .empty⟩

instance : Inhabited Scope := ⟨fresh "" .empty⟩

def identity (s : Scope) : Text := Identity.encode s.stem s.tags

/-- The full name of a metric or scope below: the stem in front, if there is one. -/
def qualify (separator : Text) (s : Scope) (name : Text) : Text :=
  if s.stem.isEmpty then name else s.stem ++ separator ++ name

/-- The full name for a name of any type. Without a stem it is the name itself, whatever it is. -/
def qualifyValue (separator : Text) (s : Scope) (name : Value) : Except Fault Value :=
  if s.stem.isEmpty then pure name
  else
    match name with
    | .text text => pure (.text (s.qualify separator text))
    | v => throw (.notConcatenable v.typeName)

end Scope

end MetricTree
