import MetricTree.Identity.Part
import MetricTree.Number

namespace MetricTree

/-- What a reporter is told about a metric: its full name, its tags, and a delta or a value. -/
inductive Observation where
  | counter (name : Text) (tags : Tags) (delta : Number)
  | gauge (name : Text) (tags : Tags) (value : Binary64)

namespace Observation

def name : Observation → Text
  | .counter name _ _ => name
  | .gauge name _ _ => name

def tags : Observation → Tags
  | .counter _ tags _ => tags
  | .gauge _ tags _ => tags

def isCounter : Observation → Bool
  | .counter .. => true
  | .gauge .. => false

def amount : Observation → Number
  | .counter _ _ delta => delta
  | .gauge _ _ value => .float value

end Observation

end MetricTree
