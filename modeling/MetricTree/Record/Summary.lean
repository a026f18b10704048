import MetricTree.Record.Field
import MetricTree.Table

namespace MetricTree

/-- What a pass did: metrics taken by the reporter, by kind, and calls that failed. -/
structure Summary where
  counters : Int
  gauges : Int
  errors : Int
  deriving DecidableEq

namespace Summary

def empty : Summary := ⟨0, 0, 0⟩

instance : Inhabited Summary := ⟨empty⟩

def emitted (s : Summary) : Int := s.counters + s.gauges

/-- Reads a summary from fields that are zero unless given. -/
def ofFields (fields : Table String Value) : Except (List Issue) Summary := do
  let count := fun (name : String) =>
    Field.named [name] ((fields.get? name).elim (pure 0) Field.integer)
  let (counters, gauges, errors) ←
    Field.both (count "counters") (Field.both (count "gauges") (count "errors"))
  return ⟨counters, gauges, errors⟩

end Summary

end MetricTree
