import MetricTree.Value.Key

namespace MetricTree

namespace Value

mutual

/-- The order of numbers, of text by code point, of bytes, and of tuples by their first difference. -/
def less : Value → Value → Except Fault Bool
  | .text s, .text t => pure (decide (s < t))
  | .bytes bs, .bytes cs => pure (decide (bs.map UInt8.toNat < cs.map UInt8.toNat))
  | .tuple xs, .tuple ys => lessItems xs ys
  | .list xs, .list ys => lessItems xs ys
  | x, y =>
    match x.number?, y.number? with
    | some m, some n => pure (m.less n)
    | _, _ => throw (.notComparable x.typeName y.typeName)
termination_by structural v => v

def lessItems : List Value → List Value → Except Fault Bool
  | [], ys => pure (!ys.isEmpty)
  | _ :: _, [] => pure false
  | x :: xs, y :: ys => if sameKey x y then lessItems xs ys else less x y
termination_by structural items => items

end

end Value

end MetricTree
