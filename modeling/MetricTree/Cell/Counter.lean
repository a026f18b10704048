import MetricTree.Value.Basic

namespace MetricTree

namespace Number

/-- An integer may stand beside a binary64 number only if it can be rounded to one. -/
def toBinary64 : Number → Except Fault Binary64
  | .int n => (Binary64.ofInt? n).elim (throw .integerTooLarge) pure
  | .float x => pure x

def add : Number → Number → Except Fault Number
  | .int m, .int n => pure (.int (m + n))
  | x, y => return .float ((← x.toBinary64).add (← y.toBinary64))

def sub : Number → Number → Except Fault Number
  | .int m, .int n => pure (.int (m - n))
  | x, y => return .float ((← x.toBinary64).sub (← y.toBinary64))

end Number

/-- A running total, and the total that was last reported. -/
structure Counter where
  total : Number
  reported : Number

namespace Counter

def fresh : Counter := ⟨.int 0, .int 0⟩

def inc (c : Counter) (amount : Value) : Except Fault Counter :=
  match amount.number? with
  | some n => return { c with total := ← c.total.add n }
  | none => throw (.notAddable c.total.typeName amount.typeName)

/-- What was added since the last report. -/
def delta (c : Counter) : Except Fault Number := c.total.sub c.reported

/-- The unreported delta, and the counter with nothing left to report. -/
def consume (c : Counter) : Except Fault (Number × Counter) := do
  return (← c.delta, { c with reported := c.total })

end Counter

end MetricTree
