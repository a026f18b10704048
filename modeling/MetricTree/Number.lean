import MetricTree.Binary64.Rounding

namespace MetricTree

/-- An exact integer or a binary64 number. -/
inductive Number where
  | int (n : Int)
  | float (x : Binary64)
  deriving DecidableEq

namespace Number

def typeName : Number → String
  | .int _ => "int"
  | .float _ => "float"

/-- Zero as an integer and both binary64 zeros. -/
def isZero : Number → Bool
  | .int n => n == 0
  | .float x => x.isZero

/-- Comparison by exact value, at which only NaN and the infinities are no integers' peers. -/
def equals : Number → Number → Bool
  | .int m, .int n => m == n
  | .float x, .float y => x.equals y
  | .int n, .float x => x.units? == some (n * unitsPerOne)
  | .float x, .int n => x.units? == some (n * unitsPerOne)

/-- Is the integer less than the number? -/
def intLess (n : Int) : Binary64 → Bool
  | .nan => false
  | .signed negative m =>
    if m = .infinity then !negative
    else n * unitsPerOne < if negative then -(m.units : Int) else m.units

def less : Number → Number → Bool
  | .int m, .int n => m < n
  | .float x, .float y => x.less y
  | .int n, .float x => intLess n x
  | .float x, .int n => intLess (-n) x.neg

end Number

end MetricTree
