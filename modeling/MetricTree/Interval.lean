import MetricTree.Table
import MetricTree.Value.Conversion

namespace MetricTree

/-- A span of time, in microseconds. -/
structure Span where
  microseconds : Int
  deriving DecidableEq

namespace Span

def microsecondsPerDay : Int := 86400000000

/-- A span of so many microseconds, unless it is longer than 999999999 days. Days that do not fit
into 32 bits are not even counted. -/
def ofMicroseconds (microseconds : Int) : Except Fault Span :=
  let days := microseconds.fdiv microsecondsPerDay
  if days < -Int.pow 2 31 ∨ Int.pow 2 31 ≤ days then throw (.integerTooWide 32)
  else if 999999999 < days.natAbs then throw (.daysOutOfRange days)
  else pure ⟨microseconds⟩

/-- The units that parts of a span are given in, and their microseconds. -/
def units : List (String × Int) :=
  [("microseconds", 1), ("milliseconds", 1000), ("seconds", 1000000), ("minutes", 60000000),
    ("hours", 3600000000), ("days", microsecondsPerDay), ("weeks", 7 * microsecondsPerDay)]

/-- The microseconds of so many of a unit, which have to be an integer or a truth value. -/
def part (unit : String) (size : Int) : Value → Except Fault Int
  | .int n => pure (n * size)
  | .bool b => pure (b.toNat * size)
  | v => throw (.partNotNumber unit v.typeName)

/-- The span that is the sum of parts in different units. -/
def ofParts (parts : Table String Value) : Except Fault Span := do
  if let some name := parts.keys.find? fun name => (units.lookup name).isNone then throw (.unitUnknown name)
  let amounts ← units.mapM fun (unit, size) => (parts.get? unit).elim (pure 0) (part unit size)
  ofMicroseconds (amounts.foldl (· + ·) 0)

/-- The seconds of a span: one quotient, rounded once. -/
def seconds (s : Span) : Binary64 :=
  .signed (s.microseconds < 0) (.nearest s.microseconds.natAbs 1000000)

end Span

/-- How a report interval is given: a span, or a value for a number of seconds. Null is no interval. -/
inductive Interval where
  | span (s : Span)
  | value (v : Value)

namespace Interval

def rawSeconds : Interval → Except Fault Binary64
  | .span s => pure s.seconds
  | .value .null => pure .zero
  | .value v => v.toBinary64

/-- The seconds of an interval that is not negative; zero means no timer. -/
def seconds (interval : Interval) : Except Fault Binary64 := do
  let s ← interval.rawSeconds
  if s.less .zero then throw (.negativeInterval s) else pure s

end Interval

end MetricTree
