import MetricTree.Value.Basic
import MetricTree.Binary64.Rounding

namespace MetricTree.Log

/-- A point in time, in microseconds since the start of 1970. -/
structure Timestamp where
  microseconds : Int
  deriving DecidableEq

namespace Timestamp

/-- The point in time that lies so many seconds after the start of 1970. -/
def ofSeconds : Value → Except Fault Timestamp
  | .int n => pure ⟨n * 1000000⟩
  | .bool b => pure ⟨b.toNat * 1000000⟩
  | .float .nan => throw .timeUndefined
  | .float (.signed negative m) =>
    if m = .infinity then throw .timeTooLarge
    else
      let whole := m.units / unitsPerOne
      let fraction := Magnitude.nearestUnits (m.units % unitsPerOne) 1
      let distance : Int := whole * 1000000 + Binary64.millionths fraction
      pure ⟨if negative then -distance else distance⟩
  | v => throw (.notATime v.typeName)

structure Date where
  year : Int
  month : Nat
  day : Nat
  deriving DecidableEq

/-- The date of the day that lies so many days after the start of 1970. Years are counted from
March, so that a leap day ends its year, in cycles of 400 years. -/
def Date.ofDays (days : Int) : Date :=
  let sinceMarch := days + 719468
  let cycle := sinceMarch.fdiv 146097
  let dayOfCycle := (sinceMarch.fmod 146097).toNat
  let yearOfCycle :=
    (dayOfCycle - dayOfCycle / 1460 + dayOfCycle / 36524 - dayOfCycle / 146096) / 365
  let dayOfYear := dayOfCycle - (365 * yearOfCycle + yearOfCycle / 4 - yearOfCycle / 100)
  let monthFromMarch := (5 * dayOfYear + 2) / 153
  let month := if monthFromMarch < 10 then monthFromMarch + 3 else monthFromMarch - 9
  { year := cycle * 400 + yearOfCycle + if month ≤ 2 then 1 else 0
    month := month
    day := dayOfYear - (153 * monthFromMarch + 2) / 5 + 1 }

/-- A number with zeros in front up to the width. -/
def padded (width n : Nat) : String :=
  let digits := Nat.toDigits 10 n
  String.ofList (List.replicate (width - digits.length) '0' ++ digits)

/-- Date and time in universal time, with six places of a second unless all are zero. A year that has
no four digits is told as an integer of 32 bits. -/
def toText (t : Timestamp) : Except Fault String :=
  let seconds := t.microseconds.fdiv 1000000
  let fraction := (t.microseconds.fmod 1000000).toNat
  let date := Date.ofDays (seconds.fdiv 86400)
  let second := (seconds.fmod 86400).toNat
  if seconds < -Int.pow 2 63 ∨ Int.pow 2 63 ≤ seconds then throw .timeTooLarge
  else if date.year - 1900 < -Int.pow 2 31 ∨ Int.pow 2 31 ≤ date.year - 1900 then throw .yearTooLarge
  else if date.year < 1 ∨ 9999 < date.year then throw (.yearOutOfRange (date.year.bmod (Nat.pow 2 32)))
  else
    let day := padded 4 date.year.toNat ++ "-" ++ padded 2 date.month ++ "-" ++ padded 2 date.day
    let time := padded 2 (second / 3600) ++ ":" ++ padded 2 (second / 60 % 60) ++ ":" ++
      padded 2 (second % 60)
    pure (day ++ "T" ++ time ++ (if fraction = 0 then "" else "." ++ padded 6 fraction) ++ "+00:00")

end Timestamp

end MetricTree.Log
