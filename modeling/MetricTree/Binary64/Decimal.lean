import MetricTree.Binary64.Rounding

namespace MetricTree

/-- The number `digits * 10 ^ scale`. -/
structure Decimal where
  digits : Nat
  scale : Int
  deriving DecidableEq

namespace Decimal

/-- How many digits it takes to write the digits. -/
def size (d : Decimal) : Nat := (Nat.toDigits 10 d.digits).length

/-- The nearest binary64 magnitude. Numbers far out of range are settled by their size alone. -/
def nearest (d : Decimal) : Magnitude :=
  if d.digits = 0 then .zero
  else if 310 < d.size + d.scale then .infinity
  else if d.size + d.scale < -330 then .zero
  else .nearest (d.digits * Nat.pow 10 d.scale.toNat) (Nat.pow 10 (-d.scale).toNat)

/-- Moves up to `count` closing zeros of the digits into the scale. -/
def dropZeros : Nat → Decimal → Decimal
  | 0, d => d
  | count + 1, d => if d.digits % 10 = 0 then dropZeros count ⟨d.digits / 10, d.scale + 1⟩ else d

/-- The same number without closing zeros; zero itself has scale zero. -/
def trim (d : Decimal) : Decimal := if d.digits = 0 then ⟨0, 0⟩ else dropZeros d.size d

end Decimal

namespace Magnitude

/-- The exact value of a finite magnitude. -/
def exact (m : Magnitude) : Decimal := ⟨m.units * Nat.pow 5 1074, -1074⟩

/-- Of the two decimals of `count` digits next to a magnitude, the nearer one that reads back to it.
If both are equally near, the even one. -/
def closest? (m : Magnitude) (count : Nat) : Option Decimal :=
  let exact := m.exact
  let dropped := exact.size - count
  let unit := Nat.pow 10 dropped
  let low : Decimal := ⟨exact.digits / unit, exact.scale + dropped⟩
  let high : Decimal := ⟨exact.digits / unit + 1, exact.scale + dropped⟩
  if low.nearest = m then
    let twice := 2 * exact.digits
    let middle := (2 * low.digits + 1) * unit
    some (if high.nearest ≠ m ∨ twice < middle ∨ (twice = middle ∧ low.digits % 2 = 0) then low else high)
  else if high.nearest = m then some high
  else none

/-- The decimal with the fewest digits that reads back to a finite magnitude. -/
def shortest (m : Magnitude) : Decimal :=
  (((List.range 17).findSome? fun n => m.closest? (n + 1)).getD m.exact).trim

end Magnitude

end MetricTree
