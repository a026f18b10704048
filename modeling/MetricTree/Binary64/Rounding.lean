import MetricTree.Binary64.Basic

namespace MetricTree

/-- The integer nearest to `num / den`; a half goes to the even neighbour. -/
def roundHalfEven (num den : Nat) : Nat :=
  let quotient := num / den
  let rest := 2 * (num % den)
  if rest < den then quotient
  else if den < rest then quotient + 1
  else quotient + quotient % 2

namespace Magnitude

/-- The magnitude nearest to `num / den` least units. Ranks within and across binades are evenly
numbered, so a significand that rounds up to the next power of two carries into the right rank. -/
def nearestUnits (num den : Nat) : Magnitude :=
  let shift := (num / den).log2 - 52
  ofRank (shift * Nat.pow 2 52 + roundHalfEven num (den * Nat.pow 2 shift))

/-- The magnitude nearest to `num / den`. -/
def nearest (num den : Nat) : Magnitude := nearestUnits (num * unitsPerOne) den

end Magnitude

namespace Binary64

/-- The number nearest to a count of least units; nothing is the positive zero. -/
def ofUnits (units : Int) : Binary64 :=
  .signed (units < 0) (.nearestUnits units.natAbs 1)

/-- The number nearest to an integer, unless that is infinity. -/
def ofInt? (n : Int) : Option Binary64 :=
  let m := Magnitude.nearest n.natAbs 1
  if m = .infinity then none else some (.signed (n < 0) m)

/-- The sum, rounded once. Only two negative zeros add up to a negative zero. -/
def add : Binary64 → Binary64 → Binary64
  | .nan, _ => .nan
  | _, .nan => .nan
  | .signed s m, .signed t n =>
    if m = .infinity then
      if n = .infinity ∧ s ≠ t then .nan else .signed s m
    else if n = .infinity then .signed t n
    else if m = .zero ∧ n = .zero then .signed (s && t) .zero
    else
      let signedUnits := fun (negative : Bool) (k : Magnitude) =>
        if negative then -(k.units : Int) else k.units
      ofUnits (signedUnits s m + signedUnits t n)

def sub (x y : Binary64) : Binary64 := x.add y.neg

/-- The integer nearest to a million times the fraction, after that product was rounded to binary64. -/
def millionths (fraction : Magnitude) : Nat :=
  roundHalfEven (Magnitude.nearestUnits (fraction.units * 1000000) 1).units unitsPerOne

end Binary64

end MetricTree
