import MetricTree.Binary64.Decimal

namespace MetricTree

namespace Decimal

/-- The nearest multiple of a power of ten; a half goes to the even neighbour. -/
def atScale (d : Decimal) (scale : Int) : Decimal :=
  ⟨roundHalfEven (d.digits * Nat.pow 10 (d.scale - scale).toNat) (Nat.pow 10 (scale - d.scale).toNat), scale⟩

/-- The exponent of the leading digit. -/
def lead (d : Decimal) : Int := if d.digits = 0 then 0 else d.size + d.scale - 1

/-- Rounded to one digit before the point and so many after it. A digit that the rounding adds moves
the point. -/
def toLeading (d : Decimal) (places : Nat) : Decimal :=
  let rounded := d.atScale (d.lead - places)
  if rounded.lead = d.lead then rounded else ⟨rounded.digits / 10, rounded.scale + 1⟩

/-- The digits, with zeros in front up to a number of them. -/
def digitsAtLeast (d : Decimal) (count : Nat) : List Char :=
  let digits := Nat.toDigits 10 d.digits
  List.replicate (count - digits.length) '0' ++ digits

/-- A whole and a fraction, with a point between them if there is a fraction or the point is kept. -/
def pointed (pointKept : Bool) (whole fraction : List Char) : List Char :=
  whole ++ (if fraction.isEmpty && !pointKept then [] else ['.']) ++ fraction

/-- The digits with the last `places` of them after the point. -/
def positional (pointKept : Bool) (d : Decimal) (places : Nat) : List Char :=
  let digits := d.digitsAtLeast (places + 1)
  pointed pointKept (digits.take (digits.length - places)) (digits.drop (digits.length - places))

/-- With a number of places after the point. -/
def withPlaces (pointKept : Bool) (places : Nat) (d : Decimal) : List Char :=
  (d.atScale (-places)).positional pointKept places

/-- An exponent with a sign and at least two digits. -/
def exponentText (exponent : Int) : List Char :=
  'e' :: (if exponent < 0 then '-' else '+') :: (⟨exponent.natAbs, 0⟩ : Decimal).digitsAtLeast 2

/-- With one digit before the point, a number of places after it, and an exponent. -/
def withExponent (pointKept : Bool) (places : Nat) (d : Decimal) : List Char :=
  let rounded := d.toLeading places
  rounded.positional pointKept places ++ exponentText (if rounded.digits = 0 then 0 else rounded.lead)

/-- Digits without the zeros at their end. -/
def withoutZeros (cs : List Char) : List Char := (cs.reverse.dropWhile (· == '0')).reverse

/-- With a number of significant digits, positional for leading exponents from -4 up to that number,
and otherwise with an exponent. Zeros at the end of the fraction are kept only together with the point. -/
def withDigits (zerosKept : Bool) (count : Nat) (d : Decimal) : List Char :=
  let rounded := d.toLeading (count - 1)
  let shorten := fun (digits : List Char) => if zerosKept then digits else withoutZeros digits
  if -4 ≤ rounded.lead ∧ rounded.lead < count then
    let places := (-rounded.scale).toNat
    let digits := rounded.digitsAtLeast (places + 1)
    pointed zerosKept (digits.take (digits.length - places)) (shorten (digits.drop (digits.length - places)))
  else
    let digits := Nat.toDigits 10 rounded.digits
    pointed zerosKept (digits.take 1) (shorten (digits.drop 1)) ++ exponentText rounded.lead

end Decimal

end MetricTree
