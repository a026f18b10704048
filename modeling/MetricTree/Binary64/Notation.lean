import MetricTree.Binary64.Decimal

namespace MetricTree

namespace Decimal

/-- Positional for leading exponents from -4 to 15, with at least one place after the point;
otherwise one leading digit and a signed exponent of at least two digits. -/
def written (d : Decimal) : String :=
  let digits := Nat.toDigits 10 d.digits
  let zeros := fun (n : Nat) => List.replicate n '0'
  let lead : Int := digits.length + d.scale - 1
  if -4 ≤ lead ∧ lead < 16 then
    let whole := (lead + 1).toNat
    if lead < 0 then String.ofList ('0' :: '.' :: zeros (-lead - 1).toNat ++ digits)
    else if digits.length ≤ whole then
      String.ofList (digits ++ zeros (whole - digits.length) ++ ['.', '0'])
    else String.ofList (digits.take whole ++ '.' :: digits.drop whole)
  else
    let mantissa := match digits with
      | [] => []
      | [digit] => [digit]
      | digit :: rest => digit :: '.' :: rest
    let exponent := Nat.toDigits 10 lead.natAbs
    let sign := if lead < 0 then '-' else '+'
    String.ofList (mantissa ++ 'e' :: sign :: zeros (2 - exponent.length) ++ exponent)

end Decimal

namespace Binary64

/-- The number with the fewest digits that identify it. -/
def toText : Binary64 → String
  | .nan => "nan"
  | .signed negative m =>
    (if negative then "-" else "") ++ if m = .infinity then "inf" else m.shortest.written

end Binary64

end MetricTree
