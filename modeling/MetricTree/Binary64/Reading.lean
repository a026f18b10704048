import MetricTree.Binary64.Decimal
import MetricTree.Text.Blank
import MetricTree.Text.DecimalDigit
import MetricTree.Text.Numeral

namespace MetricTree

open Text

namespace Decimal

/-- An exponent mark with its integer, or nothing at all. -/
def exponent? : List Char → Option Int
  | [] => some 0
  | c :: rest => if c = 'e' ∨ c = 'E' then integer? rest else none

/-- Digits with an optional point among them, then an optional exponent. -/
def ofChars? (cs : List Char) : Option Decimal :=
  let whole := cs.takeWhile Char.isDigit
  let afterWhole := cs.dropWhile Char.isDigit
  let fraction := match afterWhole with
    | '.' :: rest => rest.takeWhile Char.isDigit
    | _ => []
  let afterFraction := match afterWhole with
    | '.' :: rest => rest.dropWhile Char.isDigit
    | rest => rest
  if whole.isEmpty && fraction.isEmpty then none
  else (exponent? afterFraction).map fun exponent =>
    ⟨natOfDigits (whole ++ fraction), exponent - fraction.length⟩

end Decimal

namespace Binary64

/-- A signed decimal or the name of a special value, in either case, and nothing around it. -/
def ofChars? (cs : List Char) : Option Binary64 :=
  let (negative, rest) := splitSign cs
  let name := String.ofList (rest.map Char.toLower)
  if name = "inf" ∨ name = "infinity" then some (.signed negative .infinity)
  else if name = "nan" then some .nan
  else (Decimal.ofChars? rest).map fun d => .signed negative d.nearest

/-- Reads a number with blanks around it, digits of any script and underscores between digits. -/
def ofText? (cs : List Char) : Option Binary64 := do
  let plain := (trimBy isBlank cs).map fun c =>
    if c.toNat < 0x7F then c else ((decimalDigit? c).map fun d => Char.ofNat ('0'.toNat + d)).getD c
  ofChars? (← if plain.contains '_' then ungroupDigits? false plain else some plain)

/-- Reads a number with blanks around it, or one with single underscores inside and no blanks. -/
def ofField? (cs : List Char) : Option Binary64 :=
  ofChars? (trimBy isBlank cs) <|> (ungroup? cs).bind ofChars?

end Binary64

end MetricTree
