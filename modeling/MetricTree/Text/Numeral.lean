namespace MetricTree.Text

/-- How many digits an integer may have where it is read from a text or written as one. -/
def longest : Nat := 43 * 100

/-- The least natural number with more digits than that, as a power whose exponents are small. -/
def leastTooLong : Nat := Nat.pow (Nat.pow 10 43) 100

theorem pow_pow_eq {b m n k : Nat} (product : m * n = k) : Nat.pow (Nat.pow b m) n = Nat.pow b k := by
  rw [← product]
  exact (Nat.pow_mul b m n).symm

theorem leastTooLong_eq : leastTooLong = Nat.pow 10 longest := pow_pow_eq rfl

def digitValue (c : Char) : Nat := c.toNat - '0'.toNat

/-- The natural number that a row of decimal digits writes. -/
def natOfDigits (cs : List Char) : Nat := cs.foldl (fun n c => 10 * n + digitValue c) 0

/-- Splits off a sign; `true` is minus. -/
def splitSign : List Char → Bool × List Char
  | '-' :: rest => (true, rest)
  | '+' :: rest => (false, rest)
  | cs => (false, cs)

/-- A row of at least one digit. -/
def natural? (cs : List Char) : Option Nat :=
  if cs.isEmpty || !cs.all Char.isDigit then none else some (natOfDigits cs)

/-- An optional sign and a row of digits. -/
def integer? (cs : List Char) : Option Int :=
  let (negative, digits) := splitSign cs
  (natural? digits).map fun n => if negative then -n else n

/-- Removes underscores that stand between two digits; any other underscore is refused. -/
def ungroupDigits? (afterDigit : Bool) : List Char → Option (List Char)
  | [] => some []
  | '_' :: c :: rest =>
    if afterDigit && c.isDigit then (ungroupDigits? true rest).map (c :: ·) else none
  | ['_'] => none
  | c :: rest => (ungroupDigits? c.isDigit rest).map (c :: ·)

/-- Removes single underscores inside the text; one at an end, or two in a row, is refused. -/
def ungroup? (cs : List Char) : Option (List Char) :=
  let doubled := (cs.zip cs.tail).any fun pair => pair.1 == '_' && pair.2 == '_'
  if cs.head? == some '_' || cs.getLast? == some '_' || doubled then none
  else some (cs.filter (· != '_'))

end MetricTree.Text
