import MetricTree.Value.Literal
import MetricTree.Binary64.Reading

namespace MetricTree.Field

/-- A text, or bytes that encode one. -/
def text : Value → Except Refusal Text
  | .text s => pure s
  | .bytes bs => (String.fromUTF8? ⟨bs.toArray⟩).elim (throw .notUnicode) fun s => pure s
  | _ => throw .notText

/-- The text that consists of characters alone. -/
def unicode (s : Text) : Except Refusal String := s.string?.elim (throw .notUnicode) pure

/-- The text in which a number may be written. -/
def written? (unreadable : Refusal) : Value → Option (Except Refusal String)
  | .text s => some (unicode s)
  | .bytes bs => some ((String.fromUTF8? ⟨bs.toArray⟩).elim (throw unreadable) pure)
  | _ => none

/-- Drops the zeros in front, among which underscores may stand. The last one stays if nothing
follows, or a point; any other character ends the zeros only if it can begin a number. -/
def dropZeros? (last : Char) : List Char → Option (List Char)
  | [] => some [last]
  | c :: rest =>
    if c = '0' ∨ c = '_' then dropZeros? c rest
    else if c.isDigit ∨ c = '-' then some (c :: rest)
    else if c = '.' then some (last :: c :: rest)
    else none

/-- A number from its first significant digit on. -/
def significant? : List Char → Option (List Char)
  | '0' :: rest => dropZeros? '0' rest
  | c :: rest => if c.isDigit ∨ c = '-' then some (c :: rest) else none
  | [] => none

/-- A point with zeros after it, and nothing else, adds nothing to what stands before it. -/
def dropPoint (cs : List Char) : List Char :=
  let whole := cs.takeWhile (· != '.')
  let zeros := (cs.drop whole.length).drop 1
  if !zeros.isEmpty && zeros.all (· == '0') then whole else cs

/-- A minus is set aside while zeros, a point and single underscores are taken out; a plus is dropped. -/
def plainInteger? : List Char → Option (List Char)
  | '+' :: '-' :: _ => none
  | '+' :: rest => withoutSign rest
  | '-' :: rest => (withoutSign rest).map ('-' :: ·)
  | cs => withoutSign cs
where
  withoutSign (cs : List Char) : Option (List Char) :=
    (significant? cs).map fun digits =>
      let plain := dropPoint digits
      (Text.ungroup? plain).getD plain

/-- An optional minus and digits, of which only the one of zero itself may be a zero in front. -/
def readPlain (cs : List Char) : Except Refusal Int :=
  let (negative, digits) := match cs with
    | '-' :: rest => (true, rest)
    | rest => (false, rest)
  let row := digits.takeWhile Char.isDigit
  let signed := fun (n : Nat) => if negative then -(n : Int) else n
  if row.head? == some '0' then if digits = ['0'] then pure 0 else throw .unreadableInteger
  else if Text.longest < row.length then throw .tooLarge
  else (Text.natural? digits).elim (throw .unreadableInteger) fun n => pure (signed n)

/-- An integer with blanks around it, zeros in front, single underscores inside and zeros after a point.
Only one that needs nothing taken away is told to be too large. -/
def integerOfChars (cs : List Char) : Except Refusal Int :=
  match readPlain cs with
  | .ok n => pure n
  | .error .tooLarge => throw .tooLarge
  | .error _ =>
    ((plainInteger? (Text.trimBy Text.isBlank cs)).bind fun plain => (readPlain plain).toOption).elim
      (throw .unreadableInteger) pure

/-- A whole number of less than 64 bits. -/
def integerOfBinary64 (x : Binary64) : Except Refusal Int := do
  if !x.isFinite then throw .notFinite
  let n ← x.integer?.elim (throw .fractional) pure
  if n.natAbs < Nat.pow 2 63 then pure n else throw .tooLarge

/-- An integer: a whole number of either type, a truth value, or a text that writes one. -/
def integer (v : Value) : Except Refusal Int :=
  match v with
  | .int n => pure n
  | .bool b => pure b.toNat
  | .float x => integerOfBinary64 x
  | _ =>
    match written? .unreadableInteger v with
    | some s => do integerOfChars (← s).toList
    | none => throw .notInteger

/-- A binary64 number: a number or truth value that has one, or a text that writes one. -/
def number (v : Value) : Except Refusal Binary64 :=
  match v with
  | .float x => pure x
  | .int n => (Binary64.ofInt? n).elim (throw .notNumber) pure
  | .bool b => (Binary64.ofInt? b.toNat).elim (throw .notNumber) pure
  | .object o => o.real.toOption.elim (throw .notNumber) pure
  | _ =>
    match written? .unreadableNumber v with
    | some s => do (Binary64.ofField? (← s).toList).elim (throw .unreadableNumber) pure
    | none => throw .notNumber

/-- How a key is named on the way to a refused field. -/
def keyName : Value → String
  | .text s => s.lossy
  | .bool b => if b then "1" else "0"
  | v => (v.literal.toOption.map Text.lossy).getD ("<unprintable " ++ v.typeName ++ " object>")

/-- One field's reading, with its refusal turned into issues. -/
def named {α : Type} (path : List String) (reading : Except Refusal α) : Except (List Issue) α :=
  reading.mapError fun refusal => [⟨path, refusal⟩]

/-- Both readings, or the issues of either, the first one's first. -/
def both {α β : Type} (first : Except (List Issue) α) (second : Except (List Issue) β) :
    Except (List Issue) (α × β) :=
  match first, second with
  | .ok a, .ok b => .ok (a, b)
  | .ok _, .error issues => .error issues
  | .error issues, .ok _ => .error issues
  | .error issues, .error more => .error (issues ++ more)

end MetricTree.Field
