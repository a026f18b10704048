import MetricTree.Text.Basic
import MetricTree.Text.Printable

namespace MetricTree.Text

def hexDigit (d : Nat) : Char := if d < 10 then Char.ofNat (48 + d) else Char.ofNat (87 + d)

/-- The last `width` digits of a number in base sixteen. -/
def hexDigits : Nat → Nat → List Char
  | 0, _ => []
  | width + 1, n => hexDigits width (n / 16) ++ [hexDigit (n % 16)]

/-- Single quotes, unless only they occur inside. -/
def quoteMark (letters : List Letter) : Char :=
  if letters.contains (.char '\'') && !letters.contains (.char '"') then '"' else '\''

def escapeControl? : Char → Option (List Char)
  | '\t' => some ['\\', 't']
  | '\n' => some ['\\', 'n']
  | '\r' => some ['\\', 'r']
  | _ => none

/-- A backslash stands before itself and before the quote mark; what cannot be printed is given by number. -/
def escape (mark : Char) : Letter → List Char
  | .half n => '\\' :: 'u' :: hexDigits 4 (Letter.half n).code
  | .char c =>
    if c = mark ∨ c = '\\' then ['\\', c]
    else if let some short := escapeControl? c then short
    else if isPrintable c then [c]
    else if c.toNat < 0x100 then '\\' :: 'x' :: hexDigits 2 c.toNat
    else if c.toNat < 0x10000 then '\\' :: 'u' :: hexDigits 4 c.toNat
    else '\\' :: 'U' :: hexDigits 8 c.toNat

def quotedChars (letters : List Letter) : List Char :=
  let mark := quoteMark letters
  mark :: letters.flatMap (escape mark) ++ [mark]

def quoted (t : Text) : String := String.ofList (quotedChars t.toList)

/-- Bytes are quoted as the characters of their code; beyond ASCII all are given by number. -/
def quotedBytes (bs : List UInt8) : String :=
  let cs := bs.map fun b => Char.ofNat b.toNat
  let mark := quoteMark (cs.map .char)
  let byte := fun (c : Char) =>
    if c.toNat < 0x7F then escape mark c else '\\' :: 'x' :: hexDigits 2 c.toNat
  String.ofList ('b' :: mark :: cs.flatMap byte ++ [mark])

end MetricTree.Text
