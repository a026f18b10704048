import MetricTree.Binary64.Places
import MetricTree.Table
import MetricTree.Text.Numeral
import MetricTree.Value.Key

namespace MetricTree.Log

/-- A width or a number of places: none, one that is written out, or the next of the arguments. -/
inductive Measure where
  | absent
  | fixed (n : Nat)
  | argument

/-- How one argument is written into a template, as it stands there. -/
structure Conversion where
  key : Option Text
  flags : List Char
  width : Measure
  precision : Measure
  /-- There is none if the template ends before it. -/
  char : Option Letter
  /-- Where in the template the conversion's character stands. -/
  index : Nat

inductive Piece where
  | letter (letter : Letter)
  | percent
  | conversion (c : Conversion)
  /-- A key in brackets that are never closed. -/
  | unclosed

/-- The text up to the bracket that closes the one in front of it. -/
def bracketed? (depth : Nat) : List Letter → Option (List Letter)
  | [] => none
  | letter :: rest =>
    if letter = .char ')' ∧ depth = 0 then some []
    else
      let next := if letter = .char '(' then depth + 1 else if letter = .char ')' then depth - 1 else depth
      (bracketed? next rest).map (letter :: ·)

/-- A measure, and how many characters it takes. -/
def readMeasure (letters : List Letter) : Measure × Nat :=
  let digits := (letters.map fun letter => letter.char?.getD ' ').takeWhile Char.isDigit
  if letters.head? = some (.char '*') then (.argument, 1)
  else if digits.isEmpty then (.absent, 0)
  else (.fixed (Text.natOfDigits digits), digits.length)

/-- The places after a point, and how many characters they take with it. Nothing after it means none. -/
def readPlaces (letters : List Letter) : Measure × Nat :=
  match letters with
  | .char '.' :: rest =>
    match readMeasure rest with
    | (.absent, _) => (.fixed 0, 1)
    | (places, length) => (places, length + 1)
  | _ => (.absent, 0)

/-- The conversion after its key, and how many characters stand before its own character. A size
letter before that has no effect. -/
def readConversion (key : Option Text) (index : Nat) (letters : List Letter) : Conversion × Nat :=
  let flags := (letters.map fun letter => letter.char?.getD '%').takeWhile ['-', '+', ' ', '0', '#'].contains
  let (width, widthLength) := readMeasure (letters.drop flags.length)
  let (precision, placesLength) := readPlaces (letters.drop (flags.length + widthLength))
  let bare := flags.length + widthLength + placesLength
  let sized := (letters.drop bare).head?.any ([.char 'h', .char 'l', .char 'L'].contains ·)
  let skipped := bare + sized.toNat
  ({ key := key, flags := flags, width := width, precision := precision, char := (letters.drop skipped).head?
     index := index + skipped }, skipped)

/-- The pieces of a template, read from the letter at `index`. -/
def piecesFrom (index : Nat) (letters : List Letter) : List Piece :=
  match letters with
  | [] => []
  | .char '%' :: .char '%' :: rest => .percent :: piecesFrom (index + 2) rest
  | .char '%' :: .char '(' :: rest =>
    match bracketed? 0 rest with
    | none => [.unclosed]
    | some key =>
      let before := key.length + 1
      let (c, skipped) := readConversion (some (.ofList key)) (index + 2 + before) (rest.drop before)
      .conversion c :: piecesFrom (index + 3 + before + skipped) (rest.drop (before + skipped + 1))
  | .char '%' :: rest =>
    let (c, skipped) := readConversion none (index + 1) rest
    .conversion c :: piecesFrom (index + 2 + skipped) (rest.drop (skipped + 1))
  | letter :: rest => .letter letter :: piecesFrom (index + 1) rest
termination_by letters.length
decreasing_by all_goals simp only [List.length_drop, List.length_cons]; omega

/-- How a value is laid out. -/
structure Layout where
  leftAligned : Bool
  signed : Bool
  spaced : Bool
  zeroPadded : Bool
  marked : Bool
  width : Nat
  precision : Option Nat

namespace Layout

/-- A negative width stands for the width on the left, a negative precision for none at all. -/
def ofFlags (flags : List Char) (width : Int) (precision : Option Int) : Layout where
  leftAligned := flags.contains '-' || width < 0
  signed := flags.contains '+'
  spaced := flags.contains ' '
  zeroPadded := flags.contains '0'
  marked := flags.contains '#'
  width := width.natAbs
  precision := precision.map Int.toNat

/-- Fills up to the width, with spaces on the side that is not aligned. -/
def fill (l : Layout) (letters : List Letter) : List Letter :=
  let spaces := List.replicate (l.width - letters.length) (.char ' ')
  if l.leftAligned then letters ++ spaces else spaces ++ letters

def writeText (l : Layout) (s : Text) : List Letter :=
  l.fill (match l.precision with | some n => s.toList.take n | none => s.toList)

/-- Digits behind a sign and a mark. Zeros fill up between these and the digits. -/
def writeNumber (l : Layout) (negative : Bool) (mark digits : List Char) : List Letter :=
  let sign := if negative then ['-'] else if l.signed then ['+'] else if l.spaced then [' '] else []
  let front := sign ++ mark
  if l.zeroPadded && !l.leftAligned then
    (front ++ List.replicate (l.width - front.length - digits.length) '0' ++ digits).map .char
  else l.fill ((front ++ digits).map .char)

/-- A sign and digits. The letters among these and in the mark are small, or capitals. -/
def writeInteger (l : Layout) (base : Nat) (mark : List Char) (n : Int) (capitals : Bool) : List Letter :=
  let digits := (Nat.toDigits base n.natAbs).map fun c => if capitals then c.toUpper else c
  l.writeNumber (n < 0) (if l.marked then mark else [])
    (List.replicate (l.precision.getD 1 - digits.length) '0' ++ digits)

/-- A finite magnitude, in the way that a character stands for. Six digits are the usual. -/
def magnitudeText (l : Layout) (char : Char) (m : Magnitude) : List Char :=
  let count := l.precision.getD 6
  match char with
  | 'f' => m.exact.withPlaces l.marked count
  | 'e' => m.exact.withExponent l.marked count
  | _ => m.exact.withDigits l.marked (max count 1)

def writeBinary64 (l : Layout) (char : Char) (x : Binary64) (capitals : Bool) : List Letter :=
  let written := fun (negative : Bool) (cs : List Char) =>
    l.writeNumber negative [] (cs.map fun c => if capitals then c.toUpper else c)
  match x with
  | .nan => written false ['n', 'a', 'n']
  | .signed negative m => written negative (if m = .infinity then ['i', 'n', 'f'] else l.magnitudeText char m)

/-- A letter beyond ASCII is given by number. -/
def asciiOnly (letter : Letter) : List Letter :=
  let code := letter.code
  if code < 0x80 then [letter]
  else if code < 0x100 then ('\\' :: 'x' :: Text.hexDigits 2 code).map .char
  else if code < 0x10000 then ('\\' :: 'u' :: Text.hexDigits 4 code).map .char
  else ('\\' :: 'U' :: Text.hexDigits 8 code).map .char

/-- The integer part of a number. -/
def truncated (char : Char) : Value → Except Fault Int
  | .int n => pure n
  | .bool b => pure b.toNat
  | .float x =>
    match x.units? with
    | some u => pure (u.tdiv unitsPerOne)
    | none => throw (if x.isNaN then .undefinedInteger else .infiniteInteger)
  | v => throw (.conversionNeedsNumber char v.typeName)

def exactInteger (char : Char) : Value → Except Fault Int
  | .int n => pure n
  | .bool b => pure b.toNat
  | v => throw (.conversionNeedsInteger char v.typeName)

def nearestBinary64 (v : Value) : Except Fault Binary64 :=
  match v.number? with
  | some (.int n) => (Binary64.ofInt? n).elim (throw .integerTooLarge) pure
  | some (.float x) => pure x
  | none => throw (.notReal v.typeName)

/-- A letter, given by itself or by number. -/
def letter (v : Value) : Except Fault Letter :=
  match v with
  | .text s =>
    match s.toList with
    | [letter] => pure letter
    | _ => throw .notCharacter
  | .int n => if 0 ≤ n ∧ n < 0x110000 then pure (.ofCode n.toNat) else throw .characterOutOfRange
  | .bool b => pure (.ofCode b.toNat)
  | _ => throw .notCharacter

/-- Writes a value in the way that the letter at a place of the template stands for. In decimal digits, only integers
that are short enough are written. -/
def write (l : Layout) (letter : Letter) (index : Nat) (v : Value) : Except Fault (List Letter) :=
  match letter with
  | .half n => throw (.conversionUnknown (.half n) index)
  | .char char =>
    match char with
    | 's' => return l.writeText (← v.display)
    | 'r' => return l.writeText (← v.literal)
    | 'a' => return l.writeText (.ofList ((← v.literal).toList.flatMap asciiOnly))
    | 'c' => return l.fill [← Layout.letter v]
    | 'd' | 'i' | 'u' => return l.writeInteger 10 [] (← ShortInt.ofInt (← truncated char v)).value false
    | 'o' => return l.writeInteger 8 ['0', 'o'] (← exactInteger char v) false
    | 'x' => return l.writeInteger 16 ['0', 'x'] (← exactInteger char v) false
    | 'X' => return l.writeInteger 16 ['0', 'X'] (← exactInteger char v) true
    | 'e' | 'f' | 'g' => return l.writeBinary64 char (← nearestBinary64 v) false
    | 'E' | 'F' | 'G' => return l.writeBinary64 char.toLower (← nearestBinary64 v) true
    | _ => throw (.conversionUnknown char index)

end Layout

/-- The arguments that are still to be used, and what keys are looked up in. -/
structure Supply where
  keyed : Option Value
  left : List Value

namespace Supply

/-- A tuple supplies its items in order, and any other value itself. Keys and places can be looked
up in a dictionary and in some rows. -/
def ofArguments : Value → Supply
  | .tuple items => ⟨none, items⟩
  | .dict entries => ⟨some (.dict entries), [.dict entries]⟩
  | .list items => ⟨some (.list items), [.list items]⟩
  | .bytes bs => ⟨some (.bytes bs), [.bytes bs]⟩
  | v => ⟨none, [v]⟩

def next (s : Supply) : Except Fault (Value × Supply) :=
  match s.left with
  | v :: left => pure (v, { s with left := left })
  | [] => throw .argumentsMissing

/-- Looks a key up. What is found is all that is left to use. -/
def find (s : Supply) (key : Text) : Except Fault Supply :=
  match s.keyed with
  | some (.dict entries) =>
    ((⟨entries⟩ : Table Value Value).get? (.text key)).elim (throw (.keyMissing (Text.quoted key))) fun v =>
      pure { s with left := [v] }
  | some row => throw (.placeNotInteger row.typeName)
  | none => throw .argumentsWithoutKeys

/-- A measure that fits into a signed number of so many bits. -/
def measure (s : Supply) (name : String) (bits : Nat) : Measure → Except Fault (Option Int × Supply)
  | .absent => pure (none, s)
  | .fixed n => if n < Nat.pow 2 (bits - 1) then pure (some n, s) else throw (.measureTooLarge name)
  | .argument => do
    let (v, after) ← s.next
    let n ← match v with
      | .int n => pure n
      | .bool b => pure (b.toNat : Int)
      | _ => throw .measureNotInteger
    if n.bmod (Nat.pow 2 bits) = n then pure (some n, after) else throw (.integerTooWide bits)

/-- Writes the value that a conversion is for. -/
def convert (s : Supply) (c : Conversion) : Except Fault (List Letter × Supply) := do
  let s ← c.key.elim (pure s) s.find
  let (width, s) ← s.measure "width" 64 c.width
  let (precision, s) ← s.measure "precision" 32 c.precision
  let letter ← c.char.elim (throw .templateIncomplete) pure
  let (v, s) ← s.next
  return (← (Layout.ofFlags c.flags (width.getD 0) precision).write letter c.index v, s)

/-- Writes the pieces in order. What is left of the arguments comes back with the text. -/
def fillPieces (s : Supply) : List Piece → Except Fault (List Letter × Supply)
  | [] => pure ([], s)
  | .letter letter :: rest => do
    let (letters, after) ← s.fillPieces rest
    return (letter :: letters, after)
  | .percent :: rest => do
    let (letters, after) ← s.fillPieces rest
    return (.char '%' :: letters, after)
  | .conversion c :: rest => do
    let (written, s) ← s.convert c
    let (letters, after) ← s.fillPieces rest
    return (written ++ letters, after)
  | .unclosed :: _ => throw (if s.keyed.isSome then .keyIncomplete else .argumentsWithoutKeys)

end Supply

/-- Fills a template with a tuple of arguments, or with one argument that is no tuple. Only where
keys can be looked up may an argument go unused. -/
def fillTemplate (template : Text) (arguments : Value) : Except Fault Text := do
  let (letters, after) ← (Supply.ofArguments arguments).fillPieces (piecesFrom 0 template.toList)
  if !after.left.isEmpty && after.keyed.isNone then throw .argumentsLeft
  return .ofList letters

end MetricTree.Log
