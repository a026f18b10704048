import MetricTree.Binary64.Reading
import MetricTree.Json.Basic

namespace MetricTree.Json

/-- A mark, or a value that has no parts. The texts among these are also the names of members. -/
inductive Token where
  | openArray
  | closeArray
  | openObject
  | closeObject
  | comma
  | colon
  | scalar (j : Json)

def Token.mark? (letter : Letter) : Option Token :=
  letter.char?.bind fun c =>
    [('[', openArray), (']', closeArray), ('\x7b', openObject), ('\x7d', closeObject), (',', comma),
      (':', colon)].lookup c

def isBlank (letter : Letter) : Bool := letter.char?.any [' ', '\n', '\r', '\t'].contains

/-- Does the character stand in numbers and in values that are written by name? -/
def isWordChar (c : Char) : Bool := c.isAlphanum || ['+', '-', '.'].contains c

def isWordLetter (letter : Letter) : Bool := letter.char?.any isWordChar

def hexValue? (c : Char) : Option Nat :=
  if c.isDigit then some (c.toNat - 48)
  else if 'a' ≤ c ∧ c ≤ 'f' then some (c.toNat - 87)
  else if 'A' ≤ c ∧ c ≤ 'F' then some (c.toNat - 55)
  else none

def hexNumber? (letters : List Letter) : Option Nat :=
  letters.foldlM (fun n letter => (letter.char?.bind hexValue?).map (16 * n + ·)) 0

/-- What a character stands for behind a backslash. -/
def escaped? (letter : Letter) : Option Char :=
  letter.char?.bind fun c =>
    [('"', '"'), ('\\', '\\'), ('/', '/'), ('n', '\n'), ('r', '\r'), ('t', '\t'), ('b', '\x08'),
      ('f', '\x0c')].lookup c

/-- What stands in a text: a letter, or a code unit by number. -/
inductive CodeUnit where
  | plain (letter : Letter)
  | numbered (code : Nat)

/-- The letters and units of a text up to the quote that ends it, and what is left behind the quote. -/
def units? : List Letter → Option (List CodeUnit × List Letter)
  | [] => none
  | .char '"' :: rest => some ([], rest)
  | .char '\\' :: .char 'u' :: a :: b :: c :: d :: rest =>
    (hexNumber? [a, b, c, d]).bind fun code => (units? rest).map fun read => (.numbered code :: read.1, read.2)
  | .char '\\' :: letter :: rest =>
    (escaped? letter).bind fun c => (units? rest).map fun read => (.plain c :: read.1, read.2)
  | letter :: rest =>
    if letter.code < 0x20 then none else (units? rest).map fun read => (.plain letter :: read.1, read.2)

/-- The letters of units. Two numbers may stand for one character. -/
def lettersOfUnits : List CodeUnit → List Letter
  | [] => []
  | .plain letter :: rest => letter :: lettersOfUnits rest
  | [.numbered code] => [Letter.ofCode code]
  | .numbered high :: .plain letter :: rest => Letter.ofCode high :: letter :: lettersOfUnits rest
  | .numbered high :: .numbered low :: rest =>
    if 0xD800 ≤ high ∧ high < 0xDC00 ∧ 0xDC00 ≤ low ∧ low < 0xE000 then
      Letter.ofCode (0x10000 + 0x400 * (high - 0xD800) + (low - 0xDC00)) :: lettersOfUnits rest
    else Letter.ofCode high :: lettersOfUnits (.numbered low :: rest)

/-- Does it begin with a point that no digit follows? -/
def hasBarePoint : List Char → Bool
  | '.' :: c :: _ => !c.isDigit
  | ['.'] => true
  | _ => false

/-- Digits, with a zero in front only if it stands alone there, and then perhaps a fraction and an exponent. Without
these it is an integer, which may not be too long. -/
def unsigned? (negative : Bool) (cs : List Char) : Option Json :=
  let whole := cs.takeWhile Char.isDigit
  let rest := cs.dropWhile Char.isDigit
  if whole.isEmpty ∨ (whole.head? = some '0' ∧ whole ≠ ['0']) ∨ hasBarePoint rest then none
  else if rest.isEmpty then
    (ShortInt.ofInt (if negative then -Text.natOfDigits whole else Text.natOfDigits whole)).toOption.map .int
  else (Decimal.ofChars? cs).map fun d => .float (.signed negative d.nearest)

def numeral? : List Char → Option Json
  | '-' :: rest => unsigned? true rest
  | cs => unsigned? false cs

/-- Values that are written by name. Numbers that are not finite are among them. -/
def names : List (List Char × Json) :=
  [(['n', 'u', 'l', 'l'], .null), (['t', 'r', 'u', 'e'], .bool true), (['f', 'a', 'l', 's', 'e'], .bool false),
    (['N', 'a', 'N'], .float .nan), (['I', 'n', 'f', 'i', 'n', 'i', 't', 'y'], .float (.signed false .infinity)),
    (['-', 'I', 'n', 'f', 'i', 'n', 'i', 't', 'y'], .float (.signed true .infinity))]

def word? (cs : List Char) : Option Json := numeral? cs <|> names.lookup cs

theorem length_of_units? {letters : List Letter} {read : List CodeUnit × List Letter}
    (found : units? letters = some read) :
    read.2.length ≤ letters.length := by
  fun_induction units? letters generalizing read with
  | case1 => cases found
  | case2 rest => cases found; exact Nat.le_succ _
  | case3 a b c d rest ih =>
    obtain ⟨_, _, more⟩ := Option.bind_eq_some_iff.mp found
    obtain ⟨_, later, rfl⟩ := Option.map_eq_some_iff.mp more
    have shorter := ih later
    simp only [List.length_cons]
    omega
  | case4 letter rest _ ih =>
    obtain ⟨_, _, more⟩ := Option.bind_eq_some_iff.mp found
    obtain ⟨_, later, rfl⟩ := Option.map_eq_some_iff.mp more
    have shorter := ih later
    simp only [List.length_cons]
    omega
  | case5 => cases found
  | case6 letter rest _ _ _ _ ih =>
    obtain ⟨_, later, rfl⟩ := Option.map_eq_some_iff.mp found
    have shorter := ih later
    exact Nat.le_succ_of_le shorter

/-- The tokens of a text. Blanks may stand around them. -/
def tokens? (letters : List Letter) : Option (List Token) :=
  match letters with
  | [] => some []
  | letter :: rest =>
    if isBlank letter then tokens? rest
    else if let some mark := Token.mark? letter then (tokens? rest).map (mark :: ·)
    else if letter = .char '"' then
      match _read : units? rest with
      | none => none
      | some read => do return .scalar (.text (.ofList (lettersOfUnits read.1))) :: (← tokens? read.2)
    else do
      let value ← ((letter :: rest.takeWhile isWordLetter).mapM Letter.char?).bind word?
      return .scalar value :: (← tokens? (rest.dropWhile isWordLetter))
termination_by letters.length
decreasing_by
  · exact Nat.lt_succ_self _
  · exact Nat.lt_succ_self _
  · exact Nat.lt_succ_of_le (length_of_units? _read)
  · exact Nat.lt_succ_of_le (List.dropWhile_suffix _).length_le

/-- An array or an object that is still open: what it has so far, and the name that the next value goes under. -/
inductive Frame where
  | array (items : List Json)
  | object (members : List (Text × Json)) (name : Text)

/-- A place in a text: before a value, in an array or object that was just opened, before the name of a member, behind
it, or behind a value. -/
inductive Place where
  | value (frames : List Frame)
  | inArray (frames : List Frame)
  | inObject (frames : List Frame)
  | member (members : List (Text × Json)) (frames : List Frame)
  | colon (members : List (Text × Json)) (name : Text) (frames : List Frame)
  | behind (j : Json) (frames : List Frame)

namespace Place

/-- The place behind the first token of a value. -/
def enter? (frames : List Frame) : Token → Option Place
  | .scalar j => some (.behind j frames)
  | .openArray => some (.inArray frames)
  | .openObject => some (.inObject frames)
  | _ => none

/-- The place behind a token, if it may stand there. -/
def next? : Place → Token → Option Place
  | .value frames, token => enter? frames token
  | .inArray frames, .closeArray => some (.behind (.array []) frames)
  | .inArray frames, token => enter? (.array [] :: frames) token
  | .inObject frames, .closeObject => some (.behind (.object []) frames)
  | .inObject frames, .scalar (.text name) => some (.colon [] name frames)
  | .member members frames, .scalar (.text name) => some (.colon members name frames)
  | .colon members name frames, .colon => some (.value (.object members name :: frames))
  | .behind j (.array items :: frames), .comma => some (.value (.array (items ++ [j]) :: frames))
  | .behind j (.array items :: frames), .closeArray => some (.behind (.array (items ++ [j])) frames)
  | .behind j (.object members name :: frames), .comma => some (.member (members ++ [(name, j)]) frames)
  | .behind j (.object members name :: frames), .closeObject => some (.behind (.object (members ++ [(name, j)])) frames)
  | _, _ => none

end Place

/-- The value that a text writes. -/
def read? (text : Text) : Option Json := do
  match ← (← tokens? text.toList).foldlM Place.next? (.value []) with
  | .behind j [] => some j
  | _ => none

end MetricTree.Json
