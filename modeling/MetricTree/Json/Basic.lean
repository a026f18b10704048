import MetricTree.ShortInt

namespace MetricTree

/-- A JSON value whose objects keep the order of their members. Numbers are integers of no more digits than are
written, or binary64 numbers, NaN and the infinities included. -/
inductive Json where
  | null
  | bool (b : Bool)
  | int (n : ShortInt)
  | float (x : Binary64)
  | text (s : Text)
  | array (items : List Json)
  | object (members : List (Text × Json))

namespace Json

instance : Inhabited Json := ⟨null⟩

def floatText : Binary64 → String
  | .nan => "NaN"
  | .signed negative m =>
    if m = .infinity then if negative then "-Infinity" else "Infinity"
    else (Binary64.signed negative m).toText

def escapeLetter? : Char → Option Char
  | '"' => some '"'
  | '\\' => some '\\'
  | '\n' => some 'n'
  | '\r' => some 'r'
  | '\t' => some 't'
  | '\x08' => some 'b'
  | '\x0c' => some 'f'
  | _ => none

/-- Only quotes, backslashes and control characters below the space are escaped. -/
def escape : Letter → List Letter
  | .half n => [.half n]
  | .char c =>
    match escapeLetter? c with
    | some letter => ['\\', letter]
    | none => if c.toNat < 0x20 then ('\\' :: 'u' :: Text.hexDigits 4 c.toNat).map .char else [c]

def quotedLetters (s : Text) : List Letter := .char '"' :: s.toList.flatMap escape ++ [.char '"']

mutual

/-- One line of text: items and members are set apart by a comma and a space. -/
def letters : Json → List Letter
  | .null => ['n', 'u', 'l', 'l']
  | .bool true => ['t', 'r', 'u', 'e']
  | .bool false => ['f', 'a', 'l', 's', 'e']
  | .int n => n.text.toList.map .char
  | .float x => (floatText x).toList.map .char
  | .text s => quotedLetters s
  | .array items => .char '[' :: itemLetters items ++ [.char ']']
  | .object members => .char '\x7b' :: memberLetters members ++ [.char '\x7d']
termination_by structural j => j

def itemLetters : List Json → List Letter
  | [] => []
  | [item] => letters item
  | item :: rest => letters item ++ .char ',' :: .char ' ' :: itemLetters rest
termination_by structural items => items

def memberLetters : List (Text × Json) → List Letter
  | [] => []
  | [(name, value)] => quotedLetters name ++ .char ':' :: .char ' ' :: letters value
  | (name, value) :: rest =>
    quotedLetters name ++ .char ':' :: .char ' ' :: letters value ++ .char ',' :: .char ' ' :: memberLetters rest
termination_by structural members => members

end

def print (j : Json) : Text := .ofList j.letters

end Json

end MetricTree
