import MetricTree.Fault
import MetricTree.Number

namespace MetricTree

/-- What an object of a type of its own is like where it is looked up: no key at all, one that only it is, or one that
counts as the same as a text. -/
inductive Likeness where
  | unhashable
  | unique (id : Nat)
  | text (s : Text)
  deriving DecidableEq

/-- An object of a type of its own. It is no text and no row, adds to no number and has no order. -/
structure Object where
  typeName : String
  likeness : Likeness
  isTruthy : Bool
  /-- What it is converted to where a binary64 number is asked for. -/
  real : Except Fault Binary64
  /-- How it is written, if it can be. -/
  literal : Except Fault Text
  /-- How it is displayed, if it can be. -/
  shown : Except Fault Text

/-- What callers may pass where a name, a tag, an amount or a setting is expected. -/
inductive Value where
  | null
  | bool (b : Bool)
  | int (n : Int)
  | float (x : Binary64)
  | text (s : Text)
  | bytes (bs : List UInt8)
  | list (items : List Value)
  | tuple (items : List Value)
  | set (items : List Value)
  | dict (entries : List (Value × Value))
  | object (o : Object)

namespace Value

instance : Inhabited Value := ⟨null⟩

def typeName : Value → String
  | .null => "NoneType"
  | .bool _ => "bool"
  | .int _ => "int"
  | .float _ => "float"
  | .text _ => "str"
  | .bytes _ => "bytes"
  | .list _ => "list"
  | .tuple _ => "tuple"
  | .set _ => "set"
  | .dict _ => "dict"
  | .object o => o.typeName

/-- Everything but null, false, zero and what is empty. -/
def isTruthy : Value → Bool
  | .null => false
  | .bool b => b
  | .int n => n != 0
  | .float x => !x.isZero
  | .text s => !s.isEmpty
  | .bytes bs => !bs.isEmpty
  | .list items => !items.isEmpty
  | .tuple items => !items.isEmpty
  | .set items => !items.isEmpty
  | .dict entries => !entries.isEmpty
  | .object o => o.isTruthy

def text? : Value → Option Text
  | .text s => some s
  | _ => none

/-- The text that a value is found under among texts. -/
def textKey? : Value → Option Text
  | .text s => some s
  | .object o => match o.likeness with
    | .text s => some s
    | _ => none
  | _ => none

/-- Truth values count as zero and one. Complex numbers, decimals and fractions are not among the values. -/
def number? : Value → Option Number
  | .bool b => some (.int b.toNat)
  | .int n => some (.int n)
  | .float x => some (.float x)
  | _ => none

def ofNumber : Number → Value
  | .int n => .int n
  | .float x => .float x

end Value

end MetricTree
