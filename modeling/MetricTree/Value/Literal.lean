import MetricTree.ShortInt
import MetricTree.Value.Basic

namespace MetricTree.Value

def joined (parts : List Text) : Text := .intercalate ", " parts

mutual

/-- The written form of a value: text and bytes in quotes, containers in brackets of their kind. -/
def literal : Value → Except Fault Text
  | .null => pure "None"
  | .bool b => pure (if b then "True" else "False")
  | .int n => return (← ShortInt.ofInt n).text
  | .float x => pure x.toText
  | .text s => pure (Text.quoted s)
  | .bytes bs => pure (Text.quotedBytes bs)
  | .list items => return .join ["[", joined (← literals items), "]"]
  | .tuple items => return .join ["(", joined (← literals items), if items.length = 1 then ",)" else ")"]
  | .set items => do
    let parts ← literals items
    return if parts.isEmpty then "set()" else .join ["\x7b", joined parts, "\x7d"]
  | .dict entries => return .join ["\x7b", joined (← literalEntries entries), "\x7d"]
  | .object o => o.literal
termination_by structural v => v

def literals : List Value → Except Fault (List Text)
  | [] => pure []
  | item :: rest => do
    let first ← literal item
    return first :: (← literals rest)
termination_by structural items => items

def literalEntries : List (Value × Value) → Except Fault (List Text)
  | [] => pure []
  | (key, value) :: rest => do
    let name ← literal key
    let held ← literal value
    return .join [name, ": ", held] :: (← literalEntries rest)
termination_by structural entries => entries

end

/-- Text stands for itself; any other value is written out, or as it chooses. -/
def display : Value → Except Fault Text
  | .text s => pure s
  | .object o => o.shown
  | v => v.literal

end MetricTree.Value
