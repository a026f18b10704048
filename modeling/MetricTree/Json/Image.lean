import MetricTree.Json.Basic
import MetricTree.Value.Basic

namespace MetricTree.Value

/-- The member name for a key: text as it is, and null, truth values and numbers as JSON writes them. -/
def memberName : Value → Except Fault Text
  | .text s => pure s
  | .null => pure "null"
  | .bool b => pure (if b then "true" else "false")
  | .int n => return (← ShortInt.ofInt n).text
  | .float x => pure (Json.floatText x)
  | v => throw (.keyNotWritable v.typeName)

mutual

/-- What JSON shows of a value. Bytes, sets and objects of other types, at whatever depth, have no image, and no more
have integers that are too long. -/
def image : Value → Except Fault Json
  | .null => pure .null
  | .bool b => pure (.bool b)
  | .int n => return .int (← ShortInt.ofInt n)
  | .float x => pure (.float x)
  | .text s => pure (.text s)
  | .list items => return .array (← imageItems items)
  | .tuple items => return .array (← imageItems items)
  | .dict entries => return .object (← imageEntries entries)
  | .bytes _ => throw (.notWritable "bytes")
  | .set _ => throw (.notWritable "set")
  | .object o => throw (.notWritable o.typeName)
termination_by structural v => v

def imageItems : List Value → Except Fault (List Json)
  | [] => pure []
  | item :: rest => do
    let first ← image item
    return first :: (← imageItems rest)
termination_by structural items => items

def imageEntries : List (Value × Value) → Except Fault (List (Text × Json))
  | [] => pure []
  | (key, value) :: rest => do
    let name ← memberName key
    let first ← image value
    return (name, first) :: (← imageEntries rest)
termination_by structural entries => entries

end

end MetricTree.Value
