import MetricTree.Value.Key
import MetricTree.Table

namespace MetricTree

/-- Tags with texts for keys and values. -/
abbrev Tags := Table Text Text

namespace Identity

/-- Is it a character that identities are built with? -/
def isReserved (letter : Letter) : Bool := Fault.reservedCharacters.contains letter

/-- A text that can be embedded in an identity: one without reserved characters. -/
def checkPart (part : String) : Value → Except Fault Text
  | .text s =>
    match s.toList.find? isReserved with
    | some c => throw (.partReserved part s c)
    | none => pure s
  | v => throw (.partNotText part v.typeName)

def checkName (part : String) (allowEmpty : Bool) (name : Value) : Except Fault Text := do
  let s ← checkPart part name
  if s.isEmpty && !allowEmpty then throw (.partEmpty part) else pure s

def checkTagEntries : List (Value × Value) → Except Fault (List (Text × Text))
  | [] => pure []
  | (key, value) :: rest => do
    let k ← checkPart "tag key" key
    let v ← checkPart "tag value" value
    return (k, v) :: (← checkTagEntries rest)

/-- The same tags, if every key and every value can be embedded; else the first part that cannot. -/
def checkTags (tags : Table Value Value) : Except Fault Tags := return ⟨← checkTagEntries tags.entries⟩

end Identity

end MetricTree
