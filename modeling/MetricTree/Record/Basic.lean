import MetricTree.Record.Field
import MetricTree.Identity.Part

namespace MetricTree

inductive Metric where
  | counter
  | gauge
  deriving DecidableEq

def Metric.name : Metric → String
  | .counter => "counter"
  | .gauge => "gauge"

/-- One reported observation, as it is batched. -/
structure Record where
  id : Text
  metric : Metric
  tags : Tags
  delta : Option Int
  value : Option Binary64

namespace Record

/-- A text of characters, at least one. -/
def identifier (v : Value) : Except Refusal Text := do
  let s ← Field.unicode (← Field.text v)
  if s.isEmpty then throw .tooShort else pure s

def metricOf : Value → Except Refusal Metric
  | .text s => do
    match ← Field.unicode s with
    | "counter" => pure .counter
    | "gauge" => pure .gauge
    | _ => throw .notAmongChoices
  | _ => throw .notAmongChoices

/-- Texts for all keys and values; every entry that has none is refused, its key before its value. -/
def tagEntries : List (Value × Value) → Except (List Issue) (List (Text × Text))
  | [] => pure []
  | (key, value) :: rest => do
    let name := Field.keyName key
    let entry := Field.both (Field.named ["tags", name, "[key]"] (Field.text key))
      (Field.named ["tags", name] (Field.text value))
    let (first, others) ← Field.both entry (tagEntries rest)
    return first :: others

def tagsOf : Value → Except (List Issue) Tags
  | .dict entries => return Table.ofList (← tagEntries entries)
  | _ => throw [⟨["tags"], .notDict⟩]

/-- Null stands for an absent number. -/
def optional {α : Type} (read : Value → Except Refusal α) : Value → Except Refusal (Option α)
  | .null => pure none
  | v => return some (← read v)

/-- Reads the fields of a record. The kind of metric is called `type`, or `mtype` if there is no `type`. -/
def ofFields (fields : Table String Value) : Except (List Issue) Record := do
  let required := fun {α : Type} (name : String) (read : Value → Except Refusal α) =>
    Field.named [name] ((fields.get? name).elim (throw .missing) read)
  let kindName := if !fields.contains "type" && fields.contains "mtype" then "mtype" else "type"
  let number := fun {α : Type} (name : String) (read : Value → Except Refusal α) =>
    Field.named [name] (optional read ((fields.get? name).getD .null))
  let (id, metric, tags, delta, value) ←
    Field.both (required "id" identifier) <|
    Field.both (required kindName metricOf) <|
    Field.both ((fields.get? "tags").elim (pure .empty) tagsOf) <|
    Field.both (number "delta" Field.integer) (number "value" Field.number)
  return ⟨id, metric, tags, delta, value⟩

/-- The tags with keys of characters alone. -/
def shownTags (r : Record) : Tags := .ofList (r.tags.entries.map fun (key, value) => (↑key.lossy, value))

/-- The fields of a record that are set, under the names that they are read from. Keys of tags are told in characters
alone. -/
def toValue (r : Record) : Value :=
  .dict <|
    [(.text "id", .text r.id), (.text "type", .text r.metric.name),
      (.text "tags", .dict (r.shownTags.entries.map fun (key, value) => (.text key, .text value)))] ++
    (r.delta.map fun n => (Value.text "delta", Value.int n)).toList ++
    (r.value.map fun x => (Value.text "value", Value.float x)).toList

end Record

end MetricTree
