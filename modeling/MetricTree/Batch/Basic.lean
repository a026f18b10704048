import MetricTree.Record.Basic
import MetricTree.Tree.Observation

namespace MetricTree

/-- Records that wait to be sent, and how many flushes there were. -/
structure Batch where
  pending : List Record
  flushes : Nat

namespace Batch

def empty : Batch := ⟨[], 0⟩

instance : Inhabited Batch := ⟨empty⟩

/-- The fields of a record for an observation: a delta for a counter, a value for a gauge. -/
def fields (metric : Metric) (name : Value) (tags : Table Value Value) (amount : Value) : Table String Value :=
  .ofList [("id", name), ("type", .text metric.name), ("tags", .dict tags.entries),
    (match metric with | .counter => "delta" | .gauge => "value", amount)]

/-- Adds a record for an observation. Fields that do not make a record leave the batch as it was. -/
def add (b : Batch) (metric : Metric) (name : Value) (tags : Table Value Value) (amount : Value) :
    Except (List Issue) Batch := do
  let r ← Record.ofFields (fields metric name tags amount)
  return { b with pending := b.pending ++ [r] }

def addObservation (b : Batch) (o : Observation) : Except (List Issue) Batch :=
  let tags : Table Value Value := ⟨o.tags.entries.map fun (key, value) => (.text key, .text value)⟩
  b.add (if o.isCounter then .counter else .gauge) (.text o.name) tags (.ofNumber o.amount)

/-- Takes out the records to be sent, if there are any. Whether they can be sent does not matter:
they are never offered again. -/
def flush (b : Batch) : Option (List Record) × Batch :=
  (if b.pending.isEmpty then none else some b.pending, ⟨[], b.flushes + 1⟩)

end Batch

end MetricTree
