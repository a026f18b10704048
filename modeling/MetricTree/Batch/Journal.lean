import MetricTree.Batch.Basic
import MetricTree.Log.Logger

namespace MetricTree

/-- Where batches are logged: a logger, and a level, which callers may have given as any value. -/
structure Journal where
  logger : String
  level : Value

namespace Journal

def standard : Journal := ⟨"statscope.agent.reporters", .int Log.info⟩

/-- The one event of a batch: the number of the flush, the number of records, and the records. -/
def event (j : Journal) (origin : Log.Origin) (number : Nat) (records : List Record) (title : Value) : Log.Event :=
  .plain origin j.logger title "statscope.reporter.batch"
    [("flush_number", .int number), ("size", .int records.length),
      ("metrics", .list (records.map Record.toValue))] none

/-- Logs a batch, if the level is an integer. -/
def send (j : Journal) (c : Log.Config) (origin : Log.Origin) (number : Nat) (records : List Record) :
    Except Fault (Option Json) :=
  c.write j.logger j.level (j.event origin number records)

end Journal

end MetricTree
