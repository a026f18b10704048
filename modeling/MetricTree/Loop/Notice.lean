import MetricTree.Loop.Basic
import MetricTree.Log.Logger

namespace MetricTree

namespace Notice

def loopLogger : String := "statscope.agent.report_loop"

def scopeLogger : String := "statscope.agent.scope"

def logger : Notice → String
  | notTaken .. => scopeLogger
  | _ => loopLogger

def level : Notice → Int
  | notTaken .. | flushFailed .. | closeFailed _ => Log.warning
  | manual _ | started _ | closed _ => Log.info
  | passed .. => Log.debug

def message : Notice → String
  | manual _ => "statscope.report_loop.manual"
  | started _ => "statscope.report_loop.started"
  | notTaken _ (.counter ..) _ => "statscope.report.counter_failed"
  | notTaken _ (.gauge ..) _ => "statscope.report.gauge_failed"
  | flushFailed .. => "statscope.report.flush_failed"
  | passed .. => "statscope.report.pass"
  | closed _ => "statscope.report_loop.closed"
  | closeFailed _ => "statscope.report.close_failed"

def countExtras (s : Summary) : List (Text × Value) :=
  [("counters", .int s.counters), ("gauges", .int s.gauges), ("errors", .int s.errors)]

def extras : Notice → List (Text × Value)
  | manual interval => [("interval", .float interval)]
  | started interval => [("interval", .float interval)]
  | notTaken scope o _ =>
    [("metric", .text o.name), ("scope_identity", .text scope), ("dropped", .ofNumber o.amount)]
  | flushFailed tally _ => [("counters", .int tally.counters), ("gauges", .int tally.gauges)]
  | passed summary number => countExtras summary ++ [(↑"pass_number", .int number)]
  | closed last => countExtras last
  | closeFailed _ => []

def failure? : Notice → Option Failure
  | notTaken _ _ failure => some failure
  | flushFailed _ failure => some failure
  | closeFailed failure => some failure
  | _ => none

def event (origin : Log.Origin) (n : Notice) (title : Value) : Log.Event :=
  .plain origin n.logger title n.message n.extras n.failure?

end Notice

/-- The lines that notices leave in the log. -/
def Log.Config.tell (c : Log.Config) (origin : Log.Origin) (notices : List Notice) : List Json :=
  notices.filterMap fun n => (c.write n.logger (.int n.level) (n.event origin)).toOption.join

end MetricTree
