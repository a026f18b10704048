import MetricTree.Tree.Pass

namespace MetricTree

/-- What is known of an attached reporter: the name of its type, whether it takes counters, gauges
and flushes, and whether it can be closed. -/
structure Reporter where
  typeName : String
  complete : Bool
  closes : Bool
  deriving DecidableEq

inductive Phase where
  | idle
  | running
  | closing
  | closed
  deriving DecidableEq

namespace Phase

def name : Phase → String
  | .idle => "idle"
  | .running => "running"
  | .closing => "closing"
  | .closed => "closed"

/-- Has a close been asked for? -/
def isOver : Phase → Bool
  | .closing | .closed => true
  | .idle | .running => false

end Phase

/-- A tree and its reporting: how far the reporting has come, how many passes reached their end, and
whether a pass is under way. -/
structure Loop where
  tree : Tree
  interval : Binary64
  reporter : Option Reporter
  phase : Phase
  passes : Nat
  busy : Bool

/-- A call of a reporter's method. -/
inductive Call where
  | observe (o : Observation)
  | flush
  | close

/-- How a reporter's call came out. An interruption is no failure: it ends what made the call. -/
inductive Outcome where
  | returned
  | failed (failure : Failure)
  | aborted (message : String)

/-- What a pass is made for: a report, a close, or a close that came during the pass of a report,
whose summary is then still to be given. -/
inductive Duty where
  | report
  | close
  | farewell (report : Summary)

/-- What comes next for a loop: a pass for some duty, the end of the loop once a last pass has been
made, or no more than an answer. -/
inductive Plan where
  | pass (duty : Duty)
  | leave (last : Summary) (answer : Option Summary)
  | answer (answer : Option Summary)

/-- What waits for a reporter to return: a pass that reports a metric, a pass that flushes, or a
close that has flushed and still owes its caller an answer. -/
inductive Activity where
  | observing (duty : Duty) (pass : Pass) (o : Observation)
  | flushing (duty : Duty) (tally : Summary)
  | leaving (answer : Option Summary)

/-- The call that is waited for. -/
def Activity.call : Activity → Call
  | .observing _ _ o => .observe o
  | .flushing .. => .flush
  | .leaving _ => .close

/-- What the pass is made for that an activity belongs to. -/
def Activity.duty? : Activity → Option Duty
  | .observing duty _ _ => some duty
  | .flushing duty _ => some duty
  | .leaving _ => none

/-- What is told to the log. -/
inductive Notice where
  | manual (interval : Binary64)
  | started (interval : Binary64)
  | notTaken (scope : Text) (o : Observation) (failure : Failure)
  | flushFailed (tally : Summary) (failure : Failure)
  | passed (summary : Summary) (number : Nat)
  | closed (last : Summary)
  | closeFailed (failure : Failure)

/-- How it goes on: with an activity that waits for the reporter, or with an answer. A report is
answered by a summary, a close by nothing. -/
inductive Next where
  | waits (activity : Activity)
  | ends (answer : Except Fault (Option Summary))

/-- A step of the reporting, up to the next call of the reporter. -/
structure Move where
  loop : Loop
  notices : List Notice
  next : Next

end MetricTree
