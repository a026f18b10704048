import MetricTree.Loop.Basic

namespace MetricTree

/-- The move with these notices told first. -/
def Move.after (notices : List Notice) (m : Move) : Move := { m with notices := notices ++ m.notices }

namespace Loop

def answered (l : Loop) (answer : Except Fault (Option Summary)) : Move := ⟨l, [], .ends answer⟩

/-- Goes on with what a pass found: a metric to report, or nothing more, upon which it flushes. -/
def pass (l : Loop) (duty : Duty) (tally : Summary) :
    Except Fault (Option (Observation × Pass)) × Tree → Move
  | (.error fault, tree) => answered { l with tree := tree, busy := false } (throw fault)
  | (.ok none, tree) => ⟨{ l with tree := tree, busy := true }, [], .waits (.flushing duty tally)⟩
  | (.ok (some (o, p)), tree) =>
    ⟨{ l with tree := tree, busy := true }, [], .waits (.observing duty p o)⟩

/-- Closes for good once the last pass is done, and then closes the reporter if it can be closed. -/
def leave (l : Loop) (last : Summary) (answer : Option Summary) : Move :=
  let closes := (l.reporter.map Reporter.closes).getD false
  ⟨{ l with phase := .closed }, [.closed last],
    if closes then .waits (.leaving answer) else .ends (pure answer)⟩

/-- Carries out a plan up to the next call of the reporter. -/
def follow (l : Loop) : Plan → Move
  | .pass duty => l.pass duty .empty l.tree.beginPass
  | .leave last answer => l.leave last answer
  | .answer answer => l.answered (pure answer)

/-- A report makes a pass. There is none during another one, after a close, or without a reporter. -/
def planReport (l : Loop) : Plan :=
  if l.busy || l.phase.isOver || l.reporter.isNone then .answer (some .empty) else .pass .report

/-- A close makes a last pass. During another one it is put off until that one is done. -/
def planClose (l : Loop) : Plan :=
  if l.phase.isOver || l.busy then .answer none
  else if l.reporter.isNone then .leave .empty none
  else .pass .close

/-- What follows a pass that came to its end. A close asked for during a report's pass now has its own. -/
def planAfter (l : Loop) (summary : Summary) : Duty → Plan
  | .report => if l.phase = .closing then .pass (.farewell summary) else .answer (some summary)
  | .close => .leave summary none
  | .farewell answer => .leave summary (some answer)

/-- Starts the timer; without an interval, passes are left to callers. -/
def start (l : Loop) : Loop × List Notice :=
  if l.phase != .idle then (l, [])
  else if l.interval.atMost .zero then (l, [.manual l.interval])
  else ({ l with phase := .running }, [.started l.interval])

/-- Asks for a pass. -/
def report (l : Loop) : Move := l.follow l.planReport

/-- Asks for a last pass and the end. -/
def close (l : Loop) : Move :=
  (if l.phase.isOver then l else { l with phase := .closing }).follow l.planClose

/-- The tally after a call about a metric. -/
def tallied (tally : Summary) (o : Observation) : Outcome → Summary
  | .failed _ => { tally with errors := tally.errors + 1 }
  | _ =>
    if o.isCounter then { tally with counters := tally.counters + 1 }
    else { tally with gauges := tally.gauges + 1 }

/-- The tally after a flush. -/
def flushed (tally : Summary) : Outcome → Summary
  | .failed _ => { tally with errors := tally.errors + 1 }
  | _ => tally

/-- Goes on when the reporter's call has come out. Failures during a pass are told and counted;
what was consumed for them is lost. -/
def resume (l : Loop) (a : Activity) (outcome : Outcome) : Move :=
  match a, outcome with
  | .observing .., .aborted message => answered { l with busy := false } (throw (.aborted message))
  | .flushing .., .aborted message => answered { l with busy := false } (throw (.aborted message))
  | .observing duty p o, outcome =>
    let told := match outcome with
      | .failed failure => [.notTaken p.cursor.scope o failure]
      | _ => []
    let tally := tallied p.tally o outcome
    Move.after told (l.pass duty tally (l.tree.continuePass { p with tally := tally }))
  | .flushing duty tally, outcome =>
    let told := match outcome with
      | .failed failure => [.flushFailed tally failure]
      | _ => []
    let summary := flushed tally outcome
    let number := l.passes + 1
    let done := { l with passes := number, busy := false }
    Move.after (told ++ [.passed summary number]) (done.follow (done.planAfter summary duty))
  | .leaving answer, .returned => l.answered (pure answer)
  | .leaving _, .failed failure => ⟨l, [.closeFailed failure], .ends (throw .closeFailed)⟩
  | .leaving _, .aborted message => l.answered (throw (.aborted message))

end Loop

end MetricTree
