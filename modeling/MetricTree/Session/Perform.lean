import MetricTree.Session.State

namespace MetricTree.Session

/-- How a command is carried out. Reporters take commands too, which is why what follows is given it. -/
abbrev Performer := Command → Session → Result × Session

def performAll (perform : Performer) : List Command → Session → List Result × Session
  | [], s => ([], s)
  | command :: rest, s =>
    let (result, after) := perform command s
    let (results, final) := performAll perform rest after
    (result :: results, final)

/-- How a call comes out that ends with a fault. Only an interruption is no failure. -/
def outcomeOf : Fault → Outcome
  | .aborted message => .aborted message
  | .raised failure => .failed failure
  | .invalid issues => .failed ⟨"ValidationError", (Fault.invalid issues).message⟩
  | fault => .failed ⟨"TypeError", fault.message⟩

def Rule.applies (event : Event) (count : Nat) : Rule → Bool
  | .rule on name nth _ _ =>
    on == event.kind && name.all (event.name? == some ·) && nth.all ((count : Int) == ·)

/-- Follows the rules that apply to an event, in order, up to the first one that fails. -/
def follow (perform : Performer) (event : Event) (count position : Nat) :
    List Rule → Session → Outcome × Session
  | [], s => (.returned, s)
  | .rule on name nth steps failure :: rest, s =>
    if (Rule.rule on name nth steps failure).applies event count then
      let after := match steps with
        | some commands =>
          let (results, done) := performAll perform commands s
          done.nest position results
        | none => s
      match failure with
      | some fault => (outcomeOf fault, after)
      | none => follow perform event count position rest after
    else follow perform event count position rest s

/-- Lets the recording reporter meet an event, by the rules in force when it starts. -/
def meet (perform : Performer) (event : Event) (s : Session) : Outcome × Session :=
  let (count, after) := s.record event
  follow perform event count s.entries.size s.rules after

/-- Flushes the batch of a batching reporter, and sends what it held. -/
def flushBatch (perform : Performer) (s : Session) : Outcome × Session :=
  match s.sink with
  | .batch b =>
    let (records?, flushed) := b.flush
    let after := { s with sink := .batch flushed }
    match records? with
    | some records => meet perform (.sent records flushed.flushes) after
    | none => (.returned, after)
  | .journal j b =>
    let (records?, flushed) := b.flush
    let after := { s with sink := .journal j flushed }
    match records?.elim (pure none) (j.send s.config s.origin flushed.flushes) with
    | .ok line? => (.returned, after.log line?.toList)
    | .error fault => (outcomeOf fault, after)
  | _ => (.returned, s)

/-- What a batching reporter keeps of an observation. -/
def addToBatch (s : Session) (add : Batch → Except (List Issue) Batch) : Except (List Issue) Session :=
  match s.sink with
  | .batch b => return { s with sink := .batch (← add b) }
  | .journal j b => return { s with sink := .journal j (← add b) }
  | _ => pure s

/-- What the reporter does when it is called. -/
def respond (perform : Performer) (call : Call) (s : Session) : Outcome × Session :=
  match s.sink, call with
  | .recording, .observe o => meet perform (.observed o) s
  | .recording, .flush => meet perform .flushed s
  | .recording, .close => meet perform .closed s
  | _, .observe o =>
    match s.addToBatch (Batch.addObservation · o) with
    | .ok after => (.returned, after)
    | .error issues => (outcomeOf (.invalid issues), s)
  | _, .flush => flushBatch perform s
  | _, .close => (.returned, s)

/-- Lets the reporter respond to an activity's calls until it is over. -/
def drive (perform : Performer) (a : Activity) (s : Session) : Except Fault (Option Summary) × Session :=
  let (outcome, after) := respond perform a.call s
  let move := after.loop.resume a outcome
  match _step : move.next with
  | .ends answer => (answer, after.moved move)
  | .waits next => drive perform next (after.moved move)
termination_by a
decreasing_by exact Loop.resume_nearer _step

/-- Makes a move, and drives what comes of it to its end. -/
def carry (perform : Performer) (s : Session) (m : Move) : Except Fault (Option Summary) × Session :=
  match m.next with
  | .ends answer => (answer, s.moved m)
  | .waits a => drive perform a (s.moved m)

def report (perform : Performer) (s : Session) : Except Fault Summary × Session :=
  let (answer, after) := carry perform s s.loop.report
  (answer.map (·.getD .empty), after)

def close (perform : Performer) (s : Session) : Except Fault Unit × Session :=
  let (answer, after) := carry perform s s.loop.close
  (answer.map fun _ => (), after)

/-- Reports at every tick, until the ticks are used up, a close was asked for or the reporter fails to
close. The answer is how many ticks are left. -/
def runTimer (perform : Performer) : Nat → Session → Except Fault Nat × Session
  | 0, s => (pure 0, s)
  | ticks + 1, s =>
    if s.loop.phase.isOver then (pure (ticks + 1), s)
    else
      match s.report perform with
      | (.ok _, after) => runTimer perform ticks after
      | (.error .closeFailed, after) => (pure ticks, after)
      | (.error fault, after) => (throw fault, after)

def answer (s : Session) (result : Except Fault Result) : Result × Session :=
  match result with
  | .ok r => (r, s)
  | .error fault => (.refused fault, s)

/-- The answer and what it leaves; a fault leaves the session as it is. -/
def settle (s : Session) (result : Except Fault (Result × Session)) : Result × Session :=
  match result with
  | .ok done => done
  | .error fault => (.refused fault, s)

def scopeInfo (s : Session) (identity : Text) : Except Fault Result := do
  let tree := s.loop.tree
  return .scope ⟨← tree.scope identity, tree.separator, identity, s.sameAs (.scope identity)⟩

/-- Shows a scope that was just derived, and keeps it. -/
def derived (s : Session) (keep : Option String) (derivation : Text × Tree) :
    Except Fault (Result × Session) := do
  let after := s.putTree derivation.2
  return (← after.scopeInfo derivation.1, after.keep keep (.scope derivation.1))

/-- Does something with the counter at a place, which is made first if need be and then stays. -/
def withCounter (s : Session) (asked : String) (place : Place)
    (act : Handle → Session → Except Fault (Result × Session)) : Result × Session :=
  match s.counterAt asked place with
  | .error fault => (.refused fault, s)
  | .ok (h, after) => after.settle (act h after)

/-- Does something with the gauge at a place, which is made first if need be and then stays. -/
def withGauge (s : Session) (asked : String) (place : Place)
    (act : Handle → Session → Except Fault (Result × Session)) : Result × Session :=
  match s.gaugeAt asked place with
  | .error fault => (.refused fault, s)
  | .ok (h, after) => after.settle (act h after)

/-- The value of the gauge at a place, or the total of a counter that is kept there. -/
def readValue (s : Session) (place : Place) : Result × Session :=
  let kept? := match place with
    | .kept handle => (s.item handle).toOption
    | .named .. => none
  match kept? with
  | some (.counter h) => s.answer do return .number (← s.loop.tree.readCounter h).total
  | _ =>
    s.withGauge "value" place fun h after =>
      return (.gauge (← after.loop.tree.readGauge h).value, after)

/-- What reading a counter in full misses in the item kept at a place: a gauge has a value, but no delta. -/
def missedAt (s : Session) : Place → String
  | .named .. => "value"
  | .kept handle =>
    match s.item handle with
    | .ok (.gauge _) => "snapshot"
    | _ => "value"

/-- Runs something on the scope kept under a name. -/
def withScope (s : Session) (asked name : String) (act : Text → Result × Session) : Result × Session :=
  match s.scopeFor name asked with
  | .ok identity => act identity
  | .error fault => (.refused fault, s)

/-- The fault of asking a reporter that does not batch for what waits to be sent. -/
def noBatch (s : Session) : Fault :=
  .missingMethod ((s.loop.reporter.map Reporter.typeName).getD "NoneType") "pending"

def direct (perform : Performer) (s : Session) : DirectCall → Result × Session
  | .observe metric name tags amount =>
    match s.addToBatch (·.add metric name tags amount) with
    | .ok after =>
      match after.sink with
      | .batch b | .journal _ b => (.pendingCount b.pending.length, after)
      | _ => (.refused s.noBatch, s)
    | .error issues => (.refused (.invalid issues), s)
  | .flush =>
    let (outcome, after) := flushBatch perform s
    match after.sink, outcome with
    | _, .aborted message => (.refused (.aborted message), after)
    | .batch b, .returned | .journal _ b, .returned => (.flushCount b.flushes none, after)
    | .batch b, .failed failure | .journal _ b, .failed failure =>
      (.flushCount b.flushes (some (.raised failure)), after)
    | _, _ => (.refused s.noBatch, after)

def request (perform : Performer) (s : Session) (detached : Bool) : Route → Result × Session
  | .health => (.response (.healthy s.loop.phase), s)
  | .snapshot =>
    s.answer do
      if detached then throw .scopeMissing
      return .response (← Response.ofSnapshot (← s.loop.tree.snapshot))
  | .flush =>
    if detached then (.refused .scopeMissing, s)
    else if s.loop.phase.isOver then (.response .conflict, s)
    else
      let (summary, after) := s.report perform
      after.answer (return .response (.flushed (← summary)))

def lookUp (s : Session) (identity : Value) : Except Fault Result := do
  identity.hashable
  match identity.textKey? with
  | some i =>
    let found := (s.loop.tree.scope? i).isSome
    return .lookup (s.loop.tree.registry.contains i) found (if found then s.sameAs (.scope i) else none)
  | none => return .lookup false false none

mutual

/-- Takes a step. What the reporter does at its events is performed by its own performer. -/
def step (perform : Performer) (s : Session) : Command → Result × Session
  | .counter place keep =>
    s.withCounter "counter" place fun h after =>
      return (.handle (after.sameAs (.counter h)), after.keep keep (.counter h))
  | .gauge place keep =>
    s.withGauge "gauge" place fun h after =>
      return (.handle (after.sameAs (.gauge h)), after.keep keep (.gauge h))
  | .inc place amount =>
    s.withCounter "inc" place fun h after => do
      let tree ← after.loop.tree.inc h amount
      return (.number (← tree.readCounter h).total, after.putTree tree)
  | .update place value =>
    s.withGauge "update" place fun h after => do
      let tree ← after.loop.tree.update h value
      return (.gauge (← tree.readGauge h).value, after.putTree tree)
  | .readCounter place =>
    s.withCounter (s.missedAt place) place fun h after => do
      let c ← after.loop.tree.readCounter h
      return (.counter c.total (← c.delta), after)
  | .readGauge place => s.readValue place
  | .consumeCounter place =>
    s.withCounter "consume_delta" place fun h after => do
      let (delta, tree) ← after.loop.tree.consumeCounter h
      return (.number delta, after.putTree tree)
  | .consumeGauge place =>
    s.withGauge "consume_if_dirty" place fun h after => do
      let ((value, dirty), tree) ← after.loop.tree.consumeGauge h
      return (.consumed value dirty, after.putTree tree)
  | .tagged scope tags keep =>
    s.withScope "tagged" scope fun identity =>
      s.settle do s.derived keep (← s.loop.tree.tagged identity (← tags))
  | .subScope scope name keep =>
    s.withScope "sub_scope" scope fun identity =>
      s.settle do s.derived keep (← s.loop.tree.subScope identity name)
  | .info scope => s.withScope "prefix" scope fun identity => s.answer (s.scopeInfo identity)
  | .qualify scope name =>
    s.withScope "fully_qualified_name" scope fun identity =>
      s.answer (return .name (← s.loop.tree.qualify identity name))
  | .report scope =>
    s.withScope "report" scope fun _ =>
      let (summary, after) := s.report perform
      after.answer (return .summary (← summary))
  | .close scope =>
    s.withScope "close" scope fun _ =>
      let (closed, after) := s.close perform
      after.answer (closed.map fun _ => .nothing)
  | .start scope =>
    s.withScope "loop" scope fun _ =>
      let (l, notices) := s.loop.start
      (.nothing, (s.putLoop l).tell notices)
  | .state scope =>
    s.withScope "loop" scope fun _ =>
      (.state ⟨s.loop.phase, s.loop.passes, s.loop.interval, s.loop.reporter.isSome⟩, s)
  | .snapshot scope keep =>
    s.withScope "snapshot" scope fun _ => s.settle do
      let seen ← s.loop.tree.snapshot
      return (.snapshot seen, s.keep keep (.snapshot seen))
  | .recall name =>
    s.answer do
      match ← s.item name with
      | .snapshot seen => return .snapshot seen
      | _ => throw (.keyMissing (Text.quoted name))
  | .registry scope => s.withScope "registry" scope fun _ => (.registry s.loop.tree.identities, s)
  | .lookup scope identity => s.withScope "registry" scope fun _ => s.answer (s.lookUp identity)
  | .runTimer scope ticks =>
    s.withScope "loop" scope fun _ =>
      let (left, after) := s.runTimer perform ticks.toNat
      after.answer (return .ticksLeft (min ticks 0 + (← left : Nat)))
  | .block scope steps failure =>
    match s.item scope with
    | .error fault => (.refused fault, s)
    | .ok (.scope identity) =>
      let entered := Result.handle (s.sameAs (.scope identity))
      let (results, body) := stepAll perform s steps
      let (closed, after) := body.close perform
      let fault := match closed with
        | .error fault => some fault
        | .ok _ => failure
      (.block (entered :: results) fault, after)
    | .ok item => (.block [] (some (.notEnterable item.typeName)), s)
  | .setRules rules => (.nothing, { s with rules := rules })
  | .pending =>
    match s.sink with
    | .batch b | .journal _ b => (.records b.pending, s)
    | _ => (.refused s.noBatch, s)
  | .direct call =>
    match call with
    | .ok call => s.direct perform call
    | .error fault => (.refused fault, s)
  | .request method path detached =>
    match Route.find method path with
    | .ok route => s.request perform detached route
    | .error response => (.response response, s)
  | .serve closeAtEnd =>
    let during := s.loop.phase
    if closeAtEnd then
      let (closed, after) := s.close perform
      after.answer (closed.map fun _ => .served during after.loop.phase)
    else (.served during during, s)

termination_by structural command => command

def stepAll (perform : Performer) (s : Session) : List Command → List Result × Session
  | [] => ([], s)
  | command :: rest =>
    let (result, after) := step perform s command
    let (results, final) := stepAll perform after rest
    (result :: results, final)
termination_by structural commands => commands

end

/-- Carries out a command at whose events reporters may take steps, at whose events they may again,
and so on to this depth. -/
def performWithin : Nat → Performer
  | 0, _, s => (.refused .tooDeep, s)
  | depth + 1, command, s => step (performWithin depth) s command

def perform : Performer := performWithin 1000

end MetricTree.Session
