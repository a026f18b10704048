import MetricTree.Proofs.AlikeRuns
import MetricTree.Proofs.CallOutcomes
import MetricTree.Proofs.SessionBatches

namespace MetricTree

namespace Session

open Course (calls nextCalls Step)

/-- A command by itself, with no commands inside, that consumes no metric past the reporting. -/
def isSingle : Command → Bool
  | .consumeCounter _ | .consumeGauge _ | .block .. | .setRules _ => false
  | _ => true

/-- Commands that leave it to the reporting to consume metrics, and so do those inside. -/
inductive Spares : Command → Prop
  | block {scope steps failure} (inside : ∀ command ∈ steps, Spares command) : Spares (.block scope steps failure)
  | setRules {rules} (inside : ∀ on name nth steps failure, Rule.rule on name nth (some steps) failure ∈ rules →
      ∀ command ∈ steps, Spares command) : Spares (.setRules rules)
  | single {command} (single : isSingle command = true) : Spares command

/-- Rules by which a reporter leaves it to the reporting to consume metrics. -/
def Sparing (rules : List Rule) : Prop :=
  ∀ on name nth steps failure, Rule.rule on name nth (some steps) failure ∈ rules → ∀ command ∈ steps, Spares command

/-- What a reporter that records meets when it is called. -/
def Event.ofCall : Call → Event
  | .observe o => .observed o
  | .flush => .flushed
  | .close => .closed

/-- What the reporter has met, in this order. -/
def met (s : Session) : List Event := (s.entries.map Entry.event).toList

theorem met_nest (s : Session) (position : Nat) (results : List Result) : (s.nest position results).met = s.met := by
  rw [met, map_event_nest, met]

theorem met_record (s : Session) (event : Event) : (s.record event).2.met = s.met ++ [event] := by
  rw [met, record, Array.map_push, Array.toList_push, met]

theorem tell_append (config : Log.Config) (origin : Log.Origin) (notices more : List Notice) :
    config.tell origin (notices ++ more) = config.tell origin notices ++ config.tell origin more :=
  List.filterMap_append

/-- A session whose recording reporter has met these calls, and whose log was told these notices. -/
structure Records (s : Session) (called : List Call) (told : List Notice) (after : Session) : Prop where
  sink : after.sink = .recording
  config : after.config = s.config
  origin : after.origin = s.origin
  met : after.met = s.met ++ called.map Event.ofCall
  lines : after.lines.toList = s.lines.toList ++ s.config.tell s.origin told

theorem Records.nothing {s : Session} (sink : s.sink = .recording) : Records s [] [] s :=
  ⟨sink, rfl, rfl, (List.append_nil _).symm, (List.append_nil _).symm⟩

theorem Records.trans {s between after : Session} {called others : List Call} {told more : List Notice}
    (first : Records s called told between) (second : Records between others more after) :
    Records s (called ++ others) (told ++ more) after where
  sink := second.sink
  config := second.config.trans first.config
  origin := second.origin.trans first.origin
  met := by rw [second.met, first.met, List.append_assoc, List.map_append]
  lines := by
    rw [second.lines, first.lines, first.config, first.origin, List.append_assoc, tell_append]

/-- Steps that take a course to where the loop of a session then is. What the reporter has met on the way are the calls,
and what the log was told are the notices. -/
structure Mirrors (c : Course) (steps : List Step) (events : List Course.Event) (s : Session) (called : List Call)
    (after : Session) : Prop where
  loop : (c.run steps).loop = after.loop
  past : (c.run steps).past = c.past ++ events
  sparing : Sparing after.rules
  records : s.sink = .recording → Records s called (events.filterMap Course.Event.notice?) after

/-- A session that goes on as a course can, with the same calls of the reporter under way before and after. -/
def GoesOn (c : Course) (s after : Session) : Prop :=
  ∃ steps events, Mirrors c steps events s (calls events) after ∧ (c.run steps).waiting = c.waiting

/-- A performer with whom sessions go on as courses can. -/
def Steady (perform : Performer) : Prop :=
  ∀ ⦃c s command⦄, c.loop = s.loop → Sparing s.rules → Spares command → GoesOn c s (perform command s).2

theorem Mirrors.append {c : Course} {steps more : List Step} {events others : List Course.Event}
    {s between after : Session} {called further : List Call} (first : Mirrors c steps events s called between)
    (second : Mirrors (c.run steps) more others between further after) :
    Mirrors c (steps ++ more) (events ++ others) s (called ++ further) after where
  loop := by rw [c.run_append, second.loop]
  past := by rw [c.run_append, second.past, first.past, List.append_assoc]
  sparing := second.sparing
  records := by
    intro recording
    have before := first.records recording
    rw [List.filterMap_append]
    exact before.trans (second.records before.sink)

namespace GoesOn

variable {c : Course} {s between after : Session}

theorem refl (same : c.loop = s.loop) (sparing : Sparing s.rules) : GoesOn c s s :=
  ⟨[], [], ⟨same, (List.append_nil _).symm, sparing, .nothing⟩, rfl⟩

theorem trans (first : GoesOn c s between)
    (second : ∀ d : Course, d.loop = between.loop → Sparing between.rules → GoesOn d between after) :
    GoesOn c s after := by
  obtain ⟨steps, events, mirrors, waiting⟩ := first
  obtain ⟨more, others, goes_on, waits⟩ := second _ mirrors.loop mirrors.sparing
  refine ⟨steps ++ more, events ++ others, ?_, ?_⟩
  · rw [Course.calls_append]
    exact mirrors.append goes_on
  · rw [c.run_append, waits, waiting]

/-- What is kept under names, the answers to nested commands and what waits in a batch are no matter of the course. -/
theorem aside (goes_on : GoesOn c s between) (loop : after.loop = between.loop) (rules : after.rules = between.rules)
    (records : between.sink = .recording → Records between [] [] after) : GoesOn c s after := by
  refine goes_on.trans fun d same sparing => ⟨[], [], ⟨?_, (List.append_nil _).symm, ?_, records⟩, rfl⟩
  · exact same.trans loop.symm
  · rw [rules]
    exact sparing

/-- A request that is granted. -/
theorem request (same : c.loop = s.loop) (sparing : Sparing s.rules) (r : Course.Request) (events : List Course.Event)
    {tree : Tree} (granted : r.perform s.loop.tree = .ok (events, tree)) : GoesOn c s (s.putTree tree) := by
  have run : c.run [.request r] = { c with loop := { c.loop with tree := tree }, past := c.past ++ events } := by
    simp only [Course.run, List.foldl_cons, List.foldl_nil, Course.take, same, granted]
  have uncalled : calls events = [] := Course.calls_of_quiet (Course.isQuiet_of_perform granted)
  have untold : events.filterMap Course.Event.notice? = [] := by
    cases r.perform_change granted <;> rfl
  refine ⟨[.request r], events, ⟨?_, ?_, sparing, fun recording => ?_⟩, ?_⟩
  · rw [run, same]
    rfl
  · rw [run]
  · rw [uncalled, untold]
    exact ⟨recording, rfl, rfl, (List.append_nil _).symm, (List.append_nil _).symm⟩
  · rw [run]

end GoesOn

variable {perform : Performer} {c : Course} {s : Session}

theorem goesOn_performAll (steady : Steady perform) {commands : List Command}
    (each : ∀ command ∈ commands, Spares command) (same : c.loop = s.loop) (sparing : Sparing s.rules) :
    GoesOn c s (performAll perform commands s).2 := by
  induction commands generalizing c s with
  | nil => exact .refl same sparing
  | cons command rest ih =>
    obtain ⟨first, others⟩ := List.forall_mem_cons.mp each
    exact (steady same sparing first).trans fun d same sparing => ih others same sparing

/-- What a rule has done when it applies. -/
theorem goesOn_steps (steady : Steady perform) (steps : Option (List Command)) (position : Nat)
    (same : c.loop = s.loop) (sparing : Sparing s.rules) :
    (∀ commands, steps = some commands → ∀ command ∈ commands, Spares command) →
      GoesOn c s (match steps with
        | some commands => (performAll perform commands s).2.nest position (performAll perform commands s).1
        | none => s) := by
  intro each
  cases steps with
  | none => exact .refl same sparing
  | some commands =>
    refine (goesOn_performAll steady (each commands rfl) same sparing).aside rfl rfl fun recording => ?_
    exact ⟨recording, rfl, rfl, (met_nest ..).trans (List.append_nil _).symm, (List.append_nil _).symm⟩

theorem goesOn_follow (steady : Steady perform) (event : Event) (count position : Nat) {rules : List Rule}
    (each : Sparing rules) (same : c.loop = s.loop) (sparing : Sparing s.rules) :
    GoesOn c s (follow perform event count position rules s).2 := by
  induction rules generalizing c s with
  | nil => exact .refl same sparing
  | cons rule rest ih =>
    obtain ⟨on, name, nth, steps, failure⟩ := rule
    have others : Sparing rest := fun on name nth steps failure member =>
      each on name nth steps failure (List.mem_cons_of_mem _ member)
    unfold follow
    split
    · have taken := goesOn_steps steady steps position same sparing fun commands given =>
        each on name nth commands failure (given ▸ List.mem_cons_self)
      cases failure with
      | some fault => exact taken
      | none => exact taken.trans fun d same sparing => ih others same sparing
    · exact ih others same sparing

/-- What a recording reporter meets is put down first, and what its rules say comes after. -/
theorem mirrors_meet (steady : Steady perform) (event : Event) (called : List Call)
    (recorded : s.sink = .recording → called.map Event.ofCall = [event]) (same : c.loop = s.loop)
    (sparing : Sparing s.rules) :
    ∃ steps events, Mirrors c steps events s (called ++ calls events) (meet perform event s).2 ∧
      (c.run steps).waiting = c.waiting := by
  obtain ⟨steps, events, mirrors, waiting⟩ := goesOn_follow steady event (s.record event).1 s.entries.size
    (s := (s.record event).2) sparing same sparing
  refine ⟨steps, events, ⟨mirrors.loop, mirrors.past, mirrors.sparing, fun recording => ?_⟩, waiting⟩
  have first : Records s called [] (s.record event).2 :=
    ⟨recording, rfl, rfl, by rw [met_record, recorded recording], (List.append_nil _).symm⟩
  exact first.trans (mirrors.records recording)

/-- Where the reporter does not record, nothing is asked of a session but its loop. -/
theorem Mirrors.unrecorded {steps : List Step} {events : List Course.Event} {between after : Session}
    {called : List Call} (mirrors : Mirrors c steps events between called after) (still : s.sink ≠ .recording)
    (others : List Call) : Mirrors c steps events s others after :=
  ⟨mirrors.loop, mirrors.past, mirrors.sparing, fun recording => absurd recording still⟩

theorem GoesOn.unrecorded {between after : Session} (goes_on : GoesOn c between after) (still : s.sink ≠ .recording) :
    GoesOn c s after := by
  obtain ⟨steps, events, mirrors, waiting⟩ := goes_on
  exact ⟨steps, events, mirrors.unrecorded still _, waiting⟩

theorem goesOn_flushBatch (steady : Steady perform) (same : c.loop = s.loop) (sparing : Sparing s.rules) :
    GoesOn c s (flushBatch perform s).2 := by
  cases sink : s.sink with
  | absent | bare | recording =>
    simp only [flushBatch, sink]
    exact .refl same sparing
  | batch b =>
    have still : s.sink ≠ .recording := fun recording => by cases sink.symm.trans recording
    simp only [flushBatch, sink]
    rcases b.flush with ⟨_ | records, flushed⟩
    · have emptied : GoesOn c { s with sink := .batch flushed } _ := .refl same sparing
      exact emptied.unrecorded still
    · obtain ⟨steps, events, mirrors, waiting⟩ := mirrors_meet steady (.sent records flushed.flushes) []
        (s := { s with sink := .batch flushed }) (fun recording => by cases recording) same sparing
      exact ⟨steps, events, mirrors.unrecorded still _, waiting⟩
  | journal j b =>
    have still : s.sink ≠ .recording := fun recording => by cases sink.symm.trans recording
    simp only [flushBatch, sink]
    rcases b.flush with ⟨records?, flushed⟩
    simp only
    cases records?.elim (pure none) (j.send s.config s.origin flushed.flushes) with
    | ok line? =>
      have emptied : GoesOn c (log { s with sink := .journal j flushed } line?.toList) _ := .refl same sparing
      exact emptied.unrecorded still
    | error fault =>
      have emptied : GoesOn c { s with sink := .journal j flushed } _ := .refl same sparing
      exact emptied.unrecorded still

theorem addToBatch_eq_ok {add : Batch → Except (List Issue) Batch} {after : Session} (added : s.addToBatch add = .ok after) :
    ∃ sink, after = { s with sink := sink } ∧ (s.sink = .recording → sink = .recording) := by
  unfold addToBatch at added
  split at added
  · next b sink =>
    obtain ⟨b', _, made⟩ := bind_eq_ok.mp added
    cases made
    exact ⟨.batch b', rfl, fun recording => by cases sink.symm.trans recording⟩
  · next j b sink =>
    obtain ⟨b', _, made⟩ := bind_eq_ok.mp added
    cases made
    exact ⟨.journal j b', rfl, fun recording => by cases sink.symm.trans recording⟩
  · cases added
    exact ⟨s.sink, rfl, id⟩

theorem GoesOn.withSink (same : c.loop = s.loop) (sparing : Sparing s.rules) {sink : Sink}
    (keeps : s.sink = .recording → sink = .recording) : GoesOn c s { s with sink := sink } :=
  (GoesOn.refl same sparing).aside rfl rfl fun recording =>
    ⟨keeps recording, rfl, rfl, (List.append_nil _).symm, (List.append_nil _).symm⟩

/-- A reporter responds to a call by what it does itself and what its rules say. -/
theorem mirrors_respond (steady : Steady perform) (call : Call) (same : c.loop = s.loop) (sparing : Sparing s.rules) :
    ∃ steps events, Mirrors c steps events s (call :: calls events) (respond perform call s).2 ∧
      (c.run steps).waiting = c.waiting := by
  by_cases recording : s.sink = .recording
  · have meets : respond perform call s = meet perform (Event.ofCall call) s := by
      unfold respond
      cases call <;> simp only [recording] <;> rfl
    rw [meets]
    exact mirrors_meet steady (Event.ofCall call) [call] (fun _ => rfl) same sparing
  · have goes_on : GoesOn c s (respond perform call s).2 := by
      unfold respond
      split
      · next sink => exact absurd sink recording
      · next sink => exact absurd sink recording
      · next sink => exact absurd sink recording
      · split
        · next added =>
          obtain ⟨sink, rfl, keeps⟩ := addToBatch_eq_ok added
          exact .withSink same sparing keeps
        · exact .refl same sparing
      · exact goesOn_flushBatch steady same sparing
      · exact .refl same sparing
    obtain ⟨steps, events, mirrors, waiting⟩ := goes_on
    exact ⟨steps, events, mirrors.unrecorded recording _, waiting⟩

/-- A move that both make: its notices are told, and the call that it ends with is still to be met. -/
theorem mirrors_moved {step : Step} {outer : List Activity} {before : List Course.Event} {plan : Option Plan} {m : Move}
    (taken : c.take step = { c with waiting := outer }.move before plan m)
    (untold : before.filterMap Course.Event.notice? = []) (sparing : Sparing s.rules) :
    Mirrors c [step] (before ++ Course.own plan m) s [] (s.moved m) := by
  have run : c.run [step] = { c with waiting := outer }.move before plan m := taken
  refine ⟨?_, ?_, sparing, fun recording => ⟨recording, rfl, rfl, (List.append_nil _).symm, ?_⟩⟩
  · rw [run]
    rfl
  · rw [run, Course.past_move]
  · rw [List.filterMap_append, untold, Course.notices_own, List.nil_append]
    simp only [moved, tell, log, putLoop, Array.toList_append]

/-- To drive an activity is to carry on with it when its call has come out. -/
theorem drive_eq (perform : Performer) (a : Activity) (s : Session) :
    drive perform a s = carry perform (respond perform a.call s).2
      ((respond perform a.call s).2.loop.resume a (respond perform a.call s).1) := by
  rw [drive, carry]
  rcases respond perform a.call s with ⟨outcome, after⟩
  simp only
  split
  · next ends => simp only [ends]
  · next waits => simp only [waits]

theorem getLast?_own {plan : Option Plan} {m : Move} {answer : Except Fault (Option Summary)}
    (ends : m.next = .ends answer) (before : List Course.Event) :
    (before ++ Course.own plan m).getLast? = some (.answered answer) := by
  have last : ∃ sooner, m.ending = sooner ++ [.answered answer] := by
    unfold Move.ending
    rw [ends]
    cases answer with
    | ok summary => exact ⟨[], rfl⟩
    | error fault =>
      simp only
      split
      · exact ⟨[], rfl⟩
      · exact ⟨[.cut fault], rfl⟩
  obtain ⟨sooner, ending⟩ := last
  rw [Course.own, ending, ← List.append_assoc, ← List.append_assoc, List.getLast?_concat]

/-- Driven to its end, an activity gives the answer that comes last in the course. -/
def Drives (perform : Performer) (a : Activity) : Prop :=
  ∀ ⦃c s outer⦄, c.loop = s.loop → Sparing s.rules → c.waiting = a :: outer →
    ∃ steps events, Mirrors c steps events s (a.call :: calls events) (drive perform a s).2 ∧
      (c.run steps).waiting = outer ∧ events.getLast? = some (.answered (drive perform a s).1)

theorem mirrors_carry {step : Step} {outer : List Activity} {before : List Course.Event} {plan : Option Plan} {m : Move}
    (drives : ∀ b, m.next = .waits b → Drives perform b)
    (taken : c.take step = { c with waiting := outer }.move before plan m)
    (untold : before.filterMap Course.Event.notice? = []) (uncalled : calls before = []) (sparing : Sparing s.rules) :
    ∃ steps events, Mirrors c steps events s (calls events) (carry perform s m).2 ∧
      (c.run steps).waiting = outer ∧ events.getLast? = some (.answered (carry perform s m).1) := by
  have moved := mirrors_moved taken untold sparing
  have run : c.run [step] = { c with waiting := outer }.move before plan m := taken
  have called : calls (before ++ Course.own plan m) = nextCalls m.next := by
    rw [Course.calls_append, uncalled, Course.calls_own, List.nil_append]
  unfold carry
  cases next : m.next with
  | ends answer =>
    refine ⟨[step], before ++ Course.own plan m, ?_, ?_, getLast?_own next before⟩
    · rw [called, next]
      exact moved
    · rw [run]
      simp only [Course.move, next]
  | waits b =>
    -- The call that the move ends with is met when its activity is driven, and counted there.
    have waits : (c.run [step]).waiting = b :: outer := by
      rw [run]
      simp only [Course.move, next]
    obtain ⟨steps, events, mirrors, waiting, last⟩ := drives b next moved.loop moved.sparing waits
    refine ⟨[step] ++ steps, (before ++ Course.own plan m) ++ events, ?_, ?_, ?_⟩
    · rw [Course.calls_append, called, next]
      exact moved.append mirrors
    · rw [c.run_append, waiting]
    · rw [List.getLast?_append, last, Option.some_or]

/-- The calls of an activity come to an end, and each of them is met before what its reporter does meanwhile. -/
theorem drives (steady : Steady perform) (a : Activity) : Drives perform a := by
  -- The outcome of the call is one step of the course; what is left is nearer to its end, whatever the outcome.
  refine WellFounded.induction (C := Drives perform) WellFoundedRelation.wf a ?_
  intro a nearer c s outer same sparing waits
  obtain ⟨steps, events, mirrors, waiting⟩ := mirrors_respond steady a.call same sparing
  rw [drive_eq]
  generalize respond perform a.call s = responded at mirrors
  obtain ⟨outcome, after⟩ := responded
  have taken : (c.run steps).take (.outcome outcome) = { c.run steps with waiting := outer }.move [.came a outcome]
      (a.plan? after.loop outcome) (after.loop.resume a outcome) := by
    simp only [Course.take, waiting, waits, mirrors.loop]
  obtain ⟨more, others, carried, left, last⟩ := mirrors_carry (s := after)
    (fun b next => nearer b (Loop.resume_nearer next)) taken rfl rfl mirrors.sparing
  refine ⟨steps ++ more, events ++ others, ?_, ?_, ?_⟩
  · rw [Course.calls_append, ← List.cons_append]
    exact mirrors.append carried
  · rw [c.run_append, left]
  · rw [List.getLast?_append, last, Option.some_or]

/-- A report is answered as the course answers it, which is the last that happens. -/
theorem mirrors_report (steady : Steady perform) (same : c.loop = s.loop) (sparing : Sparing s.rules) :
    ∃ steps events answer, Mirrors c steps events s (calls events) (s.report perform).2 ∧
      (c.run steps).waiting = c.waiting ∧ events.getLast? = some (.answered answer) ∧
      (s.report perform).1 = answer.map (·.getD .empty) := by
  have taken : c.take .report = { c with waiting := c.waiting }.move [] (some s.loop.planReport) s.loop.report := by
    rw [← same]
    rfl
  obtain ⟨steps, events, mirrors, waiting, last⟩ := mirrors_carry (fun b _ => drives steady b) taken rfl rfl sparing
  exact ⟨steps, events, _, mirrors, waiting, last, rfl⟩

/-- A close is answered as the course answers it. -/
theorem mirrors_close (steady : Steady perform) (same : c.loop = s.loop) (sparing : Sparing s.rules) :
    ∃ steps events answer, Mirrors c steps events s (calls events) (s.close perform).2 ∧
      (c.run steps).waiting = c.waiting ∧ events.getLast? = some (.answered answer) ∧
      (s.close perform).1 = answer.map fun _ => () := by
  have taken : c.take .close = { c with waiting := c.waiting }.move
      (if s.loop.phase.isOver then [] else [.closing]) (some s.loop.planClose) s.loop.close := by
    rw [← same]
    rfl
  have untold : (if s.loop.phase.isOver then [] else [Course.Event.closing]).filterMap Course.Event.notice? = [] := by
    split <;> rfl
  have uncalled : calls (if s.loop.phase.isOver then [] else [Course.Event.closing]) = [] := by
    split <;> rfl
  obtain ⟨steps, events, mirrors, waiting, last⟩ :=
    mirrors_carry (fun b _ => drives steady b) taken untold uncalled sparing
  exact ⟨steps, events, _, mirrors, waiting, last, rfl⟩

theorem goesOn_report (steady : Steady perform) (same : c.loop = s.loop) (sparing : Sparing s.rules) :
    GoesOn c s (s.report perform).2 := by
  obtain ⟨steps, events, _, mirrors, waiting, _⟩ := mirrors_report steady same sparing
  exact ⟨steps, events, mirrors, waiting⟩

theorem goesOn_close (steady : Steady perform) (same : c.loop = s.loop) (sparing : Sparing s.rules) :
    GoesOn c s (s.close perform).2 := by
  obtain ⟨steps, events, _, mirrors, waiting, _⟩ := mirrors_close steady same sparing
  exact ⟨steps, events, mirrors, waiting⟩

theorem goesOn_runTimer (steady : Steady perform) (ticks : Nat) (same : c.loop = s.loop) (sparing : Sparing s.rules) :
    GoesOn c s (s.runTimer perform ticks).2 := by
  induction ticks generalizing c s with
  | zero => exact .refl same sparing
  | succ ticks ih =>
    have first := goesOn_report steady same sparing
    unfold runTimer
    split
    · exact .refl same sparing
    · split
      · next reports =>
        rw [reports] at first
        exact first.trans fun d same sparing => ih same sparing
      · next reports =>
        rw [reports] at first
        exact first
      · next reports =>
        rw [reports] at first
        exact first

theorem GoesOn.start (same : c.loop = s.loop) (sparing : Sparing s.rules) :
    GoesOn c s ((s.putLoop s.loop.start.1).tell s.loop.start.2) := by
  have run : c.run [.start] = { c with loop := s.loop.start.1, past := c.past ++ s.loop.start.2.map .told } := by
    rw [← same]
    rfl
  have uncalled : calls (s.loop.start.2.map .told) = [] := Course.calls_of_quiet fun e => Course.isQuiet_of_told
  refine ⟨[.start], s.loop.start.2.map .told, ⟨?_, ?_, sparing, fun recording => ?_⟩, ?_⟩
  · rw [run]
    rfl
  · rw [run]
  · rw [uncalled, Course.notices_told]
    refine ⟨recording, rfl, rfl, (List.append_nil _).symm, ?_⟩
    simp only [tell, log, putLoop, Array.toList_append]
  · rw [run]

end Session

end MetricTree
