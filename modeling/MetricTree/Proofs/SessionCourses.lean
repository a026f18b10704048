import MetricTree.Proofs.SessionMoves
import MetricTree.Session.Run

namespace MetricTree

namespace Session

open Course (calls)

variable {perform : Performer} {c : Course} {s : Session}

theorem GoesOn.inc {h : Handle} {amount : Value} {tree : Tree} (added : s.loop.tree.inc h amount = .ok tree)
    (same : c.loop = s.loop) (sparing : Sparing s.rules) : GoesOn c s (s.putTree tree) := by
  refine .request same sparing (.inc h amount) (amount.number?.toList.map (.added h)) ?_
  simp only [Course.Request.perform, added]
  rfl

theorem GoesOn.update {h : Handle} {value : Value} {tree : Tree} (updated : s.loop.tree.update h value = .ok tree)
    (same : c.loop = s.loop) (sparing : Sparing s.rules) : GoesOn c s (s.putTree tree) := by
  obtain ⟨gauge, _, written⟩ := bind_eq_ok.mp updated
  obtain ⟨next, converted, _⟩ := bind_eq_ok.mp written
  obtain ⟨x, read, _⟩ := bind_eq_ok.mp converted
  refine .request same sparing (.update h value) [.updated h x] ?_
  simp only [Course.Request.perform, read, updated]
  rfl

theorem GoesOn.tagged {identity made : Text} {extra : Table Value Value} {tree : Tree}
    (tagged : s.loop.tree.tagged identity extra = .ok (made, tree)) (same : c.loop = s.loop)
    (sparing : Sparing s.rules) : GoesOn c s (s.putTree tree) := by
  refine .request same sparing (.tagged identity extra) [] ?_
  simp only [Course.Request.perform, tagged]
  rfl

theorem GoesOn.subScope {identity made : Text} {name : Value} {tree : Tree}
    (below : s.loop.tree.subScope identity name = .ok (made, tree)) (same : c.loop = s.loop)
    (sparing : Sparing s.rules) : GoesOn c s (s.putTree tree) := by
  refine .request same sparing (.subScope identity name) [] ?_
  simp only [Course.Request.perform, below]
  rfl

theorem goesOn_counterAt {asked : String} {place : Place} {h : Handle} {after : Session}
    (found : s.counterAt asked place = .ok (h, after)) (same : c.loop = s.loop) (sparing : Sparing s.rules) :
    GoesOn c s after := by
  cases place with
  | named scope name =>
    obtain ⟨identity, _, found⟩ := bind_eq_ok.mp found
    obtain ⟨⟨k, t⟩, made, found⟩ := bind_eq_ok.mp found
    cases found
    refine .request same sparing (.counter identity name) [] ?_
    simp only [Course.Request.perform, made]
    rfl
  | kept handle =>
    obtain ⟨item, _, found⟩ := bind_eq_ok.mp found
    cases item with
    | counter k =>
      cases found
      exact .refl same sparing
    | _ => cases found

theorem goesOn_gaugeAt {asked : String} {place : Place} {h : Handle} {after : Session}
    (found : s.gaugeAt asked place = .ok (h, after)) (same : c.loop = s.loop) (sparing : Sparing s.rules) :
    GoesOn c s after := by
  cases place with
  | named scope name =>
    obtain ⟨identity, _, found⟩ := bind_eq_ok.mp found
    obtain ⟨⟨k, t⟩, made, found⟩ := bind_eq_ok.mp found
    cases found
    refine .request same sparing (.gauge identity name) [] ?_
    simp only [Course.Request.perform, made]
    rfl
  | kept handle =>
    obtain ⟨item, _, found⟩ := bind_eq_ok.mp found
    cases item with
    | gauge k =>
      cases found
      exact .refl same sparing
    | _ => cases found

theorem goesOn_settle {result : Except Fault (Result × Session)} (same : c.loop = s.loop) (sparing : Sparing s.rules)
    (done : ∀ answer after, result = .ok (answer, after) → GoesOn c s after) : GoesOn c s (s.settle result).2 := by
  cases result with
  | error fault => exact .refl same sparing
  | ok pair => exact done pair.1 pair.2 rfl

/-- What is done with a metric once it is found. -/
theorem goesOn_located {found : Except Fault (Handle × Session)} {act : Handle → Session → Except Fault (Result × Session)}
    (same : c.loop = s.loop) (sparing : Sparing s.rules)
    (located : ∀ h there, found = .ok (h, there) → GoesOn c s there)
    (done : ∀ (d : Course) h there answer after, d.loop = there.loop → Sparing there.rules →
      act h there = .ok (answer, after) → GoesOn d there after) :
    GoesOn c s (match found with
      | .error fault => (Result.refused fault, s)
      | .ok (h, there) => there.settle (act h there)).2 := by
  rcases found with fault | ⟨h, there⟩
  · exact .refl same sparing
  · exact (located h there rfl).trans fun d same sparing =>
      goesOn_settle same sparing fun answer after => done d h there answer after same sparing

theorem goesOn_withCounter {asked : String} {place : Place} {act : Handle → Session → Except Fault (Result × Session)}
    (same : c.loop = s.loop) (sparing : Sparing s.rules)
    (done : ∀ (d : Course) h there answer after, d.loop = there.loop → Sparing there.rules →
      act h there = .ok (answer, after) → GoesOn d there after) : GoesOn c s (s.withCounter asked place act).2 :=
  goesOn_located same sparing (fun _ _ found => goesOn_counterAt found same sparing) done

theorem goesOn_withGauge {asked : String} {place : Place} {act : Handle → Session → Except Fault (Result × Session)}
    (same : c.loop = s.loop) (sparing : Sparing s.rules)
    (done : ∀ (d : Course) h there answer after, d.loop = there.loop → Sparing there.rules →
      act h there = .ok (answer, after) → GoesOn d there after) : GoesOn c s (s.withGauge asked place act).2 :=
  goesOn_located same sparing (fun _ _ found => goesOn_gaugeAt found same sparing) done

theorem goesOn_withScope {asked name : String} {act : Text → Result × Session} (same : c.loop = s.loop)
    (sparing : Sparing s.rules) (done : ∀ identity, GoesOn c s (act identity).2) :
    GoesOn c s (s.withScope asked name act).2 := by
  unfold withScope
  split
  · next identity _ => exact done identity
  · exact .refl same sparing

theorem answer_snd (s : Session) (result : Except Fault Result) : (s.answer result).2 = s := by
  cases result <;> rfl

/-- To keep something under a name touches nothing else. -/
theorem GoesOn.keep {after : Session} (goes_on : GoesOn c s after) (name : Option String) (item : Item) :
    GoesOn c s (after.keep name item) := by
  unfold Session.keep
  cases name with
  | none => exact goes_on
  | some name =>
    simp only
    split
    · exact goes_on
    · exact goes_on.aside rfl rfl fun recording =>
        ⟨recording, rfl, rfl, (List.append_nil _).symm, (List.append_nil _).symm⟩

theorem goesOn_derived {keep : Option String} {identity : Text} {tree : Tree} {answer : Result} {after : Session}
    (derives : GoesOn c s (s.putTree tree)) (shown : s.derived keep (identity, tree) = .ok (answer, after)) :
    GoesOn c s after := by
  obtain ⟨info, _, shown⟩ := bind_eq_ok.mp shown
  cases shown
  exact derives.keep keep _

theorem goesOn_direct (steady : Steady perform) (call : DirectCall) (same : c.loop = s.loop) (sparing : Sparing s.rules) :
    GoesOn c s (s.direct perform call).2 := by
  cases call with
  | observe metric name tags amount =>
    simp only [direct]
    split
    · next added =>
      obtain ⟨sink, rfl, keeps⟩ := addToBatch_eq_ok added
      split
      · exact .withSink same sparing keeps
      · exact .withSink same sparing keeps
      · exact .refl same sparing
    · exact .refl same sparing
  | flush =>
    have flushed := goesOn_flushBatch steady same sparing
    simp only [direct]
    split <;> exact flushed

theorem goesOn_request (steady : Steady perform) (detached : Bool) (route : Route) (same : c.loop = s.loop)
    (sparing : Sparing s.rules) : GoesOn c s (s.request perform detached route).2 := by
  cases route with
  | health => exact .refl same sparing
  | snapshot =>
    unfold Session.request
    rw [answer_snd]
    exact .refl same sparing
  | flush =>
    unfold Session.request
    simp only
    split
    · exact .refl same sparing
    · split
      · exact .refl same sparing
      · rw [answer_snd]
        exact goesOn_report steady same sparing

theorem goesOn_stepAll {commands : List Command} (each : ∀ command ∈ commands, ∀ {c : Course} {s : Session},
      c.loop = s.loop → Sparing s.rules → GoesOn c s (step perform s command).2)
    (same : c.loop = s.loop) (sparing : Sparing s.rules) : GoesOn c s (stepAll perform s commands).2 := by
  induction commands generalizing c s with
  | nil => exact .refl same sparing
  | cons command rest ih =>
    obtain ⟨first, others⟩ := List.forall_mem_cons.mp each
    exact (first same sparing).trans fun d same sparing => ih others same sparing

theorem goesOn_single (steady : Steady perform) {command : Command} (single : isSingle command = true)
    (same : c.loop = s.loop) (sparing : Sparing s.rules) : GoesOn c s (step perform s command).2 := by
  cases command with
  | consumeCounter | consumeGauge | block | setRules => cases single
  | counter place keep =>
    refine goesOn_withCounter same sparing fun d h found answer after same sparing acts => ?_
    cases acts
    exact (GoesOn.refl same sparing).keep keep _
  | gauge place keep =>
    refine goesOn_withGauge same sparing fun d h found answer after same sparing acts => ?_
    cases acts
    exact (GoesOn.refl same sparing).keep keep _
  | inc place amount =>
    refine goesOn_withCounter same sparing fun d h found answer after same sparing acts => ?_
    obtain ⟨tree, added, acts⟩ := bind_eq_ok.mp acts
    obtain ⟨cell, _, acts⟩ := bind_eq_ok.mp acts
    cases acts
    exact .inc added same sparing
  | update place value =>
    refine goesOn_withGauge same sparing fun d h found answer after same sparing acts => ?_
    obtain ⟨tree, updated, acts⟩ := bind_eq_ok.mp acts
    obtain ⟨cell, _, acts⟩ := bind_eq_ok.mp acts
    cases acts
    exact .update updated same sparing
  | readCounter place =>
    refine goesOn_withCounter same sparing fun d h found answer after same sparing acts => ?_
    obtain ⟨cell, _, acts⟩ := bind_eq_ok.mp acts
    obtain ⟨delta, _, acts⟩ := bind_eq_ok.mp acts
    cases acts
    exact .refl same sparing
  | readGauge place =>
    have written : GoesOn c s (s.withGauge "value" place fun h after =>
        return (.gauge (← after.loop.tree.readGauge h).value, after)).2 := by
      refine goesOn_withGauge same sparing fun d h found answer after same sparing acts => ?_
      obtain ⟨cell, _, acts⟩ := bind_eq_ok.mp acts
      cases acts
      exact .refl same sparing
    simp only [step, readValue]
    split
    · rw [answer_snd]
      exact .refl same sparing
    · exact written
  | tagged scope tags keep =>
    refine goesOn_withScope same sparing fun identity => goesOn_settle same sparing fun answer after derives => ?_
    obtain ⟨extra, _, derives⟩ := bind_eq_ok.mp derives
    obtain ⟨⟨made, tree⟩, tagged, derives⟩ := bind_eq_ok.mp derives
    exact goesOn_derived (.tagged tagged same sparing) derives
  | subScope scope name keep =>
    refine goesOn_withScope same sparing fun identity => goesOn_settle same sparing fun answer after derives => ?_
    obtain ⟨⟨made, tree⟩, below, derives⟩ := bind_eq_ok.mp derives
    exact goesOn_derived (.subScope below same sparing) derives
  | info scope | qualify scope name | lookup scope identity =>
    refine goesOn_withScope same sparing fun identity => ?_
    rw [answer_snd]
    exact .refl same sparing
  | report scope =>
    refine goesOn_withScope same sparing fun _ => ?_
    simp only [answer_snd]
    exact goesOn_report steady same sparing
  | close scope =>
    refine goesOn_withScope same sparing fun _ => ?_
    simp only [answer_snd]
    exact goesOn_close steady same sparing
  | start scope => exact goesOn_withScope same sparing fun _ => .start same sparing
  | state scope | registry scope => exact goesOn_withScope same sparing fun _ => .refl same sparing
  | snapshot scope keep =>
    refine goesOn_withScope same sparing fun _ => goesOn_settle same sparing fun answer after shows => ?_
    obtain ⟨seen, _, shows⟩ := bind_eq_ok.mp shows
    cases shows
    exact (GoesOn.refl same sparing).keep keep _
  | «recall» name =>
    simp only [step, answer_snd]
    exact .refl same sparing
  | runTimer scope ticks =>
    refine goesOn_withScope same sparing fun _ => ?_
    simp only [answer_snd]
    exact goesOn_runTimer steady _ same sparing
  | pending =>
    simp only [step]
    split <;> exact .refl same sparing
  | direct call =>
    simp only [step]
    split
    · exact goesOn_direct steady _ same sparing
    · exact .refl same sparing
  | request method path detached =>
    simp only [step]
    split
    · exact goesOn_request steady detached _ same sparing
    · exact .refl same sparing
  | serve closeAtEnd =>
    simp only [step]
    split
    · simp only [answer_snd]
      exact goesOn_close steady same sparing
    · exact .refl same sparing

theorem goesOn_step (steady : Steady perform) {command : Command} (spares : Spares command) (same : c.loop = s.loop)
    (sparing : Sparing s.rules) : GoesOn c s (step perform s command).2 := by
  induction spares generalizing c s with
  | single single => exact goesOn_single steady single same sparing
  | setRules inside =>
    refine ⟨[], [], ⟨same, (List.append_nil _).symm, inside, fun recording => ?_⟩, rfl⟩
    exact ⟨recording, rfl, rfl, (List.append_nil _).symm, (List.append_nil _).symm⟩
  | @block scope steps failure _ ih =>
    simp only [step]
    split
    · exact .refl same sparing
    · have inside : GoesOn c s (stepAll perform s steps).2 :=
        goesOn_stepAll (fun command member => ih command member) same sparing
      exact inside.trans fun d same sparing => goesOn_close steady same sparing
    · exact .refl same sparing

/-- Whatever depth steps may be nested to. -/
theorem steady_performWithin (depth : Nat) : Steady (performWithin depth) := by
  induction depth with
  | zero => exact fun _ _ _ same sparing _ => .refl same sparing
  | succ depth ih => exact fun _ _ _ same sparing spares => goesOn_step ih spares same sparing

/-- What is handed out in answers: what the reporter met at the calls, and what the log was told. -/
structure Shows (s : Session) (events : List Course.Event) (answers : List StepAnswer) : Prop where
  met : (answers.flatMap StepAnswer.entries).map Entry.event = (calls events).map Event.ofCall
  lines : answers.flatMap StepAnswer.lines = s.config.tell s.origin (events.filterMap Course.Event.notice?)

theorem Shows.cons {s between : Session} {events others : List Course.Event} {result : Result} {later : List StepAnswer}
    (here : Records { s with entries := #[], lines := #[] } (calls events) (events.filterMap Course.Event.notice?) between)
    (shows : Shows between others later) :
    Shows s (events ++ others) (⟨result, between.entries.toList, between.lines.toList⟩ :: later) where
  met := by
    have met := here.met
    rw [Session.met, Session.met, Array.map_empty, List.nil_append, Array.toList_map] at met
    rw [List.flatMap_cons, List.map_append, met, shows.met, Course.calls_append, List.map_append]
  lines := by
    have lines : between.lines.toList = s.config.tell s.origin (events.filterMap Course.Event.notice?) := here.lines
    have config : between.config = s.config := here.config
    have origin : between.origin = s.origin := here.origin
    rw [List.flatMap_cons, lines, shows.lines, config, origin, List.filterMap_append, tell_append]

theorem goesOn_takeAll {commands : List Command} (each : ∀ command ∈ commands, Spares command) (same : c.loop = s.loop)
    (sparing : Sparing s.rules) :
    ∃ steps events, (c.run steps).loop = (takeAll commands s).2.loop ∧ (c.run steps).waiting = c.waiting ∧
      (c.run steps).past = c.past ++ events ∧ (s.sink = .recording → Shows s events (takeAll commands s).1) := by
  induction commands generalizing c s with
  | nil => exact ⟨[], [], same, rfl, (List.append_nil _).symm, fun _ => ⟨rfl, rfl⟩⟩
  | cons command rest ih =>
    obtain ⟨first, others⟩ := List.forall_mem_cons.mp each
    obtain ⟨steps, events, mirrors, waiting⟩ := steady_performWithin 1000 (s := { s with entries := #[], lines := #[] })
      same sparing first
    obtain ⟨more, further, loop, waits, past, shows⟩ := ih others mirrors.loop mirrors.sparing
    refine ⟨steps ++ more, events ++ further, ?_, ?_, ?_, fun recording => ?_⟩
    · rw [c.run_append]
      exact loop
    · rw [c.run_append, waits, waiting]
    · rw [c.run_append, past, mirrors.past, List.append_assoc]
    · have here := mirrors.records recording
      exact .cons here (shows here.sink)

/-- A session is a course of its tree, whatever its reporter's rules say: a course after which the loop is where that of
the session is, and no call is under way. What a recording reporter has met are the calls of the course, and what was
logged are its notices. -/
theorem session_is_course (config : Log.Config) (origin : Log.Origin) (attached : Attachment) (opening : Opening)
    {commands : List Command} (each : ∀ command ∈ commands, Spares command) (sparing : Sparing attached.rules) :
    let s := start config origin attached opening
    let answers := (takeAll commands s).1
    ∃ steps, let c := (Course.opened opening).run steps
      c.loop = (takeAll commands s).2.loop ∧ c.waiting = [] ∧ (attached.sink = .recording →
        (answers.flatMap StepAnswer.entries).map Entry.event = (calls c.past).map Event.ofCall ∧
        s.lines.toList ++ answers.flatMap StepAnswer.lines =
          config.tell origin (c.past.filterMap Course.Event.notice?)) := by
  intro s answers
  obtain ⟨steps, events, loop, waiting, past, shows⟩ :=
    goesOn_takeAll (c := Course.opened opening) (s := s) each rfl sparing
  refine ⟨steps, loop, waiting, fun recording => ?_⟩
  obtain ⟨met, lines⟩ := shows recording
  have uncalled : calls (Course.opened opening).past = [] := Course.calls_of_quiet fun e => Course.isQuiet_of_told
  have opened : (Course.opened opening).past.filterMap Course.Event.notice? = opening.notices := Course.notices_told _
  rw [past, Course.calls_append, uncalled, List.nil_append, List.filterMap_append, opened, tell_append]
  refine ⟨met, ?_⟩
  rw [lines]
  rfl

end Session

end MetricTree
