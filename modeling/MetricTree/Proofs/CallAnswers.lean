import MetricTree.Proofs.PassSummaries
import MetricTree.Proofs.ReentrantPasses

namespace MetricTree

/-- What is answered by a loop that was left, once its reporter's close has come out. -/
def Outcome.parting (answer : Option Summary) : Outcome → Except Fault (Option Summary)
  | .returned => .ok answer
  | .failed _ => .error .closeFailed
  | .aborted message => .error (.aborted message)

namespace Course

/-- What a caller is answered, without the fault if there is one. -/
def Event.answer? : Event → Option (Except Unit (Option Summary))
  | .answered (.ok answer) => some (.ok answer)
  | .answered (.error _) => some (.error ())
  | _ => none

/-- The summary that the log is told of when a loop is left. -/
def Event.last? : Event → Option Summary
  | .told (.closed last) => some last
  | _ => none

/-- Are all of these steps taken while a call of the reporter is waited for? -/
def WhileWaiting (c : Course) : List Step → Prop
  | [] => True
  | step :: rest => c.waiting ≠ [] ∧ (c.take step).WhileWaiting rest

/-- How it comes to an answer when a loop is left, after its reporter was closed if it can be. -/
inductive Parts (answer : Option Summary) : Bool → List Event → Prop
  | bare : Parts answer false [.answered (.ok answer)]
  | closes {during : List Event} {o : Outcome} {told : List Notice} (aside : ∀ e ∈ during, e.isAside = true) :
      Parts answer true (.called (.leaving answer) :: during ++
        (.came (.leaving answer) o :: told.map .told ++ [.answered (o.parting answer)]))

/-- The passes after which a loop is left, the last with this summary: that of a close, or that of a report and one more
for the close that was put off until then. -/
inductive Ended (last : Summary) : Duty → Option Summary → List Event → Prop
  | close {number : Nat} {pass : List Event} (whole : Whole .close last number pass) : Ended last .close none pass
  | putOff {summary : Summary} {first second : Nat} {sooner pass : List Event}
      (report : Whole .report summary first sooner)
      (farewell : Whole (.farewell summary) last second pass) : Ended last .report (some summary) (sooner ++ pass)

/-- What a report or a close comes to that makes a pass. A report is answered with the summary of its pass, also when a
close that was put off follows it; the log is told the summary of the last pass before the loop is left. -/
inductive Comes (closes : Bool) : Duty → List Event → Prop
  | reported {summary : Summary} {number : Nat} {pass : List Event} (whole : Whole .report summary number pass)
      (unasked : .closing ∉ pass) : Comes closes .report (pass ++ [.answered (.ok (some summary))])
  | left {duty : Duty} {last : Summary} {answer : Option Summary} {passes tail : List Event}
      (ended : Ended last duty answer passes) (parts : Parts answer closes tail) :
      Comes closes duty (passes ++ .told (.closed last) :: tail)
  | cut {duty : Duty} {events : List Event} {fault : Fault} :
      Comes closes duty (events ++ [.cut fault, .answered (.error fault)])

/-- How far a report or a close has come that made a pass, when this is waited for. -/
inductive Underway (closes : Bool) : Duty → List Event → Activity → Prop
  | first {duty : Duty} {since : List Event} {a : Activity} (outer : ∀ summary, duty ≠ .farewell summary)
      (going : Going duty since a) : Underway closes duty (.began duty :: since) a
  | second {summary : Summary} {number : Nat} {sooner since : List Event} {a : Activity}
      (whole : Whole .report summary number sooner) (going : Going (.farewell summary) since a) :
      Underway closes .report (sooner ++ .began (.farewell summary) :: since) a
  | parting {duty : Duty} {last : Summary} {answer : Option Summary} {passes during : List Event}
      (ended : Ended last duty answer passes) (able : closes = true) (aside : ∀ e ∈ during, e.isAside = true) :
      Underway closes duty (passes ++ .told (.closed last) :: .called (.leaving answer) :: during) (.leaving answer)

/-- A report or a close that made a pass is under way, or has come to an answer. -/
inductive Stands (closes : Bool) (duty : Duty) (events : List Event) : List Activity → Prop
  | underway {a : Activity} (underway : Underway closes duty events a) : Stands closes duty events [a]
  | done (comes : Comes closes duty events) : Stands closes duty events []

variable {c : Course} {closes : Bool} {duty : Duty} {events past : List Event} {a : Activity} {r : Reporter}
  {last : Summary} {answer : Option Summary}

theorem Underway.aside {others : List Event} (underway : Underway closes duty events a)
    (aside : ∀ e ∈ others, e.isAside = true) : Underway closes duty (events ++ others) a := by
  cases underway with
  | first outer going => exact .first outer (going.aside aside)
  | second whole going =>
    rw [List.append_assoc]
    exact .second whole (going.aside aside)
  | parting ended able before =>
    rw [List.append_assoc]
    exact .parting ended able (List.forall_mem_append.mpr ⟨before, aside⟩)

/-- After its last pass, a loop is left. -/
theorem Ended.stands {l : Loop} {before passes : List Event} (ended : Ended last duty answer passes)
    (none : c.waiting = []) (attached : l.reporter = some r) (same : c.past ++ before = past ++ passes) :
    ∃ events, (c.move before (some (.leave last answer)) (l.follow (.leave last answer))).past = past ++ events ∧
      Stands r.closes duty events
        (c.move before (some (.leave last answer)) (l.follow (.leave last answer))).waiting := by
  have known : (l.reporter.map Reporter.closes).getD false = r.closes := by rw [attached]; rfl
  have gone := c.move_leave before last answer [] known
  refine ⟨passes ++ .told (.closed last) :: [if r.closes then .called (.leaving answer) else .answered (.ok answer)],
    ?_, ?_⟩
  · rw [← List.append_assoc, ← same, List.append_assoc]
    exact (congrArg Course.past gone).trans (by simp only [List.append_assoc]; rfl)
  · have waiting := congrArg Course.waiting gone
    rw [none, List.append_nil] at waiting
    cases closes : r.closes with
    | true =>
      rw [closes] at waiting
      refine waiting ▸ .underway ?_
      exact .parting ended rfl (List.forall_mem_nil _)
    | false =>
      rw [closes] at waiting
      refine waiting ▸ .done ?_
      exact .left ended .bare

/-- When a pass that was begun for a report is done, it is answered, unless a close has been put off until then. -/
theorem Whole.stands {l : Loop} {summary : Summary} {number : Nat} {before pass : List Event}
    (whole : Whole .report summary number pass) (none : c.waiting = []) (unclosed : l.phase ≠ .closed)
    (same : c.past ++ before = past ++ pass) (unasked : l.phase.isOver = false → .closing ∉ pass) :
    ∃ events, (c.move before (some (l.planAfter summary .report)) (l.follow (l.planAfter summary .report))).past =
        past ++ events ∧ Stands closes .report events
      (c.move before (some (l.planAfter summary .report)) (l.follow (l.planAfter summary .report))).waiting := by
  by_cases closing : l.phase = .closing
  · have planned : l.planAfter summary .report = .pass (.farewell summary) := if_pos closing
    rw [planned]
    rcases begun_leads c before (.farewell summary) none unclosed with ⟨a, waits, grown, going⟩ | ⟨fault, rests, grown⟩
    · refine ⟨pass ++ [.began (.farewell summary), .called a], ?_, waits ▸ .underway (.second whole going)⟩
      rw [grown, ← List.append_assoc, same, List.append_assoc]
    · refine ⟨pass ++ [.began (.farewell summary)] ++ [.cut fault, .answered (.error fault)], ?_, rests ▸ .done .cut⟩
      rw [grown, ← List.append_assoc, same, List.append_assoc, List.append_assoc]
      rfl
  · have still : l.phase.isOver = false := by
      cases phase : l.phase with
      | closing | closed => contradiction
      | idle | running => rfl
    rw [Loop.planAfter_report still]
    have answered := c.move_answer (l := l) before (some summary) []
    refine ⟨pass ++ [.answered (.ok (some summary))], ?_, ?_⟩
    · rw [← List.append_assoc, ← same]
      exact (congrArg Course.past answered).trans (by simp only [List.append_assoc]; rfl)
    · have waiting := (congrArg Course.waiting answered).trans none
      exact waiting.symm ▸ .done (.reported whole (unasked still))

/-- The call of a pass comes out in a report or a close. What follows the end of the pass is given. -/
theorem Going.stands {inner : Duty} {sooner since : List Event} (going : Going inner since a) (waits : c.waiting = [a])
    (unclosed : c.loop.phase ≠ .closed) (grown : c.past = past ++ (sooner ++ .began inner :: since)) (o : Outcome)
    (underway : ∀ since b, Going inner since b → Underway closes duty (sooner ++ .began inner :: since) b)
    (ended : ∀ (l : Loop) summary number before pass, l.phase = c.loop.phase → l.reporter = c.loop.reporter →
      Whole inner summary number pass → .closing ∉ before → c.past ++ before = past ++ (sooner ++ pass) →
      ∃ events, ({ c with waiting := [] }.move before (some (l.planAfter summary inner))
          (l.follow (l.planAfter summary inner))).past = past ++ events ∧
        Stands closes duty events ({ c with waiting := [] }.move before (some (l.planAfter summary inner))
          (l.follow (l.planAfter summary inner))).waiting) :
    ∃ events, (c.take (.outcome o)).past = past ++ events ∧
      Stands closes duty events (c.take (.outcome o)).waiting := by
  rcases going.came waits unclosed o with ⟨events, b, later, waiting, going, _⟩ | ⟨events, fault, later, rests, _⟩ |
    ⟨tally, told, rfl, _, whole, taken⟩
  · refine ⟨sooner ++ .began inner :: (since ++ events), ?_, waiting ▸ .underway (underway _ b going)⟩
    rw [later, grown]
    simp only [List.append_assoc, List.cons_append]
  · refine ⟨sooner ++ .began inner :: since ++ events ++ [.cut fault, .answered (.error fault)], ?_, rests ▸ .done .cut⟩
    rw [later, grown]
    simp only [List.append_assoc]
  · rw [taken]
    refine ended { c.loop with passes := c.loop.passes + 1, busy := false } _ _ _ _ rfl rfl whole ?_ ?_
    · simp
    · rw [grown]
      simp only [List.append_assoc, List.cons_append]

theorem Underway.outcome {s : Stage} {reporter : Option Reporter} (underway : Underway r.closes duty events a)
    (waits : c.waiting = [a]) (grown : c.past = past ++ events) (placed : c.Placed reporter s)
    (attached : c.loop.reporter = some r) (o : Outcome) :
    ∃ events, (c.take (.outcome o)).past = past ++ events ∧
      Stands r.closes duty events (c.take (.outcome o)).waiting := by
  cases underway with
  | @first _ since _ outer going =>
    have unclosed := placed.here.unclosed_of_serves waits going.serves
    refine going.stands waits unclosed (show _ = past ++ ([] ++ _) from grown) o (fun _ _ => .first outer) ?_
    intro l summary number before pass phase reporter whole quiet same
    cases duty with
    | farewell summary => exact absurd rfl (outer summary)
    | close => exact (Ended.close whole).stands rfl (reporter.trans attached) same
    | report =>
      refine whole.stands rfl (phase ▸ unclosed) same fun still member => ?_
      have inside : .closing ∈ c.past ++ before := same ▸ List.mem_append_right _ member
      exact (List.mem_append.mp inside).elim (placed.not_closing_mem (phase ▸ still)) quiet
  | second report going =>
    have unclosed := placed.here.unclosed_of_serves waits going.serves
    refine going.stands waits unclosed grown o (fun _ _ => .second report) ?_
    intro l summary number before pass _ reporter whole _ same
    exact (Ended.putOff report whole).stands rfl (reporter.trans attached) same
  | @parting _ last answer passes during ended able aside =>
    have closed : c.loop.phase = .closed := by
      rcases placed.here.front waits with ⟨under, _⟩ | ⟨_, closed⟩
      · cases under
      · exact closed
    have taken : c.take (.outcome o) = { c with waiting := [] }.move [.came (.leaving answer) o] none
        (c.loop.resume (.leaving answer) o) := by
      simp only [take, waits]
      rfl
    have ends : (c.take (.outcome o)).waiting = [] ∧ ∃ told : List Notice, (c.take (.outcome o)).past = c.past ++
        (.came (.leaving answer) o :: told.map .told ++ [.answered (o.parting answer)]) := by
      rw [taken, past_move]
      cases o with
      | returned => exact ⟨rfl, [], rfl⟩
      | failed failure =>
        refine ⟨rfl, [.closeFailed failure], ?_⟩
        simp only [own, Loop.resume, throw, throwThe, MonadExceptOf.throw, Move.ending, closed, if_true]
        rfl
      | aborted message =>
        refine ⟨rfl, [], ?_⟩
        simp only [own, Loop.resume, Loop.answered, throw, throwThe, MonadExceptOf.throw, Move.ending, closed, if_true]
        rfl
    obtain ⟨rests, told, later⟩ := ends
    have parts : Parts answer r.closes (.called (.leaving answer) :: during ++
        (.came (.leaving answer) o :: told.map .told ++ [.answered (o.parting answer)])) := able ▸ .closes aside
    refine ⟨passes ++ .told (.closed last) :: (.called (.leaving answer) :: during ++
      (.came (.leaving answer) o :: told.map .told ++ [.answered (o.parting answer)])), ?_, ?_⟩
    · rw [later, grown]
      simp only [List.append_assoc, List.cons_append]
    · rw [rests]
      exact .done (.left ended parts)

theorem Underway.take {s : Stage} {reporter : Option Reporter} (underway : Underway r.closes duty events a)
    (waits : c.waiting = [a]) (grown : c.past = past ++ events) (placed : c.Placed reporter s)
    (attached : c.loop.reporter = some r) (step : Step) :
    ∃ events, (c.take step).past = past ++ events ∧ Stands r.closes duty events (c.take step).waiting := by
  by_cases outside : step.isErrand = true
  · obtain ⟨others, aside⟩ := errand_aside (placed.here.engaged (waiting_ne_nil waits)) outside
    refine ⟨events ++ others, by rw [aside.past, grown, List.append_assoc], ?_⟩
    rw [aside.waiting, waits]
    exact .underway (underway.aside aside.aside)
  · cases step with
    | outcome o => exact underway.outcome waits grown placed attached o
    | request | start | report | close => exact absurd rfl outside

/-- A call that made a pass has come to an answer when the reporter is waited for no more. -/
theorem Stands.run {inner : List Step} (stands : Stands r.closes duty events c.waiting)
    (grown : c.past = past ++ events)
    (placed : ∃ s, c.Placed (some r) s) (waiting : c.WhileWaiting inner) (rests : (c.run inner).waiting = []) :
    ∃ events, (c.run inner).past = past ++ events ∧ Comes r.closes duty events := by
  induction inner generalizing c events with
  | nil =>
    have rests : c.waiting = [] := rests
    rw [rests] at stands
    cases stands with
    | done comes => exact ⟨events, grown, comes⟩
  | cons step rest ih =>
    obtain ⟨some, later⟩ := waiting
    obtain ⟨s, placed⟩ := placed
    generalize waits : c.waiting = waiting at stands some
    cases stands with
    | done => exact absurd rfl some
    | underway underway =>
      obtain ⟨events, grown, stands⟩ := underway.take waits grown placed placed.reporter step
      exact ih stands grown (placed.take step) later rests

theorem begun_stands {l : Loop} (c : Course) (closes : Bool) (before : List Event) (none : c.waiting = [])
    (unclosed : l.phase ≠ .closed)
    (duty : Duty) (outer : ∀ summary, duty ≠ .farewell summary) :
    ∃ events, (c.move before (some (.pass duty)) (l.follow (.pass duty))).past = c.past ++ before ++ events ∧
      Stands closes duty events (c.move before (some (.pass duty)) (l.follow (.pass duty))).waiting := by
  rcases begun_leads c before duty none unclosed with ⟨a, waits, grown, going⟩ | ⟨fault, rests, grown⟩
  · refine ⟨[.began duty, .called a], by rw [grown, List.append_assoc], ?_⟩
    rw [waits]
    exact .underway (.first outer going)
  · refine ⟨[.began duty] ++ [.cut fault, .answered (.error fault)], ?_, rests ▸ .done .cut⟩
    rw [grown, List.append_assoc]
    rfl

theorem At.rest_of_none {s : Stage} (here : c.At s) (none : c.waiting = []) : c.loop.busy = false := by
  cases here with
  | ready _ rest => exact rest
  | passing one => cases none.symm.trans one
  | stuck _ rest => exact rest
  | finished _ rest => exact rest

theorem take_report_of_rest (rest : c.loop.busy = false) (unclosed : c.loop.phase.isOver = false)
    (attached : c.loop.reporter.isSome) :
    c.take .report = c.move [] (some (.pass .report)) (c.loop.follow (.pass .report)) := by
  have planned : c.loop.planReport = .pass .report := by
    simp [Loop.planReport, rest, unclosed, Option.isNone_eq_false_iff.mpr attached]
  rw [take, Loop.report, planned]

theorem take_close_of_rest (rest : c.loop.busy = false) (unclosed : c.loop.phase.isOver = false)
    (attached : c.loop.reporter.isSome) :
    c.take .close = c.move [.closing] (some (.pass .close))
      (Loop.follow { c.loop with phase := .closing } (.pass .close)) := by
  have planned : c.loop.planClose = .pass .close := by
    simp [Loop.planClose, rest, unclosed, Option.isNone_eq_false_iff.mpr attached]
  simp only [take, Loop.close, planned, unclosed, Bool.false_eq_true, if_false]

/-- A report of a tree at rest makes a pass, and comes to an answer when the reporter is waited for no more. -/
theorem report_comes {inner : List Step} (placed : ∃ s, c.Placed (some r) s) (none : c.waiting = [])
    (unclosed : c.loop.phase.isOver = false) (waiting : (c.take .report).WhileWaiting inner)
    (rests : ((c.take .report).run inner).waiting = []) :
    ∃ events, ((c.take .report).run inner).past = c.past ++ events ∧ Comes r.closes .report events := by
  obtain ⟨s, here⟩ := placed
  have attached : c.loop.reporter.isSome := Option.isSome_iff_exists.mpr ⟨r, here.reporter⟩
  have goes : c.loop.phase ≠ .closed := fun closed => by rw [closed] at unclosed; cases unclosed
  obtain ⟨events, grown, stands⟩ := begun_stands c r.closes [] none goes .report nofun
  rw [← take_report_of_rest (here.here.rest_of_none none) unclosed attached] at grown stands
  rw [List.append_nil] at grown
  exact stands.run grown (here.take .report) waiting rests

/-- A close of a tree at rest makes a pass, and comes to an answer when the reporter is waited for no more. -/
theorem close_comes {inner : List Step} (placed : ∃ s, c.Placed (some r) s) (none : c.waiting = [])
    (unclosed : c.loop.phase.isOver = false) (waiting : (c.take .close).WhileWaiting inner)
    (rests : ((c.take .close).run inner).waiting = []) :
    ∃ events, ((c.take .close).run inner).past = c.past ++ .closing :: events ∧ Comes r.closes .close events := by
  obtain ⟨s, here⟩ := placed
  have attached : c.loop.reporter.isSome := Option.isSome_iff_exists.mpr ⟨r, here.reporter⟩
  obtain ⟨events, grown, stands⟩ := begun_stands (l := { c.loop with phase := .closing }) c r.closes
    [.closing] none nofun .close nofun
  rw [← take_close_of_rest (here.here.rest_of_none none) unclosed attached] at grown stands
  obtain ⟨later, past, comes⟩ := stands.run grown (here.take .close) waiting rests
  exact ⟨later, by rw [past, List.append_assoc]; rfl, comes⟩

/-- With integers, and reporters that interrupt nothing, no pass is cut short. -/
theorem uncut_run {o : Options} {interval : Interval} {opening : Opening} {steps : List Step}
    (opened : Opening.ofOptions o interval = .ok opening) (integral : ∀ step ∈ steps, step.isIntegral)
    (calm : ∀ message, .outcome (.aborted message) ∉ steps) (fault : Fault) :
    .cut fault ∉ ((Course.opened opening).run steps).past := by
  induction steps using List.reverseRecOn with
  | nil => exact fun cut => by cases isQuiet_of_told cut
  | append_singleton sooner step ih =>
    obtain ⟨integers, integer⟩ := List.forall_mem_append.mp integral
    obtain ⟨events, past, _⟩ := ((Course.opened opening).run sooner).take_effect step
    rw [run_append]
    intro cut
    rcases List.mem_append.mp (past ▸ cut) with before | now
    · exact ih integers (fun message member => calm message (List.mem_append_left _ member)) before
    · obtain ⟨message, rfl⟩ := aborted_of_cut opened integers rfl (integer step (List.mem_singleton.mpr rfl)) past now
      exact calm message (List.mem_append_right _ (List.mem_singleton.mpr rfl))

/-- Summaries count what happened. There are as many passes as flushes that came out without an interruption, and each
is told of by its number, with a summary that counts how its calls came out. A report that makes a pass is answered
with the summary of that pass, also when a close that was put off follows, unless the close fails; and what the log is
told of a close is the summary of the last pass. Only passes that are cut short lead to anything else. -/
theorem summaries_count {o : Options} {interval : Interval} {opening : Opening} {steps : List Step}
    (opened : Opening.ofOptions o interval = .ok opening) :
    let c := (Course.opened opening).run steps
    c.loop.passes = c.past.countP Event.isFlushed ∧ numbers c.past = List.range' 1 c.loop.passes ∧ Summarized c.past ∧
    (∀ r, o.reporter = some r → c.waiting = [] → c.loop.phase.isOver = false → ∀ inner,
      ((c.take .report).WhileWaiting inner → ((c.take .report).run inner).waiting = [] →
        ∃ events, ((c.take .report).run inner).past = c.past ++ events ∧ Comes r.closes .report events) ∧
      ((c.take .close).WhileWaiting inner → ((c.take .close).run inner).waiting = [] →
        ∃ events, ((c.take .close).run inner).past = c.past ++ .closing :: events ∧ Comes r.closes .close events)) ∧
    ((∀ step ∈ steps, step.isIntegral) → (∀ message, .outcome (.aborted message) ∉ steps) →
      ∀ fault, .cut fault ∉ c.past) ∧
    ∀ (config : Log.Config) (origin : Log.Origin) (time : String) (counters gauges errors : ShortInt),
      config.attached = true → config.isEnabled Notice.loopLogger Log.info = true → origin.Timed time →
        config.tell origin [.closed ⟨counters.value, gauges.value, errors.value⟩] =
          [.object [("timestamp", .text time), ("level", .text "INFO"), ("logger", .text Notice.loopLogger),
            ("event", .text "statscope.report_loop.closed"), ("thread", .text origin.thread),
            ("counters", .int counters), ("gauges", .int gauges), ("errors", .int errors)]] := by
  intro c
  obtain ⟨passes, numbers⟩ := numbered_run opened steps
  refine ⟨passes, numbers, (tallied_run opened steps).summarized, fun r attached none unclosed inner => ?_,
    uncut_run opened, fun config origin time counters gauges errors attached enabled timed => ?_⟩
  · have placed : ∃ s, c.Placed (some r) s := attached ▸ placed_run opened steps
    exact ⟨report_comes placed none unclosed, close_comes placed none unclosed⟩
  · have brief : (Notice.closed ⟨counters.value, gauges.value, errors.value⟩).isBrief = true :=
      List.all_eq_true.mpr (by simp [Notice.extras, Notice.countExtras, Value.isBrief_int])
    rw [Log.tell_singleton attached timed, brief, Bool.and_true, ← Value.told_int, ← Value.told_int, ← Value.told_int]
    exact if_pos enabled

/-- A close in the middle of a report whose flush fails: the report is answered with its own summary, and the log is
told that of the pass after it. -/
theorem summaries_count_put_off :
    ∃ opening, Opening.ofOptions { Options.standard with reporter := some ⟨"Recorder", true, true⟩ }
        (.value .null) = .ok opening ∧
      let c := (Course.opened opening).run [.request (.counter "" (.text "a")), .request (.inc ⟨"", "a"⟩ (.int 3))]
      let d := (c.take .report).run [.close, .outcome .returned, .outcome (.failed ⟨"OSError", "gone"⟩),
        .outcome .returned, .outcome .returned]
      (∃ events, d.past = c.past ++ events ∧ Comes true .report events) ∧
        passesTold d.past = [(⟨1, 0, 1⟩, 1), (⟨0, 0, 0⟩, 2)] ∧
        d.past.getLast?.bind Event.answer? = some (.ok (some ⟨1, 0, 1⟩)) ∧
        d.past.filterMap Event.last? = [⟨0, 0, 0⟩] := by
  have opened : Opening.ofOptions { Options.standard with reporter := some ⟨"Recorder", true, true⟩ }
    (.value .null) = .ok _ := rfl
  refine ⟨_, opened, ?_⟩
  intro c d
  have idle : ∀ {c : Course}, c.waiting.isEmpty = true → c.waiting = [] := List.isEmpty_iff.mp
  have busy : ∀ {c : Course}, c.waiting.isEmpty = false → c.waiting ≠ [] := List.isEmpty_eq_false_iff.mp
  obtain ⟨_, _, _, answers, _⟩ := @summaries_count _ _ _
    [.request (.counter "" (.text "a")), .request (.inc ⟨"", "a"⟩ (.int 3))] opened
  obtain ⟨report, _⟩ := answers _ rfl (idle (by decide +kernel)) (by decide +kernel)
    [.close, .outcome .returned, .outcome (.failed ⟨"OSError", "gone"⟩), .outcome .returned, .outcome .returned]
  exact ⟨report ⟨busy (by decide +kernel), busy (by decide +kernel), busy (by decide +kernel),
    busy (by decide +kernel), busy (by decide +kernel), trivial⟩ (idle (by decide +kernel)), by decide +kernel,
    by decide +kernel, by decide +kernel⟩

/-- An amount that is no integer cuts the pass short that makes up for a close during a report. The report's own pass
came to its end, but the report is not answered with its summary. -/
theorem summaries_count_overflow :
    ∃ opening, Opening.ofOptions { Options.standard with reporter := some ⟨"Recorder", true, true⟩ }
        (.value .null) = .ok opening ∧
      let half := Binary64.signed false (.ofRank (1022 * Nat.pow 2 52))
      let c := (Course.opened opening).run [.request (.counter "" (.text "a")),
        .request (.inc ⟨"", "a"⟩ (.int (Nat.pow 10 200 * Nat.pow 10 200)))]
      let inner : List Step := [.outcome .returned, .close,
        .request (.inc ⟨"", "a"⟩ (.int (-(Nat.pow 10 200 * Nat.pow 10 200)))), .request (.inc ⟨"", "a"⟩ (.float half)),
        .outcome .returned]
      let d := (c.take .report).run inner
      (∀ message, .outcome (.aborted message) ∉ inner) ∧ d.waiting = [] ∧ passesTold d.past = [(⟨1, 0, 0⟩, 1)] ∧
        d.past.getLast?.bind Event.answer? = some (.error ()) := by
  have opened : Opening.ofOptions { Options.standard with reporter := some ⟨"Recorder", true, true⟩ }
    (.value .null) = .ok _ := rfl
  refine ⟨_, opened, ?_⟩
  intro half c inner d
  have none : d.waiting = [] := List.isEmpty_iff.mp (by decide +kernel)
  exact ⟨by simp [inner], none, by decide +kernel, by decide +kernel⟩

end Course

end MetricTree
