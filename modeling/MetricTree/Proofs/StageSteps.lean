import MetricTree.Proofs.CloseStages
import MetricTree.Proofs.TreeChange

namespace MetricTree

namespace Course

variable {c d : Course} {s : Stage}

/-- One step leads on from a stage, to where the course then is. -/
structure Advances (c : Course) (s : Stage) (d : Course) (events : List Event) (next : Stage) : Prop where
  past : d.past = c.past ++ events
  leads : s.Leads c.loop.reporter events next
  here : d.At next
  reporter : d.loop.reporter = c.loop.reporter

theorem Advances.quiet {events : List Event} (past : d.past = c.past ++ events)
    (quiet : ∀ e ∈ events, e.isQuiet = true) (here : d.At s) (reporter : d.loop.reporter = c.loop.reporter) :
    c.Advances s d events s := ⟨past, .quiet quiet, here, reporter⟩

theorem isQuiet_of_perform {t u : Tree} {r : Request} {events : List Event}
    (granted : r.perform t = .ok (events, u)) : ∀ e ∈ events, e.isQuiet = true := by
  cases r.perform_change granted with
  | none | scope | counter | gauge => exact fun e member => by cases member
  | added | updated => exact fun e member => by rw [List.mem_singleton.mp member]; rfl

theorem request_advances (here : c.At s) (r : Request) : ∃ events, c.Advances s (c.take (.request r)) events s := by
  cases run : r.perform c.loop.tree with
  | error fault =>
    have still : c.take (.request r) = c := by simp only [take, run]
    rw [still]
    exact ⟨[], .quiet (List.append_nil _).symm (fun e member => by cases member) here rfl⟩
  | ok done =>
    have granted : c.take (.request r) =
        { c with loop := { c.loop with tree := done.2 }, past := c.past ++ done.1 } := by simp only [take, run]
    rw [granted]
    exact ⟨done.1, .quiet rfl (isQuiet_of_perform run) (here.congr rfl rfl rfl (.inl rfl)) rfl⟩

theorem start_advances (here : c.At s) : ∃ events, c.Advances s (c.take .start) events s := by
  refine ⟨c.loop.start.2.map .told, .quiet rfl (fun e => isQuiet_of_told) ?_ ?_⟩
  · rcases c.loop.start_cases with same | ⟨idle, running⟩
    · exact here.congr rfl (by rw [take, same]) (by rw [take, same]) (.inl (by rw [take, same]))
    · refine here.congr rfl (by rw [take, running]) (by rw [take, running]) (.inr ⟨?_, ?_⟩)
      · rw [idle]; rfl
      · rw [take, running]; rfl
  · rcases c.loop.start_cases with same | ⟨_, running⟩
    · rw [take, same]
    · rw [take, running]

section Moves

variable {l : Loop} (before : List Event) (plan : Option Plan)

/-- A pass that pauses leaves the loop at the stage that its pause leads to. -/
theorem move_passes {duty : Duty} {asked : Bool} {m : Move} (passes : l.Passes duty m) (none : c.waiting = [])
    (attached : l.reporter.isSome) (allowed : l.phase.Allows duty asked) :
    ∃ ending next, Stage.Pauses duty asked ending next ∧
      (c.move before plan m).past =
        c.past ++ (before ++ m.notices.map .told ++ (plan.map Plan.events).getD [] ++ ending) ∧
      (c.move before plan m).At next ∧ (c.move before plan m).loop.reporter = l.reporter := by
  cases passes with
  | @waits tree notices a same =>
    exact ⟨_, _, .waits same, rfl, .passing (congrArg _ none) same rfl attached allowed, rfl⟩
  | @breaks tree notices fault =>
    refine ⟨_, _, @Stage.Pauses.breaks _ _ fault, ?_, ?_, rfl⟩
    · simp only [move, Move.ending, allowed.ne_closed, if_false]
    · cases asked with
      | false => exact .ready none rfl allowed.1
      | true => exact .stuck none rfl attached allowed

/-- A loop that is left closes its reporter, if that can be closed, before it answers. -/
theorem move_leave (last : Summary) (answer : Option Summary) (notices : List Notice) {closes : Bool}
    (known : (l.reporter.map Reporter.closes).getD false = closes) :
    c.move before (some (.leave last answer)) (Move.after notices (l.follow (.leave last answer))) =
      ⟨{ l with phase := .closed }, (if closes then [.leaving answer] else []) ++ c.waiting,
        c.past ++ (before ++ (notices ++ [Notice.closed last]).map .told ++
          [if closes then .called (.leaving answer) else .answered (.ok answer)])⟩ := by
  cases closes with
  | false =>
    simp only [move, Move.after, Loop.follow, Loop.leave, known, Bool.false_eq_true, if_false, Plan.events,
      Option.map_some, Option.getD_some, List.append_nil, List.nil_append, Move.ending, pure, Except.pure]
  | true =>
    simp only [move, Move.after, Loop.follow, Loop.leave, known, if_true, Plan.events, Option.map_some,
      Option.getD_some, List.append_nil, List.singleton_append, Move.ending]

/-- It is over then, and waits at most for its reporter to close. -/
theorem move_leave_finished (last : Summary) (answer : Option Summary) (notices : List Notice) {closes : Bool}
    (none : c.waiting = []) (rest : l.busy = false) (known : (l.reporter.map Reporter.closes).getD false = closes) :
    let d := c.move before (some (.leave last answer)) (Move.after notices (l.follow (.leave last answer)))
    d.At .finished ∧ d.loop.reporter = l.reporter ∧
      d.past = c.past ++ (before ++ (notices ++ [Notice.closed last]).map .told ++
        [if closes then .called (.leaving answer) else .answered (.ok answer)]) := by
  intro d
  have gone := c.move_leave before last answer notices known
  refine ⟨.finished ?_ (congrArg (·.loop.busy) gone |>.trans rest) (congrArg (·.loop.phase) gone),
    congrArg (·.loop.reporter) gone, congrArg Course.past gone⟩
  intro a member
  rw [show d.waiting = _ from congrArg Course.waiting gone, none, List.append_nil] at member
  split at member
  · rw [List.mem_singleton.mp member]
    rfl
  · cases member

theorem move_answer (answer : Option Summary) (notices : List Notice) :
    c.move before (some (.answer answer)) (Move.after notices (l.follow (.answer answer))) =
      ⟨l, c.waiting, c.past ++ (before ++ notices.map .told ++ [.answered (.ok answer)])⟩ := by
  simp only [move, Move.after, Loop.follow, Loop.answered, Move.ending, pure, Except.pure, List.append_nil,
    Option.map_some, Plan.events, Option.getD_some]

end Moves

theorem report_advances (here : c.At s) : ∃ events next, c.Advances s (c.take .report) events next := by
  rcases c.loop.planReport_cases with ⟨answer, planned⟩ | ⟨planned, rest, unclosed, attached⟩
  · have nothing : c.take .report = { c with past := c.past ++ [.answered (.ok answer)] } := by
      rw [take, Loop.report, planned]
      exact c.move_answer [] answer []
    rw [nothing]
    refine ⟨_, s, .quiet rfl ?_ (here.congr rfl rfl rfl (.inl rfl)) rfl⟩
    exact fun e member => by rw [List.mem_singleton.mp member]; rfl
  · rw [take, Loop.report, planned]
    cases here with
    | ready none _ _ =>
      have allowed : c.loop.phase.Allows .report false := ⟨unclosed, rfl⟩
      have passes := c.loop.follow_passes .report
      obtain ⟨ending, next, pauses, past, there, same⟩ :=
        move_passes [] (some (.pass .report)) passes none attached allowed
      rw [Loop.follow_pass_notices] at past
      exact ⟨_, next, past, .report pauses, there, same⟩
    | passing _ _ busy => rw [rest] at busy; cases busy
    | stuck _ _ _ closing => rw [closing] at unclosed; cases unclosed
    | finished _ _ closed => rw [closed] at unclosed; cases unclosed

theorem close_advances (here : c.At s) : ∃ events next, c.Advances s (c.take .close) events next := by
  cases ended : c.loop.phase.isOver with
  | true =>
    have nothing : c.take .close = { c with past := c.past ++ [.answered (.ok none)] } := by
      simp only [take, Loop.close, ended, if_true, Loop.planClose, Bool.true_or]
      exact c.move_answer [] none []
    rw [nothing]
    refine ⟨_, s, .quiet rfl ?_ (here.congr rfl rfl rfl (.inl rfl)) rfl⟩
    exact fun e member => by rw [List.mem_singleton.mp member]; rfl
  | false =>
    have closes : ∀ plan, c.loop.planClose = plan →
        c.take .close = c.move [.closing] (some plan) (Loop.follow { c.loop with phase := .closing } plan) := by
      rintro plan rfl
      simp only [take, Loop.close, ended, Bool.false_eq_true, if_false]
    cases here with
    | ready none rest _ =>
      cases reporter : c.loop.reporter with
      | none =>
        rw [closes (.leave .empty .none) (by simp [Loop.planClose, ended, rest, reporter])]
        obtain ⟨there, same, past⟩ := move_leave_finished (l := { c.loop with phase := .closing }) [.closing]
          .empty .none [] none rest (by rw [reporter])
        exact ⟨_, _, past, .closeBare reporter, there, same⟩
      | some r =>
        rw [closes (.pass .close) (by simp [Loop.planClose, ended, rest, reporter])]
        have attached : c.loop.reporter.isSome := by rw [reporter]; rfl
        have passes := Loop.follow_passes { c.loop with phase := .closing } .close
        have closing : Phase.closing.Allows .close true := rfl
        obtain ⟨ending, next, pauses, past, there, same⟩ :=
          c.move_passes [.closing] (some (.pass .close)) passes none attached closing
        rw [Loop.follow_pass_notices] at past
        exact ⟨_, next, past, .close attached pauses, there, same⟩
    | @passing a duty asked one serves busy attached allowed =>
      rw [closes (.answer .none) (by simp [Loop.planClose, busy])]
      have answered := c.move_answer (l := { c.loop with phase := .closing }) [.closing] none []
      cases asked with
      | false =>
        obtain ⟨_, rfl⟩ := allowed
        exact ⟨_, _, congrArg Course.past answered, .ask,
          .passing (congrArg Course.waiting answered ▸ one) serves busy attached rfl, rfl⟩
      | true => rw [Phase.Allows] at allowed; rw [allowed] at ended; cases ended
    | stuck _ _ _ closing => rw [closing] at ended; cases ended
    | finished _ _ closed => rw [closed] at ended; cases ended

/-- A pass that has come to its end is followed by another one only if a close put off is still to be made. -/
theorem ended_advances {l : Loop} {duty : Duty} {asked : Bool} {tally : Summary} {o : Outcome}
    (summary : Summary) (notices : List Notice) (none : c.waiting = []) (reporter : l.reporter = c.loop.reporter)
    (rest : l.busy = false) (attached : l.reporter.isSome) (allowed : l.phase.Allows duty asked)
    (calm : o.aborts = false) :
    ∃ events next, c.Advances (.passing duty asked)
      (c.move [.came (.flushing duty tally) o] (some (l.planAfter summary duty))
        (Move.after notices (l.follow (l.planAfter summary duty)))) events next := by
  have leaves : ∀ last answer, asked = true → duty.isLast = true →
      ∃ events next, c.Advances (.passing duty asked)
        (c.move [.came (.flushing duty tally) o] (some (.leave last answer))
          (Move.after notices (l.follow (.leave last answer)))) events next := by
    rintro last answer rfl late
    obtain ⟨r, known⟩ := Option.isSome_iff_exists.mp attached
    obtain ⟨there, same, past⟩ := c.move_leave_finished (l := l) [.came (.flushing duty tally) o] last answer notices
      none rest (by rw [known])
    exact ⟨_, _, past, .leave late (reporter ▸ known) ⟨answer, rfl⟩, there, same.trans reporter⟩
  have asks : duty.isLast = true → asked = true := by
    intro late
    cases asked with
    | true => rfl
    | false => rw [allowed.2] at late; cases late
  cases duty with
  | close => exact leaves _ _ (asks rfl) rfl
  | farewell first => exact leaves _ _ (asks rfl) rfl
  | report =>
    cases asked with
    | false =>
      have planned : l.planAfter summary .report = .answer (some summary) := by
        rw [Loop.planAfter, if_neg]
        intro closing
        rw [closing] at allowed
        cases allowed.1
      rw [planned, move_answer]
      exact ⟨_, _, rfl, .reported, .ready none rest allowed.1, reporter⟩
    | true =>
      have planned : l.planAfter summary .report = .pass (.farewell summary) := by
        rw [Loop.planAfter, if_pos]
        exact allowed
      rw [planned]
      have closing : l.phase.Allows (.farewell summary) true := allowed
      have passes := (l.follow_passes (.farewell summary)).after notices
      obtain ⟨ending, next, pauses, past, there, same⟩ := c.move_passes [.came (.flushing .report tally) o]
        (some (.pass (.farewell summary))) passes none attached closing
      exact ⟨_, next, past, .farewell calm pauses, there, same.trans reporter⟩

theorem outcome_advances (here : c.At s) (o : Outcome) :
    ∃ events next, c.Advances s (c.take (.outcome o)) events next := by
  cases waiting : c.waiting with
  | nil =>
    have still : c.take (.outcome o) = c := by simp only [take, waiting]
    rw [still]
    exact ⟨[], s, .quiet (List.append_nil _).symm (fun e member => by cases member) here rfl⟩
  | cons a outer =>
    have taken : c.take (.outcome o) =
        { c with waiting := outer }.move [.came a o] (a.plan? c.loop o) (c.loop.resume a o) := by
      simp only [take, waiting]
    rw [taken]
    cases here with
    | ready none | stuck none => rw [none] at waiting; cases waiting
    | finished parting rest closed =>
      obtain ⟨notices, answer, ends, unplanned⟩ :=
        c.loop.resume_of_leaving (o := o) (parting a (waiting ▸ List.mem_cons_self ..))
      rw [ends, unplanned]
      have answered : Move.ending ⟨c.loop, notices, .ends answer⟩ = [.answered answer] := by
        cases answer with
        | error fault => simp only [Move.ending, closed, if_true]
        | ok summary => rfl
      refine ⟨_, .finished, .quiet rfl ?_ (.finished ?_ rest closed) rfl⟩
      · rw [answered]
        intro e member
        simp only [Option.map_none, Option.getD_none, List.append_nil, List.mem_append, List.mem_singleton] at member
        rcases member with (rfl | told) | rfl
        · rfl
        · exact isQuiet_of_told told
        · rfl
      · exact fun b member => parting b (waiting ▸ List.mem_cons_of_mem a member)
    | @passing b duty asked one serves busy attached allowed =>
      rw [waiting] at one
      cases one
      have resumes := c.loop.resume_resumes (o := o) serves
      generalize a.plan? c.loop o = plan, c.loop.resume a o = m at resumes
      cases resumes with
      | inPass passes =>
        obtain ⟨ending, next, pauses, past, there, same⟩ :=
          move_passes (c := { c with waiting := [] }) [.came a o] none passes rfl attached allowed
        simp only [Option.map_none, Option.getD_none, List.append_nil] at past
        exact ⟨_, next, past, .goesOn pauses, there, same⟩
      | @atEnd tally notices flush calm =>
        subst flush
        obtain ⟨events, next, advances⟩ := ended_advances (c := { c with waiting := [] })
          (l := { c.loop with passes := c.loop.passes + 1, busy := false }) (Loop.flushed tally o) notices rfl rfl
          rfl attached allowed calm
        exact ⟨events, next, advances.past, advances.leads, advances.here, advances.reporter⟩

/-- Every step leads on from the stage that a course is at. -/
theorem take_advances (here : c.At s) (step : Step) : ∃ events next, c.Advances s (c.take step) events next := by
  cases step with
  | request r =>
    obtain ⟨events, advances⟩ := request_advances here r
    exact ⟨events, s, advances⟩
  | start =>
    obtain ⟨events, advances⟩ := start_advances here
    exact ⟨events, s, advances⟩
  | report => exact report_advances here
  | close => exact close_advances here
  | outcome o => exact outcome_advances here o

end Course

end MetricTree
