import MetricTree.Proofs.NameOrder
import MetricTree.Proofs.PassTrace

namespace MetricTree

namespace Tree

/-- Nothing is left to report of the metrics, which are the same as before, as are their totals and values. -/
structure Drains (u t : Tree) : Prop where
  deltas : ∀ h c, u.counter? h = some c → c.delta = .ok (.int 0)
  clean : ∀ h g, u.gauge? h = some g → g.dirty = false
  counters : ∀ h, u.counter? h = (t.counter? h).map Counter.settled
  gauges : ∀ h, u.gauge? h = (t.gauge? h).map Gauge.settled

variable {t : Tree}

theorem settled_drains (integral : t.Integral) : t.settled.Drains t := by
  refine ⟨fun h c found => ?_, fun h g found => ?_, fun _ => counter?_settled, fun _ => gauge?_settled⟩
  · rw [counter?_settled] at found
    obtain ⟨old, known, rfl⟩ := Option.map_eq_some_iff.mp found
    obtain ⟨m, n, rfl⟩ := integral h old known
    exact congrArg (fun d => Except.ok (Number.int d)) (Int.sub_self m)
  · rw [gauge?_settled] at found
    obtain ⟨old, _, rfl⟩ := Option.map_eq_some_iff.mp found
    rfl

end Tree

namespace Course

variable {c : Course}

/-- A pass can begin, over a tree of integers. -/
structure Poised (c : Course) : Prop where
  none : c.waiting = []
  rest : c.loop.busy = false
  unclosed : c.loop.phase.isOver = false
  attached : c.loop.reporter.isSome
  integral : c.loop.tree.Integral
  distinct : c.loop.tree.Distinct

theorem Poised.planReport (poised : c.Poised) : c.loop.planReport = .pass .report := by
  simp [Loop.planReport, poised.rest, poised.unclosed, Option.isNone_eq_false_iff.mpr poised.attached]

theorem served_report (temper : Temper) (poised : c.Poised) :
    ∃ d, Served temper c [.report] d ∧ d.loop.tree = c.loop.tree.settled ∧
      calls d.past = calls c.past ++ passCalls c.loop.tree := by
  have planned := poised.planReport
  obtain ⟨none, rest, unclosed, attached, integral, distinct⟩ := poised
  obtain ⟨e, tally, answers, waits, loop, called⟩ := answers_begun .report temper c [] none rfl integral distinct
  obtain ⟨came, summary, notices, uncome, next⟩ := answer_flushing temper waits
  rw [Loop.planAfter_report (by rw [loop]; exact unclosed)] at next
  have ended := move_answer (c := { e with waiting := [] })
    (l := { e.loop with passes := e.loop.passes + 1, busy := false }) [came] (some summary) notices
  refine ⟨e.answer temper, .errand none rfl ?_, ?_, ?_⟩
  · rw [take, Loop.report, planned]
    refine answers.served (.call (waiting_ne_nil waits) (.done ?_))
    rw [next, ended]
  · rw [next, ended, loop]
  · rw [next, calls_move uncome, called]
    exact List.append_nil _

/-- The reporter of a loop that is left is called at most to close, and the tree stays as it is. -/
theorem served_leave {l : Loop} {closes : Bool} {before : List Event} (temper : Temper) (last : Summary)
    (answer : Option Summary) (notices : List Notice) (none : c.waiting = [])
    (known : (l.reporter.map Reporter.closes).getD false = closes) (uncalled : calls before = []) :
    ∃ d, Served temper (c.move before (some (.leave last answer))
        (Move.after notices (l.follow (.leave last answer)))) [] d ∧ d.loop.tree = l.tree ∧
      calls d.past = calls c.past ++ if closes then [.close] else [] := by
  have called : calls (c.move before (some (.leave last answer))
      (Move.after notices (l.follow (.leave last answer)))).past =
      calls c.past ++ nextCalls (Move.after notices (l.follow (.leave last answer))).next := calls_move uncalled
  have left := c.move_leave before last answer notices known
  generalize c.move before (some (.leave last answer)) (Move.after notices (l.follow (.leave last answer))) = e
    at called left ⊢
  have next : nextCalls (Move.after notices (l.follow (.leave last answer))).next =
      if closes then [.close] else [] := by
    simp only [Move.after, Loop.follow, Loop.leave, known]
    cases closes <;> rfl
  rw [next] at called
  cases closes with
  | false =>
    refine ⟨e, .done ?_, congrArg (·.loop.tree) left, called⟩
    rw [left, none]
    rfl
  | true =>
    have waits : e.waiting = [.leaving answer] := by
      rw [left, none]
      rfl
    obtain ⟨told, final, resumes, unplanned⟩ :=
      e.loop.resume_of_leaving (a := .leaving answer) (o := temper.outcome e.past) rfl
    have closed := answer_eq temper waits
    rw [resumes, unplanned] at closed
    refine ⟨e.answer temper, .call (waiting_ne_nil waits) (.done ?_), ?_, ?_⟩
    · rw [closed]
      rfl
    · rw [closed]
      exact congrArg (·.loop.tree) left
    · rw [closed, calls_move rfl, called]
      exact List.append_nil _

theorem served_close {closes : Bool} (temper : Temper) (poised : c.Poised)
    (known : (c.loop.reporter.map Reporter.closes).getD false = closes) :
    ∃ d, Served temper c [.close] d ∧ d.loop.tree = c.loop.tree.settled ∧
      calls d.past = calls c.past ++ passCalls c.loop.tree ++ if closes then [.close] else [] := by
  obtain ⟨none, rest, unclosed, attached, integral, distinct⟩ := poised
  have planned : c.loop.planClose = .pass .close := by
    simp [Loop.planClose, rest, unclosed, Option.isNone_eq_false_iff.mpr attached]
  obtain ⟨e, tally, answers, waits, loop, called⟩ :=
    answers_begun (l := { c.loop with phase := .closing }) .close temper c [.closing] none rfl integral distinct
  obtain ⟨came, summary, notices, uncome, next⟩ := answer_flushing temper waits
  have reporter : (e.loop.reporter.map Reporter.closes).getD false = closes := by
    rw [loop]
    exact known
  obtain ⟨d, served, tree, gone⟩ := served_leave (c := { e with waiting := [] })
    (l := { e.loop with passes := e.loop.passes + 1, busy := false }) temper summary Option.none notices rfl reporter
    uncome
  refine ⟨d, .errand none rfl ?_, ?_, ?_⟩
  · simp only [take, Loop.close, unclosed, Bool.false_eq_true, if_false, planned]
    refine answers.served (.call (waiting_ne_nil waits) ?_)
    rw [next]
    exact served
  · rw [tree, loop]
  · rw [gone, called]

/-- Until a close, a pass can begin whenever nothing waits for the reporter. -/
theorem poised_run {o : Options} {interval : Interval} {opening : Opening} {steps : List Step}
    (opened : Opening.ofOptions o interval = .ok opening) (integral : ∀ step ∈ steps, step.isIntegral)
    (attached : o.reporter.isSome) (none : ((Course.opened opening).run steps).waiting = [])
    (unclosed : ((Course.opened opening).run steps).loop.phase.isOver = false) :
    ((Course.opened opening).run steps).Poised := by
  obtain ⟨s, here, _, reporter⟩ := placed_run opened steps
  have rest : ((Course.opened opening).run steps).loop.busy = false := by
    cases here with
    | ready _ rest | stuck _ rest | finished _ rest => exact rest
    | passing one => cases one.symm.trans none
  exact ⟨none, rest, unclosed, reporter ▸ attached, (faultless_run opened integral).sound.integral,
    distinct_run opened steps⟩

/-- A pass reports all that is pending in a tree, in the order in which scopes and metrics were made, and then
flushes once. Whichever of these calls fail, it leaves nothing to report, and for reporters that do not call back
all goes on in the same way. -/
theorem exact_pass_trace {o : Options} {interval : Interval} {opening : Opening} {steps : List Step}
    (opened : Opening.ofOptions o interval = .ok opening) (integral : ∀ step ∈ steps, step.isIntegral)
    (attached : o.reporter.isSome) :
    let c := (Course.opened opening).run steps
    (∀ sooner later, steps = sooner ++ later →
      c.loop.tree.Follows ((Course.opened opening).run sooner).loop.tree) ∧
    (c.waiting = [] → c.loop.phase.isOver = false → ∀ temper d,
      (Served temper c [.report] d →
        calls d.past = calls c.past ++ passCalls c.loop.tree ∧ d.loop.tree.Drains c.loop.tree) ∧
      (Served temper c [.close] d →
        calls d.past = calls c.past ++ passCalls c.loop.tree ++
          (if (o.reporter.map Reporter.closes).getD false then [.close] else []) ∧
        d.loop.tree.Drains c.loop.tree)) ∧
    (∀ temper errands, (∀ step ∈ errands, step.isErrand = true) → ∃ d, Served temper c errands d) ∧
    (∀ temper other errands d e, Served temper c errands d → Served other c errands e →
      calls d.past = calls e.past ∧ d.loop = e.loop) := by
  intro c
  obtain ⟨_, _, _, reporter⟩ := placed_run opened steps
  refine ⟨?_, fun none unclosed temper d => ?_, fun temper _ outside => exists_served temper c outside,
    fun temper other errands d e first second => ?_⟩
  · rintro sooner later rfl
    rw [show c = _ from run_append _ sooner later]
    exact follows_run _ later
  · have poised := poised_run opened integral attached none unclosed
    have drains := Tree.settled_drains poised.integral
    refine ⟨fun served => ?_, fun served => ?_⟩
    · obtain ⟨e, reported, tree, called⟩ := served_report temper poised
      have same := reported.alike (.refl c) served
      exact ⟨same.calls ▸ called, same.loop ▸ tree ▸ drains⟩
    · obtain ⟨e, closed, tree, called⟩ := served_close temper poised rfl
      have same := closed.alike (.refl c) served
      rw [reporter] at called
      exact ⟨same.calls ▸ called, same.loop ▸ tree ▸ drains⟩
  · have same := first.alike (.refl c) second
    exact ⟨same.calls, same.loop⟩

/-- Of two counters and a gauge, one counter has nothing to report; the reporter fails whatever it is called for. -/
theorem exact_pass_trace_failing :
    ∃ opening, Opening.ofOptions { Options.standard with reporter := some ⟨"Recorder", true, true⟩ }
        (.value .null) = .ok opening ∧
      let steps : List Step := [.request (.counter "" (.text "a")), .request (.counter "" (.text "b")),
        .request (.gauge "" (.text "g")), .request (.inc ⟨"", "b"⟩ (.int 3)),
        .request (.update ⟨"", "g"⟩ (.float .zero))]
      let c := (Course.opened opening).run steps
      ∃ d, Served (fun _ => some ⟨"OSError", "gone"⟩) c [.close] d ∧ d.loop.tree.Drains c.loop.tree ∧
        calls d.past =
          [.observe (.counter "b" .empty (.int 3)), .observe (.gauge "g" .empty .zero), .flush, .close] := by
  have opened : Opening.ofOptions { Options.standard with reporter := some ⟨"Recorder", true, true⟩ }
    (.value .null) = .ok _ := rfl
  refine ⟨_, opened, ?_⟩
  intro steps c
  have integral : ∀ step ∈ steps, step.isIntegral := by simp [steps, Step.isIntegral]
  have none : c.waiting = [] := List.isEmpty_iff.mp (by decide +kernel)
  obtain ⟨_, passes, serves, _⟩ := exact_pass_trace opened integral rfl
  obtain ⟨d, served⟩ := serves (fun _ => some ⟨"OSError", "gone"⟩) [.close] (by decide)
  obtain ⟨called, drains⟩ := (passes none (by decide +kernel) _ d).2 served
  refine ⟨d, served, drains, ?_⟩
  rw [called]
  with_unfolding_all rfl

end Course

end MetricTree
