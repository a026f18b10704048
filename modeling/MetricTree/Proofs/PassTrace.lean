import MetricTree.Proofs.AlikeRuns
import MetricTree.Proofs.StageRuns
import MetricTree.Proofs.WholePass

namespace MetricTree

namespace Course

/-- The way of a course through calls of the reporter alone. -/
inductive Answers (temper : Temper) : Course → Course → Prop
  | stop {c : Course} : Answers temper c c
  | call {c d : Course} (some : c.waiting ≠ []) (later : Answers temper (c.answer temper) d) : Answers temper c d

variable {temper : Temper} {c d : Course} {errands : List Step}

theorem Answers.served {e : Course} (answers : Answers temper c d) (served : Served temper d errands e) :
    Served temper c errands e := by
  induction answers with
  | stop => exact served
  | call some _ ih => exact .call some (ih served)

theorem answer_eq {a : Activity} {outer : List Activity} (temper : Temper) (waiting : c.waiting = a :: outer) :
    c.answer temper = { c with waiting := outer }.move [.came a (temper.outcome c.past)]
      (a.plan? c.loop (temper.outcome c.past)) (c.loop.resume a (temper.outcome c.past)) := by
  simp only [answer, take, waiting]

/-- A pass from whose search on this is collected goes on to report it, and then flushes. -/
inductive PassGoesOn (l : Loop) (duty : Duty) (notices : List Notice) (final : Tree) :
    List Observation → Move → Prop
  | flush {tally : Summary} :
      PassGoesOn l duty notices final []
        ⟨{ l with tree := final, busy := true }, notices, .waits (.flushing duty tally)⟩
  | observe {o : Observation} {rest : List Observation} {p : Pass} {t : Tree}
      (collects : t.collect (p.jobs t) = .ok (rest, final)) :
      PassGoesOn l duty notices final (o :: rest)
        ⟨{ l with tree := t, busy := true }, notices, .waits (.observing duty p o)⟩

theorem pass_goesOn (l : Loop) (duty : Duty) (tally : Summary) (notices : List Notice)
    {found : Except Fault (Option (Observation × Pass)) × Tree} {all : List Observation} {final : Tree}
    (collects : found.2.collectAfter found.1 (Pass.jobs found.2) [] = .ok (all, final)) :
    PassGoesOn l duty notices final all (Move.after notices (l.pass duty tally found)) := by
  obtain ⟨fault | _ | ⟨o, p⟩, t⟩ := found
  · cases collects
  · cases collects
    rw [Move.after, Loop.pass, List.append_nil]
    exact .flush
  · simp only [Tree.collectAfter, List.append_nil, Observation.before] at collects
    cases run : t.collect (p.jobs t) with
    | error fault =>
      rw [run] at collects
      cases collects
    | ok r =>
      rw [run] at collects
      cases collects
      rw [Move.after, Loop.pass, List.append_nil]
      exact .observe run

theorem answer_observing {duty : Duty} {p : Pass} {o : Observation} {rest : List Observation} {final : Tree}
    (temper : Temper) (waits : c.waiting = [.observing duty p o])
    (collects : c.loop.tree.collect (p.jobs c.loop.tree) = .ok (rest, final)) :
    ∃ came plan notices m, c.answer temper = { c with waiting := [] }.move came plan m ∧ calls came = [] ∧
      PassGoesOn c.loop duty notices final rest m := by
  obtain ⟨notices, resumes⟩ := c.loop.resume_observing duty p o (temper.outcome_aborts c.past)
  have search := c.loop.tree.collect_of_continuePass
    { p with tally := Loop.tallied p.tally o (temper.outcome c.past) }
  refine ⟨_, _, notices, _, answer_eq temper waits, rfl, ?_⟩
  rw [resumes]
  exact pass_goesOn _ _ _ _ (search.symm.trans collects)

/-- A pass that is not broken off reports all that it collects, in order, and comes to its flush. -/
theorem answers_pass {l : Loop} {duty : Duty} {notices : List Notice} {all : List Observation} {final : Tree}
    {m : Move} (goesOn : PassGoesOn l duty notices final all m) (temper : Temper) (c : Course) (before : List Event)
    (plan : Option Plan) (none : c.waiting = []) (uncalled : calls before = []) :
    ∃ d tally, Answers temper (c.move before plan m) d ∧ d.waiting = [.flushing duty tally] ∧
      d.loop = { l with tree := final, busy := true } ∧
      calls d.past = calls c.past ++ (all.map Call.observe ++ [.flush]) := by
  induction all generalizing l notices m c before plan with
  | nil =>
    cases goesOn with
    | flush =>
      refine ⟨_, _, .stop, congrArg _ none, rfl, ?_⟩
      rw [calls_move uncalled]
      rfl
  | cons o rest ih =>
    cases goesOn with
    | @observe _ _ p t collects =>
      have waits : (c.move before plan ⟨{ l with tree := t, busy := true }, notices,
          .waits (.observing duty p o)⟩).waiting = [.observing duty p o] := congrArg _ none
      obtain ⟨came, plan', notices', m, next, uncome, goesOn⟩ := answer_observing temper waits collects
      obtain ⟨d, tally, answers, waiting, loop, called⟩ := ih goesOn
        { c.move before plan ⟨{ l with tree := t, busy := true }, notices, .waits (.observing duty p o)⟩ with
          waiting := [] } came plan' rfl uncome
      refine ⟨d, tally, .call (waiting_ne_nil waits) (next ▸ answers), waiting, loop, ?_⟩
      rw [called]
      simp only [calls_move uncalled, nextCalls, List.append_assoc]
      rfl

/-- What a whole pass calls the reporter for, from first to last. -/
def passCalls (t : Tree) : List Call := t.pending.map .observe ++ [.flush]

/-- A pass that begins reports all that is pending, and leaves nothing of it behind when it flushes. -/
theorem answers_begun {l : Loop} (duty : Duty) (temper : Temper) (c : Course) (before : List Event)
    (none : c.waiting = []) (uncalled : calls before = []) (integral : l.tree.Integral) (distinct : l.tree.Distinct) :
    ∃ d tally, Answers temper (c.move before (some (.pass duty)) (l.follow (.pass duty))) d ∧
      d.waiting = [.flushing duty tally] ∧ d.loop = { l with tree := l.tree.settled, busy := true } ∧
      calls d.past = calls c.past ++ passCalls l.tree := by
  have entered := l.tree.collect_of_enter .empty l.tree.identities
  have collects := entered.symm.trans (Tree.collect_jobs integral distinct)
  exact answers_pass (pass_goesOn l duty .empty [] collects) temper c before _ none uncalled

/-- The flush of a pass comes out, and then follows what was planned for its end. -/
theorem answer_flushing {duty : Duty} {tally : Summary} (temper : Temper) (waits : c.waiting = [.flushing duty tally]) :
    ∃ came summary notices, calls [came] = [] ∧
      c.answer temper = { c with waiting := [] }.move [came] (some (c.loop.planAfter summary duty))
        (Move.after notices (Loop.follow { c.loop with passes := c.loop.passes + 1, busy := false }
          (c.loop.planAfter summary duty))) := by
  have calm := temper.outcome_aborts c.past
  obtain ⟨notices, resumes⟩ := c.loop.resume_flushing duty tally calm
  have planned : (Activity.flushing duty tally).plan? c.loop (temper.outcome c.past) =
      some (c.loop.planAfter (Loop.flushed tally (temper.outcome c.past)) duty) := by
    cases outcome : temper.outcome c.past with
    | aborted message => rw [outcome] at calm; cases calm
    | returned => rfl
    | failed failure => rfl
  refine ⟨.came (.flushing duty tally) (temper.outcome c.past), Loop.flushed tally (temper.outcome c.past), notices,
    rfl, ?_⟩
  rw [answer_eq temper waits, planned, resumes]

end Course

end MetricTree
