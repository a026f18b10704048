import Mathlib.Data.List.Induction
import MetricTree.Proofs.PassNumbers

namespace MetricTree

namespace Outcome

def returns : Outcome → Bool
  | .returned => true
  | _ => false

def fails : Outcome → Bool
  | .failed _ => true
  | _ => false

end Outcome

/-- Does it report a counter, or else a gauge? -/
def Activity.reports (counter : Bool) : Activity → Bool
  | .observing _ _ o => o.isCounter == counter
  | _ => false

/-- How many reports of counters returned, how many of gauges, and how many calls failed. -/
def Summary.ofOutcomes (outs : List (Activity × Outcome)) : Summary :=
  ⟨outs.countP fun r => r.2.returns && r.1.reports true, outs.countP fun r => r.2.returns && r.1.reports false,
    outs.countP fun r => r.2.fails⟩

/-- How many calls it counts. -/
def Summary.total (s : Summary) : Int := s.counters + s.gauges + s.errors

namespace Loop

theorem total_tallied {tally : Summary} {o : Outcome} (seen : Observation) (calm : o.aborts = false) :
    (tallied tally seen o).total = tally.total + 1 := by
  unfold Summary.total
  cases o with
  | aborted => cases calm
  | failed => simp only [tallied]; omega
  | returned => cases seen <;> simp only [tallied, Observation.isCounter, if_true, Bool.false_eq_true,
    if_false] <;> omega

theorem total_flushed (tally : Summary) (o : Outcome) :
    (flushed tally o).total = tally.total + if o.fails then 1 else 0 := by
  unfold Summary.total
  cases o with
  | failed => simp only [flushed, Outcome.fails, if_true]; omega
  | returned | aborted => exact (Int.add_zero _).symm

variable {outs : List (Activity × Outcome)} {o : Outcome}

theorem tallied_ofOutcomes (duty : Duty) (p : Pass) (seen : Observation) (calm : o.aborts = false) :
    tallied (.ofOutcomes outs) seen o = .ofOutcomes (outs ++ [(.observing duty p seen, o)]) := by
  simp only [Summary.ofOutcomes, List.countP_append, List.countP_singleton]
  cases o with
  | aborted => cases calm
  | failed => rfl
  | returned => cases seen <;> rfl

theorem flushed_ofOutcomes (duty : Duty) (tally : Summary) (o : Outcome) :
    flushed (.ofOutcomes outs) o = .ofOutcomes (outs ++ [(.flushing duty tally, o)]) := by
  simp only [Summary.ofOutcomes, List.countP_append, List.countP_singleton]
  cases o <;> rfl

/-- A search that comes to a call within a pass leaves its tally as it was. -/
theorem pass_leads {l : Loop} {found : Except Fault (Option (Observation × Pass)) × Tree} (unclosed : l.phase ≠ .closed)
    (duty : Duty) (tally : Summary) (kept : ∀ o p u, found = (.ok (some (o, p)), u) → p.tally = tally) :
    (∃ fault, (l.pass duty tally found).next = .ends (.error fault) ∧
        (l.pass duty tally found).ending = [.cut fault, .answered (.error fault)]) ∨
      ∃ a, (l.pass duty tally found).next = .waits a ∧ (l.pass duty tally found).ending = [.called a] ∧
        a.duty? = some duty ∧ a.tally = tally := by
  obtain ⟨fault | _ | ⟨o, p⟩, u⟩ := found
  · refine .inl ⟨fault, rfl, ?_⟩
    simp only [pass, answered, throw, throwThe, MonadExceptOf.throw, Move.ending, unclosed, if_false]
  · exact .inr ⟨_, rfl, rfl, rfl, rfl⟩
  · exact .inr ⟨_, rfl, rfl, rfl, kept o p u rfl⟩

/-- A report that comes out leads on with its pass, or cuts it short. -/
theorem resume_leads {l : Loop} (unclosed : l.phase ≠ .closed) (duty : Duty) (p : Pass) (seen : Observation) :
    (∃ fault, (l.resume (.observing duty p seen) o).next = .ends (.error fault) ∧
        (l.resume (.observing duty p seen) o).ending = [.cut fault, .answered (.error fault)]) ∨
      o.aborts = false ∧ ∃ a, (l.resume (.observing duty p seen) o).next = .waits a ∧
        (l.resume (.observing duty p seen) o).ending = [.called a] ∧ a.duty? = some duty ∧
        a.tally = tallied p.tally seen o := by
  cases aborts : o.aborts with
  | true =>
    cases o with
    | aborted message =>
      refine .inl ⟨.aborted message, rfl, ?_⟩
      simp only [resume, answered, throw, throwThe, MonadExceptOf.throw, Move.ending, unclosed, if_false]
    | returned | failed => cases aborts
  | false =>
    obtain ⟨notices, resumes⟩ := l.resume_observing duty p seen aborts
    rw [resumes]
    exact (pass_leads unclosed duty (tallied p.tally seen o) fun _ _ _ found => Tree.continuePass_tally found).imp_right
      (⟨rfl, ·⟩)

end Loop

namespace Course

variable {c d : Course} {duty : Duty} {since events past : List Event} {a : Activity} {summary : Summary} {number : Nat}

/-- A pass that waits for a call, after what has happened since it began: its calls before this one reported metrics,
all have come out, and its tally counts how. -/
structure Going (duty : Duty) (since : List Event) (a : Activity) : Prop where
  serves : a.duty? = some duty
  within : ∀ e ∈ since, e.begins = false ∧ e.endsPass = false
  calls : made since = (outcomes since).map Prod.fst ++ [a]
  reports : ∀ r ∈ outcomes since, r.2.aborts = false ∧ ∃ p seen, r.1 = .observing duty p seen
  tally : a.tally = .ofOutcomes (outcomes since)

/-- All that happens in a pass that comes to its end, from where it begins to where it is told of. It reports metrics
and then flushes, and its summary counts how these calls came out. -/
structure Whole (duty : Duty) (summary : Summary) (number : Nat) (events : List Event) : Prop where
  within : ∃ since, events = .began duty :: since ++ [.told (.passed summary number)] ∧
    ∀ e ∈ since, e.begins = false ∧ e.isCut = false
  calls : made events = (outcomes events).map Prod.fst
  outcomes : ∃ reports tally o, Course.outcomes events = reports ++ [(.flushing duty tally, o)] ∧ o.aborts = false ∧
    (∀ r ∈ reports, r.2.aborts = false ∧ ∃ p seen, r.1 = .observing duty p seen) ∧
    summary.total = reports.length + if o.fails then 1 else 0
  counts : summary = .ofOutcomes (Course.outcomes events)

theorem Going.begun (serves : a.duty? = some duty) (fresh : a.tally = .empty) : Going duty [.called a] a where
  serves := serves
  within := List.forall_mem_singleton.mpr ⟨rfl, rfl⟩
  calls := rfl
  reports := List.forall_mem_nil _
  tally := fresh

theorem Going.aside (going : Going duty since a) (aside : ∀ e ∈ events, e.isAside = true) :
    Going duty (since ++ events) a := by
  obtain ⟨serves, within, calls, reports, tally⟩ := going
  have silent : outcomes (since ++ events) = outcomes since := by
    rw [outcomes_append, outcomes_of_aside aside, List.append_nil]
  refine ⟨serves, ?_, ?_, silent ▸ reports, silent ▸ tally⟩
  · exact List.forall_mem_append.mpr ⟨within, fun e member => Event.of_isAside (aside e member)⟩
  · rw [made_append, made_of_aside aside, List.append_nil, silent, calls]

/-- The reports of a pass are counted once each. -/
theorem total_ofOutcomes {outs : List (Activity × Outcome)}
    (reports : ∀ r ∈ outs, r.2.aborts = false ∧ ∃ p seen, r.1 = .observing duty p seen) :
    (Summary.ofOutcomes outs).total = outs.length := by
  induction outs using List.reverseRecOn with
  | nil => rfl
  | append_singleton sooner r ih =>
    obtain ⟨before, last⟩ := List.forall_mem_append.mp reports
    obtain ⟨a, o⟩ := r
    obtain ⟨calm, p, seen, rfl⟩ := List.forall_mem_singleton.mp last
    rw [← Loop.tallied_ofOutcomes duty p seen calm, Loop.total_tallied seen calm, ih before, List.length_append]
    rfl

/-- The flush of a pass comes out, and makes it a whole one. -/
theorem Going.whole {tally : Summary} {o : Outcome} (going : Going duty since (.flushing duty tally))
    (calm : o.aborts = false) (told : List Notice) (number : Nat) :
    Whole duty (Loop.flushed tally o) number (.began duty :: since ++
      (.came (.flushing duty tally) o :: told.map .told ++ [.told (.passed (Loop.flushed tally o) number)])) := by
  obtain ⟨_, within, calls, reports, counted⟩ := going
  have counted : tally = .ofOutcomes (outcomes since) := counted
  have aside : ∀ e ∈ told.map Event.told ++ [.told (.passed (Loop.flushed tally o) number)], e.isAside = true :=
    List.forall_mem_append.mpr ⟨fun e => isAside_of_told, List.forall_mem_singleton.mpr rfl⟩
  have out : outcomes (.began duty :: since ++ (.came (.flushing duty tally) o :: told.map .told ++
      [.told (.passed (Loop.flushed tally o) number)])) = outcomes since ++ [(.flushing duty tally, o)] := by
    rw [outcomes_append]
    exact congrArg (outcomes since ++ (.flushing duty tally, o) :: ·) (outcomes_of_aside aside)
  have done : made (.began duty :: since ++ (.came (.flushing duty tally) o :: told.map .told ++
      [.told (.passed (Loop.flushed tally o) number)])) = made since := by
    rw [made_append]
    exact (congrArg (made since ++ ·) (made_of_aside aside)).trans (List.append_nil _)
  refine ⟨⟨since ++ .came (.flushing duty tally) o :: told.map .told, ?_, ?_⟩, ?_, ⟨_, _, _, out,
    calm, reports, ?_⟩, ?_⟩
  · simp only [List.cons_append, List.append_assoc]
  · refine List.forall_mem_append.mpr ⟨fun e member => ⟨(within e member).1, ?_⟩, ?_⟩
    · have goesOn := (within e member).2
      cases e with
      | cut => cases goesOn
      | _ => rfl
    · refine List.forall_mem_cons.mpr ⟨⟨rfl, rfl⟩, fun e member => ?_⟩
      obtain ⟨_, _, rfl⟩ := List.mem_map.mp member
      exact ⟨rfl, rfl⟩
  · rw [done, calls, out, List.map_append]
    rfl
  · rw [Loop.total_flushed, counted, total_ofOutcomes reports]
  · rw [out, ← Loop.flushed_ofOutcomes, ← counted]

/-- A pass goes on from a report that has come out to its next call. -/
theorem Going.next {p : Pass} {seen : Observation} {o : Outcome} (going : Going duty since (.observing duty p seen))
    (calm : o.aborts = false) (told : List Notice) (serves : a.duty? = some duty)
    (tally : a.tally = Loop.tallied p.tally seen o) :
    Going duty (since ++ (.came (.observing duty p seen) o :: told.map .told ++ [.called a])) a := by
  obtain ⟨_, within, calls, reports, counted⟩ := going
  have counted : p.tally = .ofOutcomes (outcomes since) := counted
  have out : outcomes (since ++ (.came (.observing duty p seen) o :: told.map .told ++ [.called a])) =
      outcomes since ++ [(.observing duty p seen, o)] := by
    rw [outcomes_append, outcomes_append]
    refine congrArg (outcomes since ++ (.observing duty p seen, o) :: ·) ?_
    exact (congrArg (· ++ _) (outcomes_of_aside fun e => isAside_of_told)).trans rfl
  have made : made (since ++ (.came (.observing duty p seen) o :: told.map .told ++ [.called a])) =
      made since ++ [a] := by
    rw [made_append, made_append]
    exact congrArg (fun calls => made since ++ (calls ++ [a])) (made_of_aside fun e => isAside_of_told)
  refine ⟨serves, List.forall_mem_append.mpr ⟨within, List.forall_mem_append.mpr ⟨List.forall_mem_cons.mpr ⟨⟨rfl, rfl⟩,
    fun e member => Event.of_isAside (isAside_of_told member)⟩, List.forall_mem_singleton.mpr ⟨rfl, rfl⟩⟩⟩, ?_, ?_, ?_⟩
  · rw [made, calls, out, List.map_append]
    rfl
  · rw [out]
    exact List.forall_mem_append.mpr ⟨reports, List.forall_mem_singleton.mpr ⟨calm, p, seen, rfl⟩⟩
  · rw [out, tally, counted, Loop.tallied_ofOutcomes duty p seen calm]

/-- A report comes out, and its pass goes on or is cut short. -/
theorem Going.came_observing {p : Pass} {seen : Observation} (going : Going duty since (.observing duty p seen))
    (waits : c.waiting = [.observing duty p seen]) (unclosed : c.loop.phase ≠ .closed) (o : Outcome) :
    (∃ events b, (c.take (.outcome o)).past = c.past ++ events ∧ (c.take (.outcome o)).waiting = [b] ∧
      Going duty (since ++ events) b ∧ numbers events = []) ∨
    ∃ events fault, (c.take (.outcome o)).past = c.past ++ (events ++ [.cut fault, .answered (.error fault)]) ∧
      (c.take (.outcome o)).waiting = [] ∧ numbers events = [] := by
  have taken : c.take (.outcome o) = { c with waiting := [] }.move [.came (.observing duty p seen) o] none
      (c.loop.resume (.observing duty p seen) o) := by
    simp only [take, waits]
    rfl
  have past : ∀ ending, (c.loop.resume (.observing duty p seen) o).ending = ending → (c.take (.outcome o)).past =
      c.past ++ (.came (.observing duty p seen) o ::
        (c.loop.resume (.observing duty p seen) o).notices.map .told ++ ending) := by
    rintro _ rfl
    rw [taken, past_move, own, Option.map_none, Option.getD_none, List.append_nil]
    rfl
  have untold : numbers (.came (.observing duty p seen) o ::
      (c.loop.resume (.observing duty p seen) o).notices.map .told) = [] :=
    (numbers_told _).trans (resume_numbers c.loop (.observing duty p seen) o).2
  rcases Loop.resume_leads (o := o) unclosed duty p seen with
    ⟨fault, ends, ending⟩ | ⟨calm, b, next, ending, serves, tally⟩
  · refine .inr ⟨_, fault, past _ ending, ?_, untold⟩
    rw [taken, waiting_of_ends ends]
  · refine .inl ⟨_, b, past _ ending, ?_, ?_, ?_⟩
    · rw [taken]
      simp only [move, next]
    · exact going.next calm _ serves tally
    · rw [numbers_append, untold]
      rfl

/-- What a move tells first can as well have happened before it. -/
theorem move_after (c : Course) (before : List Event) (plan : Option Plan) (notices : List Notice) (m : Move) :
    c.move before plan (Move.after notices m) = c.move (before ++ notices.map .told) plan m := by
  simp only [move, Move.after, List.map_append, List.append_assoc]
  rfl

/-- The call of a pass comes out: the pass goes on, is cut short, or comes to its end, where what was planned follows.
-/
theorem Going.came (going : Going duty since a) (waits : c.waiting = [a]) (unclosed : c.loop.phase ≠ .closed)
    (o : Outcome) :
    (∃ events b, (c.take (.outcome o)).past = c.past ++ events ∧ (c.take (.outcome o)).waiting = [b] ∧
      Going duty (since ++ events) b ∧ numbers events = []) ∨
    (∃ events fault, (c.take (.outcome o)).past = c.past ++ (events ++ [.cut fault, .answered (.error fault)]) ∧
      (c.take (.outcome o)).waiting = [] ∧ numbers events = []) ∨
    ∃ (tally : Summary) (told : List Notice), a = .flushing duty tally ∧ told.filterMap Notice.number? = [] ∧
      let summary := Loop.flushed tally o
      let l := { c.loop with passes := c.loop.passes + 1, busy := false }
      let events := .came (.flushing duty tally) o :: told.map .told ++ [.told (.passed summary l.passes)]
      Whole duty summary l.passes (.began duty :: since ++ events) ∧
      c.take (.outcome o) = { c with waiting := [] }.move events (some (l.planAfter summary duty))
        (l.follow (l.planAfter summary duty)) := by
  cases a with
  | leaving => cases going.serves
  | observing _ p seen =>
    cases going.serves
    exact (going.came_observing waits unclosed o).imp_right .inl
  | flushing _ tally =>
    cases going.serves
    have taken : c.take (.outcome o) = { c with waiting := [] }.move [.came (.flushing duty tally) o]
        ((Activity.flushing duty tally).plan? c.loop o) (c.loop.resume (.flushing duty tally) o) := by
      simp only [take, waits]
    cases o with
    | aborted message =>
      refine .inr (.inl ⟨[.came (.flushing duty tally) (.aborted message)], .aborted message, ?_,
        congrArg waiting taken, rfl⟩)
      rw [taken, past_move]
      simp only [own, Loop.resume, Loop.answered, throw, throwThe, MonadExceptOf.throw, Move.ending, unclosed, if_false]
      rfl
    | returned =>
      refine .inr (.inr ⟨tally, [], rfl, rfl, going.whole rfl [] _, ?_⟩)
      rw [taken]
      exact move_after _ [.came (.flushing duty tally) .returned] _ [.passed _ _] _
    | failed failure =>
      refine .inr (.inr ⟨tally, [.flushFailed tally failure], rfl, rfl,
        going.whole rfl [.flushFailed tally failure] _, ?_⟩)
      rw [taken]
      exact move_after _ [.came (.flushing duty tally) (.failed failure)] _ [.flushFailed tally failure, .passed _ _] _

/-- A pass that begins is cut short at once, or waits for its first call. -/
theorem begun_leads {l : Loop} (c : Course) (before : List Event) (duty : Duty) (none : c.waiting = [])
    (unclosed : l.phase ≠ .closed) :
    let d := c.move before (some (.pass duty)) (l.follow (.pass duty))
    (∃ a, d.waiting = [a] ∧ d.past = c.past ++ (before ++ [.began duty, .called a]) ∧ Going duty [.called a] a) ∨
      ∃ fault, d.waiting = [] ∧ d.past = c.past ++ (before ++ [.began duty, .cut fault, .answered (.error fault)]) := by
  intro d
  have past : ∀ ending, (l.follow (.pass duty)).ending = ending →
      d.past = c.past ++ (before ++ .began duty :: ending) := by
    rintro _ rfl
    rw [show d.past = _ from past_move .., own, l.follow_pass_notices]
    rfl
  have begins : ∀ o p u, l.tree.beginPass = (.ok (some (o, p)), u) → p.tally = .empty :=
    fun _ _ _ found => Tree.enter_tally found
  rcases Loop.pass_leads unclosed duty .empty begins with
    ⟨fault, ends, ending⟩ | ⟨a, next, ending, serves, fresh⟩
  · exact .inr ⟨fault, (waiting_of_ends ends).trans none, past _ ending⟩
  · refine .inl ⟨a, ?_, past _ ending, .begun serves fresh⟩
    simp only [d, move, Loop.follow, next, none]

/-- Each summary that was told is that of a whole pass, which ends where it is told. -/
def Summarized (past : List Event) : Prop :=
  ∀ before summary number after, past = before ++ .told (.passed summary number) :: after →
    ∃ sooner duty pass, before ++ [.told (.passed summary number)] = sooner ++ pass ∧ Whole duty summary number pass

theorem Summarized.append (summarized : Summarized past) (untold : numbers events = []) :
    Summarized (past ++ events) := by
  intro before summary number after same
  rcases List.append_eq_append_iff.mp same with ⟨others, rfl, rfl⟩ | ⟨others, rfl, rest⟩
  · rw [numbers_append, List.append_eq_nil_iff] at untold
    cases untold.2
  · cases others with
    | nil =>
      obtain rfl : _ = events := rest
      cases untold
    | cons e others =>
      cases rest
      exact summarized before summary number others rfl

theorem Summarized.told {sooner pass : List Event} (summarized : Summarized past)
    (whole : Whole duty summary number pass)
    (ends : past ++ [.told (.passed summary number)] = sooner ++ pass) :
    Summarized (past ++ [.told (.passed summary number)]) := by
  intro before summary' number' after same
  cases after using List.reverseRecOn with
  | nil =>
    cases List.append_inj' same rfl |>.1
    cases List.append_inj' same rfl |>.2
    exact ⟨sooner, duty, pass, ends, whole⟩
  | append_singleton after e _ =>
    rw [← List.cons_append, ← List.append_assoc] at same
    exact summarized before summary' number' after (List.append_inj' same rfl).1

/-- The summaries that were told are summarized for, and so is the tally of a pass that waits for a call. -/
structure Tallied (c : Course) : Prop where
  summarized : Summarized c.past
  going : ∀ a duty, c.waiting = [a] → a.duty? = some duty →
    ∃ sooner since, c.past = sooner ++ .began duty :: since ∧ Going duty since a

theorem errand_numbers (c : Course) {step : Step} (outside : step.isErrand = true) :
    ∃ events, (c.take step).past = c.past ++ events ∧ numbers events = [] := by
  cases step with
  | outcome => cases outside
  | start => exact ⟨_, rfl, (numbers_told _).trans c.loop.start_numbers⟩
  | report =>
    refine ⟨_, c.past_move [] _ _, ?_⟩
    rw [numbers_append, numbers_own, Loop.report, Loop.follow_numbers]
    rfl
  | close =>
    refine ⟨_, c.past_move _ _ _, ?_⟩
    rw [numbers_append, numbers_own, Loop.close, Loop.follow_numbers]
    split <;> rfl
  | request r =>
    cases run : r.perform c.loop.tree with
    | error fault => exact ⟨[], by simp only [take, run, List.append_nil], rfl⟩
    | ok done =>
      obtain ⟨events, u⟩ := done
      refine ⟨events, by simp only [take, run], ?_⟩
      cases Request.perform_change run <;> rfl

/-- What a plan leads to is tallied, if what has happened before it is. -/
theorem Tallied.follow {before : List Event} {plan : Plan} {l : Loop} (summarized : Summarized (c.past ++ before))
    (none : c.waiting = []) (unclosed : ∀ duty, plan = .pass duty → l.phase ≠ .closed) :
    (c.move before (some plan) (l.follow plan)).Tallied := by
  refine ⟨?_, fun a duty waits serves => ?_⟩
  · rw [past_move, ← List.append_assoc]
    exact summarized.append ((numbers_own _ _).trans (l.follow_numbers plan))
  · cases plan with
    | answer answer => cases none.symm.trans waits
    | leave last answer =>
      have gone := congrArg Course.waiting (c.move_leave (l := l) before last answer [] rfl)
      rw [none, List.append_nil] at gone
      cases closes : (l.reporter.map Reporter.closes).getD false with
      | true =>
        rw [closes, if_pos rfl] at gone
        cases gone.symm.trans waits
        cases serves
      | false =>
        rw [closes, if_neg Bool.false_ne_true] at gone
        cases gone.symm.trans waits
    | pass begun =>
      rcases begun_leads c before begun none (unclosed _ rfl) with ⟨b, waiting, past, going⟩ | ⟨fault, waiting, _⟩
      · cases waiting.symm.trans waits
        cases going.serves.symm.trans serves
        exact ⟨c.past ++ before, _, by rw [past, List.append_assoc], going⟩
      · cases waiting.symm.trans waits

theorem Tallied.errand {s : Stage} (tallied : c.Tallied) (here : c.At s) {step : Step}
    (outside : step.isErrand = true) : (c.take step).Tallied := by
  obtain ⟨summarized, going⟩ := tallied
  obtain ⟨events, past, untold⟩ := errand_numbers c outside
  by_cases none : c.waiting = []
  · cases step with
    | outcome => cases outside
    | start => exact ⟨past ▸ summarized.append untold, fun a duty waits => by cases none.symm.trans waits⟩
    | request r =>
      refine ⟨past ▸ summarized.append untold, fun a duty waits => ?_⟩
      have same : (c.take (.request r)).waiting = c.waiting := by
        cases run : r.perform c.loop.tree <;> simp only [take, run]
      cases (same.trans none).symm.trans waits
    | report =>
      refine .follow (by rwa [List.append_nil]) none fun duty pass => ?_
      rcases c.loop.planReport_cases with ⟨answer, planned⟩ | ⟨_, _, unclosed, _⟩
      · cases planned.symm.trans pass
      · intro closed
        rw [closed] at unclosed
        cases unclosed
    | close =>
      have before : Summarized (c.past ++ if c.loop.phase.isOver then [] else [.closing]) := by
        refine summarized.append ?_
        split <;> rfl
      refine .follow (l := if c.loop.phase.isOver then c.loop else { c.loop with phase := .closing }) before none
        fun duty pass => ?_
      split
      · next ended =>
        rw [Loop.planClose, ended] at pass
        cases pass
      · exact fun closed => by cases closed
  · obtain ⟨others, aside⟩ := errand_aside (here.engaged none) outside
    obtain rfl : others = events := List.append_cancel_left (aside.past.symm.trans past)
    refine ⟨past ▸ summarized.append untold, fun a duty waits serves => ?_⟩
    obtain ⟨sooner, since, before, going⟩ := going a duty (aside.waiting.symm.trans waits) serves
    refine ⟨sooner, since ++ others, ?_, going.aside aside.aside⟩
    rw [past, before, List.append_assoc]
    rfl

theorem Tallied.outcome {s : Stage} (tallied : c.Tallied) (here : c.At s) (o : Outcome) :
    (c.take (.outcome o)).Tallied := by
  obtain ⟨summarized, going⟩ := tallied
  cases waits : c.waiting with
  | nil =>
    have same : c.take (.outcome o) = c := by simp only [take, waits]
    rw [same]
    exact ⟨summarized, going⟩
  | cons a outer =>
    rcases here.front waits with ⟨under, unclosed⟩ | ⟨parting, closed⟩
    · obtain ⟨duty, serves⟩ := Option.isSome_iff_exists.mp under
      have one : c.waiting = [a] := by
        cases here with
        | ready none | stuck none => cases none.symm.trans waits
        | passing one => rw [one] at waits ⊢; cases waits; rfl
        | finished _ _ closed => exact absurd closed unclosed
      obtain ⟨sooner, since, before, going⟩ := going a duty one serves
      rcases going.came one unclosed o with ⟨events, b, past, waiting, going, untold⟩ |
        ⟨events, fault, past, waiting, untold⟩ | ⟨tally, told, rfl, untold, whole, taken⟩
      · refine ⟨past ▸ summarized.append untold, fun _ _ waits serves => ?_⟩
        cases waiting.symm.trans waits
        cases going.serves.symm.trans serves
        exact ⟨sooner, _, by rw [past, before, List.append_assoc]; rfl, going⟩
      · refine ⟨past ▸ summarized.append ?_, fun _ _ waits => ?_⟩
        · rw [numbers_append, untold]
          rfl
        · cases waiting.symm.trans waits
      · rw [taken]
        refine .follow ?_ rfl fun _ _ => unclosed
        have calm : numbers (.came (.flushing duty tally) o :: told.map .told) = [] := (numbers_told told).trans untold
        rw [← List.append_assoc]
        refine (summarized.append calm).told whole (show _ = sooner ++ _ from ?_)
        simp only [before, List.append_assoc, List.cons_append]
    · cases a with
      | observing | flushing => cases parting
      | leaving answer =>
        obtain ⟨notices, ending, resumes, unplanned⟩ := c.loop.resume_of_leaving (o := o) parting
        have taken : c.take (.outcome o) = { c with waiting := outer }.move [.came (.leaving answer) o] none
            ⟨c.loop, notices, .ends ending⟩ := by
          simp only [take, waits, unplanned, resumes]
        have untold := (resume_numbers c.loop (.leaving answer) o).2
        rw [resumes] at untold
        refine ⟨?_, fun b duty one serves => ?_⟩
        · rw [taken, past_move]
          refine summarized.append ?_
          rw [numbers_append, numbers_own]
          exact untold
        · have left : b ∈ c.waiting := by
            rw [taken] at one
            rw [waits, show outer = [b] from one]
            exact List.mem_cons_of_mem _ (List.mem_singleton.mpr rfl)
          cases here with
          | ready none | stuck none => cases none.symm.trans waits
          | passing _ _ _ _ allowed => exact absurd closed allowed.ne_closed
          | finished partings => cases (partings b left).symm.trans serves

theorem Tallied.take {s : Stage} (tallied : c.Tallied) (here : c.At s) (step : Step) : (c.take step).Tallied := by
  cases step with
  | outcome o => exact tallied.outcome here o
  | request | start | report | close => exact tallied.errand here rfl

theorem tallied_run {o : Options} {interval : Interval} {opening : Opening}
    (opened : Opening.ofOptions o interval = .ok opening) (steps : List Step) :
    ((Course.opened opening).run steps).Tallied := by
  have first : (Course.opened opening).Tallied := by
    have summarized : Summarized [] := fun before _ _ _ same => by cases before <;> cases same
    refine ⟨summarized.append (numbers_opened opened).2, fun a duty waits => by cases waits⟩
  refine (run_induction (P := fun c => (∃ s, c.At s) ∧ c.Tallied) ⟨⟨.ready, (placed_opened opened).here⟩, first⟩ ?_).2
  rintro c step _ ⟨⟨s, here⟩, tallied⟩
  obtain ⟨_, next, advances⟩ := take_advances here step
  exact ⟨⟨next, advances.here⟩, tallied.take here step⟩

end Course

end MetricTree
