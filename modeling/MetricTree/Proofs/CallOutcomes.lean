import MetricTree.Proofs.DropLines
import MetricTree.Proofs.PassCourses

namespace MetricTree

namespace Loop

variable {l : Loop}

theorem pass_notices (l : Loop) (duty : Duty) (tally : Summary)
    (found : Except Fault (Option (Observation × Pass)) × Tree) : (l.pass duty tally found).notices = [] := by
  obtain ⟨fault | _ | ⟨o, p⟩, u⟩ := found <;> rfl

theorem follow_drops (l : Loop) (plan : Plan) : (l.follow plan).notices.filterMap Notice.drop? = [] := by
  cases plan with
  | pass duty => rw [follow, pass_notices]; rfl
  | leave last answer => rfl
  | answer answer => rfl

end Loop

namespace Course

/-- The call that has come out, and how. -/
def Event.outcome? : Event → Option (Activity × Outcome)
  | .came a o => some (a, o)
  | _ => none

def Event.notice? : Event → Option Notice
  | .told n => some n
  | _ => none

/-- What a call that failed did not take. -/
def Event.dropped? : Event → Option Drop
  | .came (.observing _ p o) (.failed _) => some (.ofObservation p.cursor.scope o)
  | .came (.flushing _ tally) (.failed _) => some (.ofTally tally)
  | _ => none

/-- The calls of the reporter that have come out, one after the other, and how. -/
def outcomes (events : List Event) : List (Activity × Outcome) := events.filterMap Event.outcome?

theorem outcomes_append (events more : List Event) : outcomes (events ++ more) = outcomes events ++ outcomes more :=
  List.filterMap_append

theorem outcomes_of_aside {events : List Event} (aside : ∀ e ∈ events, e.isAside = true) : outcomes events = [] := by
  refine List.filterMap_eq_nil_iff.mpr fun e member => ?_
  have calm := aside e member
  cases e with
  | came => cases calm
  | _ => rfl

/-- Every call has come out, but for the one that is waited for. -/
structure Matched (c : Course) : Prop where
  one : c.waiting.length ≤ 1
  calls : made c.past = (outcomes c.past).map (·.1) ++ c.waiting

variable {c d : Course} {s : Stage} {events : List Event}

theorem outcomes_own (plan : Option Plan) (m : Move) : outcomes (own plan m) = [] := by
  refine List.filterMap_eq_nil_iff.mpr fun e member => ?_
  have owned := isOwn_of_own member
  cases e with
  | came => cases owned
  | _ => rfl

theorem made_own (plan : Option Plan) (m : Move) : made (own plan m) = match m.next with
    | .waits a => [a]
    | .ends _ => [] := by
  have told : made (m.notices.map Event.told) = [] := made_of_aside fun e => isAside_of_told
  have planned : made ((plan.map Plan.events).getD []) = [] := by
    rcases plan with _ | _ | _ | _ <;> rfl
  rw [own, made_append, made_append, told, planned, List.nil_append, List.nil_append, Move.ending]
  rcases m.next with a | fault | answer
  · rfl
  · simp only
    split <;> rfl
  · rfl

theorem Matched.aside (matched : c.Matched) (aside : c.Aside d events) : d.Matched := by
  refine ⟨aside.waiting ▸ matched.one, ?_⟩
  rw [aside.past, made_append, outcomes_append, made_of_aside aside.aside, outcomes_of_aside aside.aside,
    List.append_nil, List.append_nil, aside.waiting, matched.calls]

/-- A move makes at most one call, and then waits for it. -/
theorem Matched.move {before : List Event} {plan : Option Plan} {m : Move} (none : c.waiting = [])
    (calls : made (c.past ++ before) = (outcomes (c.past ++ before)).map (·.1)) : (c.move before plan m).Matched := by
  have waiting : (c.move before plan m).waiting = made (own plan m) := by
    rw [made_own]
    cases leads : m.next with
    | waits a => simp only [Course.move, leads, none]
    | ends answer => simp only [Course.move, leads, none]
  refine ⟨?_, ?_⟩
  · rw [waiting, made_own]
    split
    · exact Nat.le_refl 1
    · exact Nat.zero_le 1
  · rw [past_move, ← List.append_assoc, made_append, outcomes_append, calls, outcomes_own, List.append_nil, waiting]

theorem Matched.take (matched : c.Matched) (here : c.At s) (step : Step) : (c.take step).Matched := by
  have calls := matched.calls
  cases waiting : c.waiting with
  | nil =>
    rw [waiting, List.append_nil] at calls
    cases step with
    | request r =>
      obtain ⟨events, aside⟩ := c.request_aside r
      exact matched.aside aside
    | start => exact matched.aside c.start_aside
    | report => exact .move waiting (by rw [List.append_nil, calls])
    | close =>
      refine .move waiting ?_
      rw [made_append, outcomes_append, calls]
      split <;> simp [made, outcomes, Event.outcome?]
    | outcome o =>
      have still : c.take (.outcome o) = c := by simp only [Course.take, waiting]
      rw [still]
      exact matched
  | cons a outer =>
    by_cases outside : step.isErrand = true
    · obtain ⟨events, aside⟩ := errand_aside (here.engaged (waiting_ne_nil waiting)) outside
      exact matched.aside aside
    · cases step with
      | outcome o =>
        have single : outer = [] := by
          have one := matched.one
          rw [waiting, List.length_cons] at one
          exact List.eq_nil_of_length_eq_zero (Nat.le_zero.mp (Nat.le_of_succ_le_succ one))
        subst single
        have taken : c.take (.outcome o) = { c with waiting := [] }.move [.came a o] (a.plan? c.loop o)
            (c.loop.resume a o) := by simp only [Course.take, waiting]
        rw [taken]
        refine .move rfl ?_
        rw [made_append, outcomes_append, calls, waiting, List.map_append]
        exact List.append_nil _
      | _ => exact absurd rfl outside

theorem matched_run {o : Options} {interval : Interval} {opening : Opening}
    (opened : Opening.ofOptions o interval = .ok opening) (steps : List Step) :
    ((Course.opened opening).run steps).Matched := by
  have first : (Course.opened opening).Matched := by
    have calm : ∀ e ∈ (Course.opened opening).past, e.isAside = true := fun e => isAside_of_told
    exact ⟨Nat.zero_le 1, by rw [made_of_aside calm, outcomes_of_aside calm]; rfl⟩
  refine (run_induction (P := fun c => (∃ s, c.At s) ∧ c.Matched) ⟨⟨.ready, (placed_opened opened).here⟩, first⟩ ?_).2
  rintro c step _ ⟨⟨s, here⟩, matched⟩
  obtain ⟨_, next, advances⟩ := take_advances here step
  exact ⟨⟨next, advances.here⟩, matched.take here step⟩

/-- What the log is told that was dropped, one after the other. -/
def dropsTold (events : List Event) : List Drop := (events.filterMap Event.notice?).filterMap Notice.drop?

theorem dropsTold_append (events more : List Event) :
    dropsTold (events ++ more) = dropsTold events ++ dropsTold more := by
  rw [dropsTold, List.filterMap_append, List.filterMap_append]
  rfl

theorem notices_told (notices : List Notice) : (notices.map Event.told).filterMap Event.notice? = notices := by
  rw [List.filterMap_map, show Event.notice? ∘ Event.told = some from rfl, List.filterMap_some]

theorem notices_own (plan : Option Plan) (m : Move) : (own plan m).filterMap Event.notice? = m.notices := by
  have planned : ((plan.map Plan.events).getD []).filterMap Event.notice? = [] := by
    rcases plan with _ | _ | _ | _ <;> rfl
  have ended : m.ending.filterMap Event.notice? = [] := by
    unfold Move.ending
    rcases m.next with a | fault | answer
    · rfl
    · simp only
      split <;> rfl
    · rfl
  rw [own, List.filterMap_append, List.filterMap_append, notices_told, planned, ended, List.append_nil, List.append_nil]

theorem dropsTold_own (plan : Option Plan) (m : Move) : dropsTold (own plan m) = m.notices.filterMap Notice.drop? := by
  rw [dropsTold, notices_own]

theorem dropped_own (plan : Option Plan) (m : Move) : (own plan m).filterMap Event.dropped? = [] := by
  refine List.filterMap_eq_nil_iff.mpr fun e member => ?_
  have owned := isOwn_of_own member
  cases e with
  | came => cases owned
  | _ => rfl

end Course

namespace Loop

/-- When a call has come out, the log is told what the call did not take. -/
theorem resume_drops (l : Loop) (a : Activity) (o : Outcome) :
    (l.resume a o).notices.filterMap Notice.drop? = (Course.Event.came a o).dropped?.toList := by
  cases a with
  | observing duty p seen =>
    cases o with
    | aborted => rfl
    | returned | failed =>
      simp only [resume, Move.after, pass_notices]
      rfl
  | flushing duty tally =>
    cases o with
    | aborted => rfl
    | returned | failed =>
      simp only [resume, Move.after, List.filterMap_append, follow_drops]
      rfl
  | leaving answer => cases o <;> rfl

end Loop

namespace Course

variable {c : Course}

theorem dropsTold_of_change {t u : Tree} {events : List Event} (change : t.Change events u) :
    dropsTold events = events.filterMap Event.dropped? := by
  cases change <;> rfl

theorem dropsTold_start (l : Loop) :
    dropsTold (l.start.2.map .told) = (l.start.2.map Event.told).filterMap Event.dropped? := by
  unfold Loop.start
  split
  · rfl
  · split <;> rfl

/-- What the log is told in a step is what was dropped in it. -/
theorem take_drops (c : Course) (step : Step) : ∃ events, (c.take step).past = c.past ++ events ∧
    dropsTold events = events.filterMap Event.dropped? := by
  have moves : ∀ {before : List Event} {plan : Option Plan} {m : Move}, dropsTold before = [] →
      m.notices.filterMap Notice.drop? = before.filterMap Event.dropped? →
      dropsTold (before ++ own plan m) = (before ++ own plan m).filterMap Event.dropped? := by
    intro before plan m untold same
    rw [dropsTold_append, untold, dropsTold_own, same, List.filterMap_append, dropped_own, List.append_nil]
    rfl
  cases step with
  | request r =>
    cases run : r.perform c.loop.tree with
    | error fault => exact ⟨[], by simp only [take, run, List.append_nil], rfl⟩
    | ok done =>
      simp only [take, run]
      exact ⟨_, rfl, dropsTold_of_change (Request.perform_change run)⟩
  | start => exact ⟨_, rfl, dropsTold_start c.loop⟩
  | report => exact ⟨_, c.past_move _ _ _, moves rfl (c.loop.follow_drops _)⟩
  | close =>
    refine ⟨_, c.past_move _ _ _, moves ?_ ((Loop.follow_drops _ _).trans ?_)⟩ <;> split <;> rfl
  | outcome o =>
    cases waiting : c.waiting with
    | nil => exact ⟨[], by simp only [take, waiting, List.append_nil], rfl⟩
    | cons a outer =>
      simp only [take, waiting]
      exact ⟨_, past_move _ _ _ _, moves rfl (c.loop.resume_drops a o)⟩

theorem drops_run {o : Options} {interval : Interval} {opening : Opening}
    (opened : Opening.ofOptions o interval = .ok opening) (steps : List Step) :
    let c := (Course.opened opening).run steps
    dropsTold c.past = c.past.filterMap Event.dropped? := by
  refine run_induction (P := fun c => dropsTold c.past = c.past.filterMap Event.dropped?) ?_ ?_
  · obtain ⟨separator, stem, tags, seconds, started⟩ := Opening.ofOptions_start opened
    have notices : _ = opening.notices := congrArg Prod.snd started
    rw [Course.opened, ← notices]
    exact dropsTold_start _
  · intro c step _ before
    obtain ⟨events, past, drops⟩ := c.take_drops step
    rw [past, dropsTold_append, before, drops, List.filterMap_append]

end Course

end MetricTree
