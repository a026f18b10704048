import MetricTree.Proofs.Serving

namespace MetricTree

/-- Duties that are alike but for the summary still to be given. -/
inductive Duty.Alike : Duty → Duty → Prop
  | report : Alike .report .report
  | close : Alike .close .close
  | farewell {first second : Summary} : Alike (.farewell first) (.farewell second)

/-- Activities that are alike but for what has been tallied. -/
inductive Activity.Alike : Activity → Activity → Prop
  | observing {d e : Duty} {p q : Pass} {o : Observation} (duty : d.Alike e) (waiting : p.waiting = q.waiting)
      (cursor : p.cursor = q.cursor) : Alike (.observing d p o) (.observing e q o)
  | flushing {d e : Duty} {first second : Summary} (duty : d.Alike e) : Alike (.flushing d first) (.flushing e second)
  | leaving {first second : Option Summary} : Alike (.leaving first) (.leaving second)

/-- Searches of a tree that find the same, whatever has been tallied. -/
inductive SearchAlike : Except Fault (Option (Observation × Pass)) × Tree →
    Except Fault (Option (Observation × Pass)) × Tree → Prop
  | error {fault : Fault} {t : Tree} : SearchAlike (.error fault, t) (.error fault, t)
  | nothing {t : Tree} : SearchAlike (.ok none, t) (.ok none, t)
  | found {o : Observation} {p q : Pass} {t : Tree} (waiting : p.waiting = q.waiting) (cursor : p.cursor = q.cursor) :
      SearchAlike (.ok (some (o, p)), t) (.ok (some (o, q)), t)

inductive Next.Alike : Next → Next → Prop
  | waits {a b : Activity} (alike : a.Alike b) : Alike (.waits a) (.waits b)
  | ends {first second : Except Fault (Option Summary)} : Alike (.ends first) (.ends second)

/-- Moves to the same loop, with the same call of the reporter if there is one. -/
structure Move.Alike (m n : Move) : Prop where
  loop : m.loop = n.loop
  next : m.next.Alike n.next

theorem Activity.Alike.call {a b : Activity} (alike : a.Alike b) : a.call = b.call := by
  cases alike <;> rfl

theorem Activity.Alike.refl (a : Activity) : a.Alike a := by
  have duties : ∀ d : Duty, d.Alike d := by
    intro d
    cases d <;> constructor
  cases a with
  | observing => exact .observing (duties _) rfl rfl
  | flushing => exact .flushing (duties _)
  | leaving => exact .leaving

theorem Move.Alike.refl (m : Move) : m.Alike m := by
  refine ⟨rfl, ?_⟩
  cases m.next with
  | waits a => exact .waits (.refl a)
  | ends => exact .ends

theorem Move.Alike.after {m n : Move} (alike : m.Alike n) (first second : List Notice) :
    (Move.after first m).Alike (Move.after second n) := ⟨alike.loop, alike.next⟩

namespace Tree

theorem enter_alike (t : Tree) (first second : Summary) (scopes : List Text) :
    SearchAlike (t.enter first scopes) (t.enter second scopes) := by
  induction scopes generalizing t with
  | nil => exact .nothing
  | cons i waiting ih =>
    simp only [enter]
    rcases t.nextWithin (.counters i (t.counterNames i)) with ⟨fault | _ | ⟨o, cursor⟩, after⟩
    · exact .error
    · exact ih after
    · exact .found rfl rfl

theorem continuePass_alike (t : Tree) {p q : Pass} (waiting : p.waiting = q.waiting) (cursor : p.cursor = q.cursor) :
    SearchAlike (t.continuePass p) (t.continuePass q) := by
  simp only [continuePass, cursor]
  rcases t.nextWithin q.cursor with ⟨fault | _ | ⟨o, next⟩, after⟩
  · exact .error
  · rw [waiting]
    exact after.enter_alike _ _ _
  · exact .found waiting rfl

end Tree

namespace Loop

variable {l : Loop} {d e : Duty}

theorem pass_alike {first second : Summary} {found other : Except Fault (Option (Observation × Pass)) × Tree}
    (duty : d.Alike e) (search : SearchAlike found other) : (l.pass d first found).Alike (l.pass e second other) := by
  cases search with
  | error => exact ⟨rfl, .ends⟩
  | nothing => exact ⟨rfl, .waits (.flushing duty)⟩
  | found waiting cursor => exact ⟨rfl, .waits (.observing duty waiting cursor)⟩

theorem leave_alike {first second : Summary} {answer other : Option Summary} :
    (l.leave first answer).Alike (l.leave second other) := by
  refine ⟨rfl, ?_⟩
  simp only [leave]
  split
  · exact .waits .leaving
  · exact .ends

/-- What follows a pass does not depend on what was tallied in it. -/
theorem after_alike {first second : Summary} (duty : d.Alike e) :
    (l.follow (l.planAfter first d)).Alike (l.follow (l.planAfter second e)) := by
  cases duty with
  | close => exact leave_alike
  | farewell => exact leave_alike
  | report =>
    simp only [planAfter]
    split
    · exact pass_alike .farewell (l.tree.enter_alike _ _ _)
    · exact ⟨rfl, .ends⟩

/-- However its calls come out, unless it breaks one off, a reporter is called for the same next. -/
theorem resume_alike {a b : Activity} {o p : Outcome} (alike : a.Alike b) (calm : o.aborts = false)
    (calm' : p.aborts = false) : (l.resume a o).Alike (l.resume b p) := by
  cases alike with
  | observing duty waiting cursor =>
    obtain ⟨first, same⟩ := l.resume_observing _ _ _ calm
    obtain ⟨second, same'⟩ := l.resume_observing _ _ _ calm'
    rw [same, same']
    refine (pass_alike duty (l.tree.continuePass_alike ?_ ?_)).after first second
    · exact waiting
    · exact cursor
  | flushing duty =>
    obtain ⟨first, same⟩ := l.resume_flushing _ _ calm
    obtain ⟨second, same'⟩ := l.resume_flushing _ _ calm'
    rw [same, same']
    exact (after_alike (l := { l with passes := l.passes + 1, busy := false }) duty).after first second
  | leaving =>
    obtain ⟨_, _, same, _⟩ := l.resume_of_leaving (a := .leaving _) (o := o) rfl
    obtain ⟨_, _, same', _⟩ := l.resume_of_leaving (a := .leaving _) (o := p) rfl
    rw [same, same']
    exact ⟨rfl, .ends⟩

end Loop

namespace Course

/-- Courses with the same loop that have made the same calls of the reporter, and wait for the same. -/
structure Alike (c d : Course) : Prop where
  loop : c.loop = d.loop
  waiting : List.Forall₂ Activity.Alike c.waiting d.waiting
  calls : calls c.past = calls d.past

variable {c d : Course}

theorem Alike.refl (c : Course) : c.Alike c :=
  ⟨rfl, List.forall₂_same.mpr fun a _ => .refl a, rfl⟩

theorem Alike.none_iff (alike : c.Alike d) : c.waiting = [] ↔ d.waiting = [] := by
  rw [← List.length_eq_zero_iff, ← List.length_eq_zero_iff, alike.waiting.length_eq]

theorem calls_append (past events : List Event) : calls (past ++ events) = calls past ++ calls events :=
  List.filterMap_append

theorem calls_of_quiet {events : List Event} (quiet : ∀ e ∈ events, e.isQuiet = true) : calls events = [] := by
  rw [calls, List.filterMap_eq_nil_iff]
  intro e member
  cases e with
  | called => cases quiet _ member
  | _ => rfl

/-- The call of the reporter that a move ends with. -/
def nextCalls : Next → List Call
  | .waits a => [a.call]
  | .ends _ => []

theorem calls_own (plan : Option Plan) (m : Move) : calls (own plan m) = nextCalls m.next := by
  have told : calls (m.notices.map .told) = [] := calls_of_quiet fun e => isQuiet_of_told
  have planned : calls ((plan.map Plan.events).getD []) = [] := by
    rcases plan with _ | _ | _ | _ <;> rfl
  rw [own, calls_append, calls_append, told, planned]
  unfold Move.ending
  rcases m.next with a | fault | answer
  · rfl
  · simp only
    split <;> rfl
  · rfl

theorem calls_move {before : List Event} {plan : Option Plan} {m : Move} (uncalled : calls before = []) :
    calls (c.move before plan m).past = calls c.past ++ nextCalls m.next := by
  rw [past_move, calls_append, calls_append, uncalled, calls_own, List.nil_append]

theorem move_alike {before before' : List Event} {plan plan' : Option Plan} {m n : Move} (moves : m.Alike n)
    (waiting : List.Forall₂ Activity.Alike c.waiting d.waiting) (same : calls c.past = calls d.past)
    (uncalled : calls before = []) (uncalled' : calls before' = []) :
    (c.move before plan m).Alike (d.move before' plan' n) := by
  obtain ⟨loop, next⟩ := moves
  refine ⟨loop, ?_, ?_⟩
  · simp only [move]
    generalize m.next = first, n.next = second at next
    cases next with
    | waits alike => exact .cons alike waiting
    | ends => exact waiting
  · rw [calls_move uncalled, calls_move uncalled', same]
    generalize m.next = first, n.next = second at next
    cases next with
    | waits alike => rw [nextCalls, nextCalls, alike.call]
    | ends => rfl

theorem Alike.errand (alike : c.Alike d) {step : Step} (outside : step.isErrand = true) :
    (c.take step).Alike (d.take step) := by
  obtain ⟨loop, waiting, same⟩ := alike
  cases step with
  | outcome o => cases outside
  | request r =>
    cases run : r.perform c.loop.tree with
    | error fault =>
      have run' := run
      rw [loop] at run'
      simp only [take, run, run']
      exact ⟨loop, waiting, same⟩
    | ok done =>
      have run' := run
      rw [loop] at run'
      simp only [take, run, run']
      refine ⟨by rw [loop], waiting, ?_⟩
      rw [calls_append, calls_append, same]
  | start =>
    refine ⟨by simp only [take, loop], waiting, ?_⟩
    simp only [take, loop, calls_append, same]
  | report =>
    simp only [take, loop]
    exact move_alike (.refl _) waiting same rfl rfl
  | close =>
    simp only [take, loop]
    exact move_alike (.refl _) waiting same (by split <;> rfl) (by split <;> rfl)

theorem Alike.answer (alike : c.Alike d) (temper other : Temper) : (c.answer temper).Alike (d.answer other) := by
  obtain ⟨l, waiting, past⟩ := c
  obtain ⟨l', waiting', past'⟩ := d
  obtain ⟨rfl, both, same⟩ := alike
  cases both with
  | nil => exact ⟨rfl, .nil, same⟩
  | cons alike outer =>
    have moves := Loop.resume_alike (l := l) alike (temper.outcome_aborts past) (other.outcome_aborts past')
    exact move_alike moves outer same rfl rfl

/-- Reporters that differ in nothing but which of their calls fail are called alike throughout, and leave
the same behind. -/
theorem Served.alike {temper other : Temper} {errands : List Step} {c' d' : Course} (alike : c.Alike d)
    (first : Served temper c errands c') (second : Served other d errands d') : c'.Alike d' := by
  induction first generalizing d with
  | done none =>
    cases second with
    | done => exact alike
    | call some => exact absurd (alike.none_iff.mp none) some
  | errand none outside _ ih =>
    cases second with
    | errand _ _ later => exact ih (alike.errand outside) later
    | call some => exact absurd (alike.none_iff.mp none) some
  | call some _ ih =>
    cases second with
    | done none => exact absurd (alike.none_iff.mpr none) some
    | errand none => exact absurd (alike.none_iff.mpr none) some
    | call _ later => exact ih (alike.answer temper other) later

end Course

end MetricTree
