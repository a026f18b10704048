import MetricTree.Proofs.PassTallies

namespace MetricTree

namespace Notice

/-- The number of the pass that a notice tells of. -/
def number? : Notice → Option Nat
  | .passed _ number => some number
  | _ => none

/-- The pass that a notice tells of: its summary and its number. -/
def passed? : Notice → Option (Summary × Nat)
  | .passed summary number => some (summary, number)
  | _ => none

end Notice

namespace Loop

variable {l : Loop}

theorem pass_passCount (l : Loop) (duty : Duty) (tally : Summary)
    (found : Except Fault (Option (Observation × Pass)) × Tree) : (l.pass duty tally found).loop.passes = l.passes := by
  obtain ⟨fault | _ | ⟨o, p⟩, u⟩ := found <;> rfl

theorem follow_passCount (l : Loop) (plan : Plan) : (l.follow plan).loop.passes = l.passes := by
  cases plan with
  | pass duty => exact l.pass_passCount duty .empty l.tree.beginPass
  | leave | answer => rfl

theorem follow_numbers (l : Loop) (plan : Plan) : (l.follow plan).notices.filterMap Notice.number? = [] := by
  cases plan with
  | pass duty => rw [follow_pass_notices]; rfl
  | leave last answer => rfl
  | answer answer => rfl

theorem start_passCount (l : Loop) : l.start.1.passes = l.passes := by
  rcases l.start_cases with same | ⟨_, same⟩ <;> rw [same]

theorem start_numbers (l : Loop) : l.start.2.filterMap Notice.number? = [] := by
  rw [start]
  split
  · rfl
  · split <;> rfl

end Loop

namespace Course

/-- Is it a flush that has come out, and that did not break off its pass? -/
def Event.isFlushed : Event → Bool
  | .came (.flushing ..) o => !o.aborts
  | _ => false

/-- The numbers of passes that were told. -/
def numbers (events : List Event) : List Nat := (events.filterMap Event.notice?).filterMap Notice.number?

/-- The passes that were told, one after the other. -/
def passesTold (events : List Event) : List (Summary × Nat) := (events.filterMap Event.notice?).filterMap Notice.passed?

theorem map_fst_passesTold (events : List Event) : (passesTold events).map Prod.fst = summaries events := by
  rw [passesTold, List.map_filterMap]
  exact List.filterMap_congr fun n _ => by cases n <;> rfl

theorem map_snd_passesTold (events : List Event) : (passesTold events).map Prod.snd = numbers events := by
  rw [passesTold, List.map_filterMap]
  exact List.filterMap_congr fun n _ => by cases n <;> rfl

/-- Each flush that has come out makes a pass, and each pass was told of by its number. -/
structure Numbered (c : Course) : Prop where
  passes : c.loop.passes = c.past.countP Event.isFlushed
  numbers : numbers c.past = List.range' 1 c.loop.passes

variable {c d : Course}

theorem numbers_append (events more : List Event) : numbers (events ++ more) = numbers events ++ numbers more := by
  rw [numbers, List.filterMap_append, List.filterMap_append]
  rfl

theorem numbers_told (notices : List Notice) : numbers (notices.map .told) = notices.filterMap Notice.number? := by
  rw [numbers, notices_told]

theorem numbers_own (plan : Option Plan) (m : Move) : numbers (own plan m) = m.notices.filterMap Notice.number? := by
  rw [numbers, notices_own]

theorem countP_isFlushed_told (notices : List Notice) : (notices.map .told).countP Event.isFlushed = 0 := by
  refine List.countP_eq_zero.mpr fun e member => ?_
  obtain ⟨notice, _, rfl⟩ := List.mem_map.mp member
  exact Bool.false_ne_true

theorem countP_isFlushed_own (plan : Option Plan) (m : Move) : (own plan m).countP Event.isFlushed = 0 := by
  refine List.countP_eq_zero.mpr fun e member => ?_
  have owned := isOwn_of_own member
  cases e with
  | came => cases owned
  | _ => exact Bool.false_ne_true

theorem Numbered.move {before : List Event} {plan : Option Plan} {m : Move}
    (passes : m.loop.passes = (c.past ++ before).countP Event.isFlushed)
    (told : Course.numbers (c.past ++ before) ++ m.notices.filterMap Notice.number? = List.range' 1 m.loop.passes) :
    (c.move before plan m).Numbered := by
  have past : (c.move before plan m).past = (c.past ++ before) ++ own plan m := by
    rw [past_move, List.append_assoc]
  refine ⟨?_, ?_⟩
  · rw [past, List.countP_append, countP_isFlushed_own, Nat.add_zero]
    exact passes
  · rw [past, numbers_append, numbers_own]
    exact told

/-- What has to do with no flush leaves the count as it is. -/
theorem Numbered.still {events : List Event} (numbered : c.Numbered) (past : d.past = c.past ++ events)
    (passes : d.loop.passes = c.loop.passes) (unflushed : events.countP Event.isFlushed = 0)
    (untold : Course.numbers events = []) : d.Numbered := by
  refine ⟨?_, ?_⟩
  · rw [past, List.countP_append, unflushed, Nat.add_zero, passes, numbered.passes]
  · rw [past, numbers_append, untold, List.append_nil, passes, numbered.numbers]

/-- A plan counts no pass before it is carried out. -/
theorem Numbered.follow {before : List Event} {plan : Plan} {l : Loop} (numbered : c.Numbered)
    (passes : l.passes = c.loop.passes) (unflushed : before.countP Event.isFlushed = 0)
    (untold : Course.numbers before = []) : (c.move before (some plan) (l.follow plan)).Numbered := by
  refine .move ?_ ?_
  · rw [l.follow_passCount, passes, numbered.passes, List.countP_append, unflushed, Nat.add_zero]
  · rw [l.follow_numbers, List.append_nil, numbers_append, untold, List.append_nil, l.follow_passCount, passes,
      numbered.numbers]

/-- A flush that comes out adds one to the passes, and nothing else that comes out does. -/
theorem resume_numbers (l : Loop) (a : Activity) (o : Outcome) :
    (l.resume a o).loop.passes = l.passes + [Event.came a o].countP Event.isFlushed ∧
      (l.resume a o).notices.filterMap Notice.number? =
        List.range' (l.passes + 1) ([Event.came a o].countP Event.isFlushed) := by
  cases a with
  | observing duty p seen =>
    cases o with
    | aborted message => exact ⟨rfl, rfl⟩
    | returned | failed =>
      simp only [Loop.resume, Move.after, List.filterMap_append, Loop.pass_notices, Loop.pass_passCount]
      exact ⟨rfl, rfl⟩
  | flushing duty tally =>
    cases o with
    | aborted message => exact ⟨rfl, rfl⟩
    | returned | failed =>
      simp only [Loop.resume, Move.after, List.filterMap_append, Loop.follow_numbers, Loop.follow_passCount]
      exact ⟨rfl, rfl⟩
  | leaving answer => cases o <;> exact ⟨rfl, rfl⟩

theorem Numbered.take (numbered : c.Numbered) (step : Step) : (c.take step).Numbered := by
  cases step with
  | request r =>
    cases run : r.perform c.loop.tree with
    | error fault =>
      have same : c.take (.request r) = c := by simp only [Course.take, run]
      rw [same]
      exact numbered
    | ok done =>
      obtain ⟨events, u⟩ := done
      simp only [Course.take, run]
      refine numbered.still rfl rfl ?_ ?_
      · cases Request.perform_change run <;> rfl
      · cases Request.perform_change run <;> rfl
  | start =>
    exact numbered.still rfl c.loop.start_passCount (countP_isFlushed_told _) (by rw [numbers_told, Loop.start_numbers])
  | report => exact numbered.follow rfl rfl rfl
  | close =>
    refine numbered.follow ?_ ?_ ?_
    · split <;> rfl
    · split <;> rfl
    · split <;> rfl
  | outcome o =>
    cases waits : c.waiting with
    | nil =>
      have same : c.take (.outcome o) = c := by simp only [Course.take, waits]
      rw [same]
      exact numbered
    | cons a outer =>
      obtain ⟨passes, told⟩ := resume_numbers c.loop a o
      simp only [Course.take, waits]
      refine .move ?_ ?_
      · rw [passes, numbered.passes, List.countP_append]
      · have untold : Course.numbers [Event.came a o] = [] := rfl
        rw [told, passes, numbers_append, numbered.numbers, untold, List.append_nil, Nat.add_comm c.loop.passes 1]
        exact List.range'_append_1

/-- A tree that was just opened has made no passes. -/
theorem numbers_opened {o : Options} {interval : Interval} {opening : Opening}
    (opened : Opening.ofOptions o interval = .ok opening) :
    (Course.opened opening).loop.passes = 0 ∧ numbers (Course.opened opening).past = [] := by
  obtain ⟨separator, stem, tags, seconds, started⟩ := Opening.ofOptions_start opened
  have passes := Loop.start_passCount ⟨(Tree.ofRoot separator stem tags).2, seconds, o.reporter, .idle, 0, false⟩
  have untold := Loop.start_numbers ⟨(Tree.ofRoot separator stem tags).2, seconds, o.reporter, .idle, 0, false⟩
  rw [started] at passes untold
  exact ⟨passes, (numbers_told _).trans untold⟩

theorem numbered_opened {o : Options} {interval : Interval} {opening : Opening}
    (opened : Opening.ofOptions o interval = .ok opening) : (Course.opened opening).Numbered := by
  obtain ⟨passes, untold⟩ := numbers_opened opened
  refine ⟨?_, ?_⟩
  · rw [passes, Course.opened, countP_isFlushed_told]
  · rw [passes, untold]
    rfl

theorem numbered_run {o : Options} {interval : Interval} {opening : Opening}
    (opened : Opening.ofOptions o interval = .ok opening) (steps : List Step) :
    ((Course.opened opening).run steps).Numbered :=
  run_induction (numbered_opened opened) fun _ step _ before => before.take step

end Course

end MetricTree
