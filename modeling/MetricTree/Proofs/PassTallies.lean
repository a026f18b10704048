import MetricTree.Proofs.PassTrace
import MetricTree.Proofs.CallOutcomes

namespace MetricTree

/-- What has come of a pass while it waits for the reporter. -/
def Activity.tally : Activity → Summary
  | .observing _ p _ => p.tally
  | .flushing _ tally => tally
  | .leaving _ => .empty

/-- The tally that it goes on with. Without a pass there is none. -/
def Next.tally : Next → Summary
  | .waits a => a.tally
  | .ends _ => .empty

def Notice.summary? : Notice → Option Summary
  | .passed summary _ => some summary
  | _ => none

/-- What a call that comes out adds to the account of the passes: the summary of the pass that it ends, and the tally
that is gone on with. -/
def Call.reckon (tally : Summary) (o : Outcome) : Call → List Summary × Summary
  | .observe seen => ([], Loop.tallied tally seen o)
  | .flush => ([Loop.flushed tally o], .empty)
  | .close => ([], tally)

namespace Tree

variable {t u : Tree} {tally : Summary} {o : Observation} {p q : Pass}

theorem enter_tally {scopes : List Text} (found : t.enter tally scopes = (.ok (some (o, p)), u)) :
    p.tally = tally := by
  induction scopes generalizing t with
  | nil => cases found
  | cons i waiting ih =>
    simp only [enter] at found
    split at found
    · cases found
    · cases found
      rfl
    · exact ih found

theorem continuePass_tally (found : t.continuePass p = (.ok (some (o, q)), u)) : q.tally = p.tally := by
  simp only [continuePass] at found
  split at found
  · cases found
  · cases found
    rfl
  · exact enter_tally found

end Tree

namespace Loop

variable {l : Loop}

/-- A pass that does not fail goes on with what has been tallied. -/
theorem pass_tally {duty : Duty} {tally : Summary} {found : Except Fault (Option (Observation × Pass)) × Tree}
    (kept : ∀ o p u, found = (.ok (some (o, p)), u) → p.tally = tally)
    (unfailing : ∀ fault, (l.pass duty tally found).next ≠ .ends (.error fault)) :
    (l.pass duty tally found).next.tally = tally := by
  obtain ⟨fault | _ | ⟨o, p⟩, u⟩ := found
  · exact absurd rfl (unfailing fault)
  · rfl
  · exact kept o p u rfl

theorem follow_tally (l : Loop) (plan : Plan) : (l.follow plan).next.tally = .empty := by
  cases plan with
  | answer answer => rfl
  | leave last answer =>
    simp only [follow, leave]
    split <;> rfl
  | pass duty =>
    rcases run : l.tree.beginPass with ⟨fault | _ | ⟨o, p⟩, u⟩ <;> rw [follow, run]
    · rfl
    · rfl
    · exact Tree.enter_tally run

theorem follow_summaries (l : Loop) (plan : Plan) : (l.follow plan).notices.filterMap Notice.summary? = [] := by
  cases plan with
  | pass duty => rw [follow_pass_notices]; rfl
  | leave last answer => rfl
  | answer answer => rfl

/-- A call that is not broken off adds to the account what belongs to it, if what follows does not fail. -/
theorem resume_reckon {a : Activity} {o : Outcome} (calm : o.aborts = false)
    (unfailing : a.duty?.isSome → ∀ fault, (l.resume a o).next ≠ .ends (.error fault)) :
    ((l.resume a o).notices.filterMap Notice.summary?, (l.resume a o).next.tally) = a.call.reckon a.tally o := by
  cases a with
  | leaving answer => cases o <;> rfl
  | flushing duty tally =>
    cases o with
    | aborted => cases calm
    | returned | failed =>
      simp only [resume, Move.after, List.filterMap_append, follow_summaries, follow_tally]
      rfl
  | observing duty p seen =>
    have goesOn : (l.resume (.observing duty p seen) o).next =
        (l.pass duty (tallied p.tally seen o)
          (l.tree.continuePass { p with tally := tallied p.tally seen o })).next := by
      obtain ⟨notices, resumes⟩ := l.resume_observing duty p seen calm
      rw [resumes]
      rfl
    have untold : (l.resume (.observing duty p seen) o).notices.filterMap Notice.summary? = [] := by
      cases o with
      | aborted => cases calm
      | returned | failed => simp only [resume, Move.after, pass_notices]; rfl
    have unfailing := unfailing rfl
    rw [goesOn] at unfailing
    rw [goesOn, untold, pass_tally (fun o q u found => Tree.continuePass_tally found) unfailing]
    rfl

end Loop

namespace Course

/-- How a call comes out after which these calls have been made. -/
def Temper.verdict (temper : Temper) (calls : List Call) : Outcome := (temper calls).elim .returned .failed

/-- What the calls of a reporter come to once they have come out: the summaries of the passes, and the tally of the pass
that is under way. -/
inductive Reckons (temper : Temper) : List Call → List Summary → Summary → Prop
  | start : Reckons temper [] [] .empty
  | call {calls : List Call} {told : List Summary} {tally : Summary} (next : Call)
      (before : Reckons temper calls told tally) :
      Reckons temper (calls ++ [next]) (told ++ (next.reckon tally (temper.verdict (calls ++ [next]))).1)
        (next.reckon tally (temper.verdict (calls ++ [next]))).2

/-- The summaries of passes that were told. -/
def summaries (events : List Event) : List Summary := (events.filterMap Event.notice?).filterMap Notice.summary?

/-- What is waited for, and the tally of it, are those of the calls that have come out. -/
structure Reckoned (temper : Temper) (c : Course) : Prop where
  one : c.waiting.length ≤ 1
  reckons : ∃ before, calls c.past = before ++ c.waiting.map Activity.call ∧
    Reckons temper before (summaries c.past) ((c.waiting.head?.map Activity.tally).getD .empty)

variable {temper : Temper} {c d : Course}

theorem summaries_append (events more : List Event) :
    summaries (events ++ more) = summaries events ++ summaries more := by
  rw [summaries, List.filterMap_append, List.filterMap_append]
  rfl

theorem summaries_told (notices : List Notice) :
    summaries (notices.map .told) = notices.filterMap Notice.summary? := by
  rw [summaries, notices_told]

theorem summaries_own (plan : Option Plan) (m : Move) :
    summaries (own plan m) = m.notices.filterMap Notice.summary? := by
  rw [summaries, notices_own]

/-- When nothing waits, a move leaves no more to be waited for than its own call. -/
theorem waiting_move (c : Course) (before : List Event) (plan : Option Plan) (m : Move) (none : c.waiting = []) :
    ∃ waiting, (c.move before plan m).waiting = waiting ∧ waiting.length ≤ 1 ∧
      nextCalls m.next = waiting.map Activity.call ∧
      m.next.tally = (waiting.head?.map Activity.tally).getD .empty := by
  cases leads : m.next with
  | waits a => exact ⟨[a], by simp only [move, leads, none], Nat.le_refl 1, rfl, rfl⟩
  | ends answer => exact ⟨[], by simp only [move, leads, none], Nat.zero_le 1, rfl, rfl⟩

/-- A move keeps the account if it tells of the passes what has been reckoned. -/
theorem Reckoned.move {before : List Event} {plan : Option Plan} {m : Move} {now : List Call} (none : c.waiting = [])
    (made : calls (c.past ++ before) = now)
    (reckons : Reckons temper now (summaries (c.past ++ before) ++ m.notices.filterMap Notice.summary?) m.next.tally) :
    Reckoned temper (c.move before plan m) := by
  have past : (c.move before plan m).past = (c.past ++ before) ++ own plan m := by
    rw [past_move, List.append_assoc]
  obtain ⟨waiting, waits, one, called, tally⟩ := c.waiting_move before plan m none
  refine ⟨waits ▸ one, now, ?_, ?_⟩
  · rw [past, calls_append, made, calls_own, called, waits]
  · rw [past, summaries_append, summaries_own, waits, ← tally]
    exact reckons

/-- What has to do with no pass leaves the account as it is. -/
theorem Reckoned.still {events : List Event} (reckoned : Reckoned temper c) (waiting : d.waiting = c.waiting)
    (past : d.past = c.past ++ events) (uncalled : calls events = []) (untold : summaries events = []) :
    Reckoned temper d := by
  obtain ⟨one, before, made, reckons⟩ := reckoned
  refine ⟨waiting ▸ one, before, ?_, ?_⟩
  · rw [past, calls_append, uncalled, List.append_nil, waiting, made]
  · rw [past, summaries_append, untold, List.append_nil, waiting]
    exact reckons

theorem summaries_of_change {t u : Tree} {events : List Event} (change : t.Change events u) :
    summaries events = [] := by
  cases change <;> rfl

theorem summaries_start (l : Loop) : summaries (l.start.2.map .told) = [] := by
  rw [summaries_told, Loop.start]
  split
  · rfl
  · split <;> rfl

/-- A pass begins with nothing tallied. -/
theorem Reckoned.follow {before : List Event} {plan : Plan} {l : Loop} (reckoned : Reckoned temper c)
    (none : c.waiting = []) (uncalled : calls before = []) (untold : summaries before = []) :
    Reckoned temper (c.move before (some plan) (l.follow plan)) := by
  obtain ⟨_, _, made, reckons⟩ := reckoned
  rw [none, List.map_nil, List.append_nil] at made
  rw [none, ← made] at reckons
  refine .move none (show calls (c.past ++ before) = calls c.past from ?_) ?_
  · rw [calls_append, uncalled, List.append_nil]
  · rw [summaries_append, untold, List.append_nil, l.follow_summaries, List.append_nil, l.follow_tally]
    exact reckons

theorem Reckoned.errand (reckoned : Reckoned temper c) (none : c.waiting = []) {step : Step}
    (outside : step.isErrand = true) : Reckoned temper (c.take step) := by
  cases step with
  | outcome o => cases outside
  | start => exact reckoned.still rfl rfl (calls_of_quiet fun e => isQuiet_of_told) (summaries_start c.loop)
  | report => exact reckoned.follow none rfl rfl
  | close =>
    refine reckoned.follow none ?_ ?_ <;> split <;> rfl
  | request r =>
    cases run : r.perform c.loop.tree with
    | error fault =>
      have same : c.take (.request r) = c := by simp only [take, run]
      rw [same]
      exact reckoned
    | ok done =>
      simp only [take, run]
      exact reckoned.still rfl rfl (calls_of_quiet (isQuiet_of_perform run))
        (summaries_of_change (Request.perform_change run))

/-- A call that comes out is reckoned with, and what follows is waited for with the tally that comes of it. -/
theorem Reckoned.answer (reckoned : Reckoned temper c) (sound : c.Sound) : Reckoned temper (c.answer temper) := by
  obtain ⟨one, before, made, reckons⟩ := reckoned
  cases waits : c.waiting with
  | nil =>
    have same : c.answer temper = c := by simp only [Course.answer, take, waits]
    rw [same]
    exact ⟨one, before, made, reckons⟩
  | cons a outer =>
    have last : outer = [] := by
      rw [waits] at one
      exact List.length_eq_zero_iff.mp (Nat.le_zero.mp (Nat.le_of_succ_le_succ one))
    subst last
    -- With integers only, nothing but an interruption would end the pass here, and drop its tally.
    have calm := temper.outcome_aborts c.past
    have within : a.Within c.loop.tree := sound.within a (by rw [waits]; exact List.mem_cons_self ..)
    have account := c.loop.resume_reckon calm fun under fault failed => by
      obtain ⟨message, broken, _⟩ := (Loop.resume_sound sound.integral within).2 fault failed under
      rw [broken] at calm
      cases calm
    rw [waits] at made reckons
    rw [answer_eq temper waits]
    refine .move rfl (show calls (c.past ++ [.came a _]) = before ++ [a.call] from ?_) ?_
    · rw [calls_append, made]
      exact List.append_nil _
    · have verdict : temper.verdict (before ++ [a.call]) = temper.outcome c.past := by
        rw [Temper.outcome, made]
        rfl
      have onward : Reckons temper (before ++ [a.call]) (summaries c.past ++ (a.call.reckon a.tally _).1)
        (a.call.reckon a.tally _).2 := reckons.call a.call
      rw [verdict, ← account] at onward
      rw [summaries_append]
      change Reckons temper _ (summaries c.past ++ [] ++ _) _
      rw [List.append_nil]
      exact onward

/-- What errands keep while nothing waits, and the calls that come out, is kept all the way. -/
theorem Served.keeps {P : Course → Prop} {errands : List Step} (served : Served temper c errands d) (first : P c)
    (errand : ∀ c step, step ∈ errands → c.waiting = [] → step.isErrand = true → P c → P (c.take step))
    (answer : ∀ c, P c → P (c.answer temper)) : P d := by
  induction served with
  | done => exact first
  | errand none outside _ ih =>
    exact ih (errand _ _ (List.mem_cons_self ..) none outside first)
      fun c step member => errand c step (List.mem_cons_of_mem _ member)
  | call _ _ ih => exact ih (answer _ first) errand

theorem Served.none {errands : List Step} (served : Served temper c errands d) : d.waiting = [] := by
  induction served with
  | done none => exact none
  | errand _ _ _ ih | call _ _ ih => exact ih

theorem reckoned_opened {o : Options} {interval : Interval} {opening : Opening} (temper : Temper)
    (opened : Opening.ofOptions o interval = .ok opening) : Reckoned temper (Course.opened opening) := by
  obtain ⟨separator, stem, tags, seconds, started⟩ := Opening.ofOptions_start opened
  have notices : _ = opening.notices := congrArg Prod.snd started
  have untold : summaries (Course.opened opening).past = [] := by
    rw [Course.opened, ← notices]
    exact summaries_start _
  refine ⟨Nat.zero_le 1, [], calls_of_quiet fun e => isQuiet_of_told, ?_⟩
  rw [untold]
  exact .start

/-- When nothing waits any more, the account of the passes is that of all calls of the reporter. -/
theorem reckons_served {o : Options} {interval : Interval} {opening : Opening} {errands : List Step}
    (opened : Opening.ofOptions o interval = .ok opening) (integral : ∀ step ∈ errands, step.isIntegral)
    (served : Served temper (Course.opened opening) errands d) :
    Reckons temper (calls d.past) (summaries d.past) .empty := by
  have sound : (Course.opened opening).Sound := (faultless_run opened (List.forall_mem_nil _)).sound
  have steps : ∀ {c : Course} {step : Step}, step.isIntegral → (∃ s, c.At s) ∧ c.Sound →
      (∃ s, (c.take step).At s) ∧ (c.take step).Sound := by
    rintro c step integral ⟨⟨s, here⟩, sound⟩
    obtain ⟨_, next, advances⟩ := take_advances here step
    exact ⟨⟨next, advances.here⟩, (take_sound sound here integral).1⟩
  have kept : ((∃ s, d.At s) ∧ d.Sound) ∧ Reckoned temper d := by
    refine served.keeps (P := fun c => ((∃ s, c.At s) ∧ c.Sound) ∧ Reckoned temper c)
      ⟨⟨⟨.ready, (placed_opened opened).here⟩, sound⟩, reckoned_opened temper opened⟩ ?_ ?_
    · exact fun c step member none outside before =>
        ⟨steps (integral step member) before.1, before.2.errand none outside⟩
    · exact fun c before => ⟨steps rfl before.1, before.2.answer before.1.2⟩
  obtain ⟨_, _, before, made, reckons⟩ := kept
  rw [served.none, List.map_nil, List.append_nil] at made
  rw [served.none, ← made] at reckons
  exact reckons

end Course

end MetricTree
