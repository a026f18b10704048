import MetricTree.Proofs.CallAnswers
import MetricTree.Proofs.KeptScopes
import MetricTree.Proofs.NameOrder
import MetricTree.Proofs.PassVisits

namespace MetricTree

/-- Elements that are let through but count for nothing can stand anywhere in a list. -/
theorem filterMap_takeWhile_of_sublist {α β : Type} {p : α → Bool} {f : α → Option β} {xs ys : List α}
    (among : xs.Sublist ys) (apart : ys.Nodup) (extra : ∀ a ∈ ys, a ∉ xs → p a = true ∧ f a = none) :
    (ys.takeWhile p).filterMap f = (xs.takeWhile p).filterMap f := by
  induction among with
  | slnil => rfl
  | @cons xs ys a among ih =>
    obtain ⟨fresh, apart⟩ := List.nodup_cons.mp apart
    obtain ⟨through, nothing⟩ := extra a (List.mem_cons_self ..) fun member => fresh (among.subset member)
    rw [List.takeWhile_cons_of_pos through, List.filterMap_cons_none nothing]
    exact ih apart fun b member => extra b (List.mem_cons_of_mem _ member)
  | @cons_cons xs ys a among ih =>
    obtain ⟨fresh, apart⟩ := List.nodup_cons.mp apart
    have others : ∀ b ∈ ys, b ∉ xs → p b = true ∧ f b = none := by
      intro b member absent
      refine extra b (List.mem_cons_of_mem _ member) fun either => ?_
      rcases List.mem_cons.mp either with rfl | inside
      · exact fresh member
      · exact absent inside
    by_cases through : p a = true
    · rw [List.takeWhile_cons_of_pos through, List.takeWhile_cons_of_pos through, List.filterMap_cons,
        List.filterMap_cons, ih apart others]
    · rw [List.takeWhile_cons_of_neg through, List.takeWhile_cons_of_neg through]

namespace Tree

/-- Can it be told what there is to report? With numbers of both kinds, a delta may be too large to tell. -/
def tellable (t : Tree) : Job → Bool
  | .counter h => (t.counterAt h).delta.toOption.isSome
  | .gauge _ => true

/-- What there is to report of metrics that are visited one after the other, up to the first that cannot be told. -/
def dues (t : Tree) (jobs : List Job) : List Observation := (jobs.takeWhile t.tellable).filterMap t.due

/-- What there is to report of a counter. -/
def dueCounter (t : Tree) (job : Job) : Option Observation := if job.isCounter then t.due job else none

variable {t u : Tree} {job : Job} {jobs rest : List Job} {found : Option (Text × Observation)} {h : Handle}

/-- A counter that is not there yet has nothing to report. -/
theorem due_counter : t.due (.counter h) = (t.label? h).bind fun label => (t.counterAt h).report label.1 label.2 := by
  rw [due, counterAt]
  cases t.counter? h with
  | none => rfl
  | some c => rfl

theorem isCounter_of_due {o : Observation} (due : t.due job = some o) : o.isCounter = job.isCounter := by
  cases job with
  | counter h =>
    rw [due_counter] at due
    obtain ⟨label, _, report⟩ := Option.bind_eq_some_iff.mp due
    obtain ⟨delta, _, rfl⟩ := Option.map_eq_some_iff.mp report
    rfl
  | gauge h =>
    obtain ⟨label, _, rest⟩ := Option.bind_eq_some_iff.mp due
    obtain ⟨g, _, report⟩ := Option.bind_eq_some_iff.mp rest
    rw [Gauge.report] at report
    split at report
    · cases report
      rfl
    · cases report

theorem filter_dues : (t.dues jobs).filter Observation.isCounter =
    (jobs.takeWhile t.tellable).filterMap t.dueCounter := by
  rw [dues, List.filter_filterMap]
  refine List.filterMap_congr fun job _ => ?_
  rw [dueCounter]
  cases found : t.due job with
  | none => exact (ite_self _).symm
  | some o => rw [Option.filter_some, isCounter_of_due found]

theorem visit_of_tellable (there : t.Has job) (tellable : t.tellable job = true) :
    t.visit job = .ok (t.due job, t.settle job) := by
  obtain ⟨s, atScope⟩ := exists_scope?_of_has there
  cases job with
  | counter h =>
    obtain ⟨c, found⟩ := Option.isSome_iff_exists.mp there
    rw [Tree.tellable, counterAt_of_counter? found] at tellable
    cases unreported : c.delta with
    | error fault => rw [unreported] at tellable; cases tellable
    | ok delta => exact visit_counter atScope found unreported
  | gauge h =>
    obtain ⟨g, found⟩ := Option.isSome_iff_exists.mp there
    exact visit_gauge atScope found

theorem tellable_of_visit {result : Option Observation × Tree} (run : t.visit job = .ok result) :
    t.tellable job = true := by
  cases job with
  | gauge h => rfl
  | counter h =>
    obtain ⟨s, _, rest⟩ := bind_eq_ok.mp run
    obtain ⟨⟨delta, after⟩, consumed, _⟩ := bind_eq_ok.mp rest
    obtain ⟨c, found, unreported, _⟩ := consumeCounter_eq_ok.mp consumed
    rw [tellable, counterAt_of_counter? found, unreported]
    rfl

theorem tellable_settle {other : Job} (different : job ≠ other) : (t.settle job).tellable other = t.tellable other := by
  cases other with
  | gauge k => rfl
  | counter k => rw [tellable, tellable, counterAt, counterAt, counter?_settle, if_neg different]

/-- A visit does not change what is due of other metrics. -/
theorem dues_settle (other : job ∉ jobs) : (t.settle job).dues jobs = t.dues jobs := by
  induction jobs with
  | nil => rfl
  | cons first rest ih =>
    rw [List.mem_cons, not_or] at other
    obtain ⟨different, others⟩ := other
    have same := tellable_settle (t := t) different
    have later := ih others
    rw [dues, dues] at later ⊢
    by_cases tells : t.tellable first = true
    · rw [List.takeWhile_cons_of_pos (same.trans tells), List.takeWhile_cons_of_pos tells, List.filterMap_cons,
        List.filterMap_cons, due_settle different, later]
    · rw [List.takeWhile_cons_of_neg (same ▸ tells), List.takeWhile_cons_of_neg tells]
      rfl

theorem dues_cons (tells : t.tellable job = true) (other : job ∉ jobs) :
    t.dues (job :: jobs) = (t.due job).toList ++ (t.settle job).dues jobs := by
  rw [dues_settle other, dues, List.takeWhile_cons_of_pos tells, List.filterMap_cons]
  cases t.due job <;> rfl

/-- What a tour finds is the first that is due. -/
theorem Tour.dues (tour : t.Tour jobs found u) (apart : (jobs ++ rest).Nodup) :
    t.dues (jobs ++ rest) = found.toList.map Prod.snd ++ u.dues rest := by
  induction tour with
  | done => rfl
  | idle run _ ih =>
    rw [List.cons_append] at apart ⊢
    obtain ⟨fresh, apart⟩ := List.nodup_cons.mp apart
    obtain ⟨_, nothing, rfl⟩ := visit_eq_ok run
    rw [dues_cons (tellable_of_visit run) fresh, ← nothing]
    exact ih apart
  | find run =>
    rw [List.singleton_append] at apart ⊢
    obtain ⟨fresh, _⟩ := List.nodup_cons.mp apart
    obtain ⟨_, due, rfl⟩ := visit_eq_ok run
    rw [dues_cons (tellable_of_visit run) fresh, ← due]
    rfl

/-- Where visits find nothing, nothing is due. -/
theorem dues_of_visits (there : ∀ job ∈ jobs, t.Has job) (apart : jobs.Nodup) (tour : t.Tour (t.visits jobs) none u) :
    t.dues jobs = [] := by
  induction jobs generalizing t with
  | nil => rfl
  | cons job rest ih =>
    obtain ⟨here, later⟩ := List.forall_mem_cons.mp there
    obtain ⟨fresh, apart⟩ := List.nodup_cons.mp apart
    rw [visits] at tour
    cases run : t.visit job with
    | error fault =>
      have untold : ¬t.tellable job = true := fun tells => by cases run.symm.trans (visit_of_tellable here tells)
      rw [dues, List.takeWhile_cons_of_neg untold]
      rfl
    | ok result =>
      obtain ⟨seen, after⟩ := result
      obtain ⟨_, due, rfl⟩ := visit_eq_ok run
      rw [run] at tour
      cases seen with
      | some o =>
        cases tour with
        | idle other => cases run.symm.trans other
      | none =>
        simp only at tour
        generalize more : (t.settle job).visits rest = visited at tour
        cases tour with
        | idle other onward =>
          cases run.symm.trans other
          subst more
          rw [dues_cons (tellable_of_visit run) fresh, ← due]
          exact ih (fun other member => (later other member).settle) apart onward

/-- Whatever else was done to a tree, its counters are what they were, but for new ones. -/
structure Keeps (u t : Tree) : Prop where
  extended : u.Extends t
  retained : u.Retains t
  follows : u.Follows t
  counters : ∀ h, u.counterAt h = t.counterAt h

theorem Keeps.dueCounter (keeps : u.Keeps t) : u.dueCounter = t.dueCounter := by
  funext job
  cases job with
  | gauge h => rfl
  | counter h =>
    show u.due (.counter h) = t.due (.counter h)
    rw [due_counter, due_counter, keeps.counters]
    cases atScope : t.scope? h.scope with
    | some s =>
      obtain ⟨r, there, stem, tags⟩ := keeps.retained.scopes atScope
      simp only [label?, atScope, there, Option.map_some, Scope.qualify, stem, tags, keeps.retained.separator]
    | none =>
      have absent : t.counterAt h = .fresh := by rw [counterAt, counter?, atScope]; rfl
      have unlabelled : t.label? h = none := by rw [label?, atScope]; rfl
      rw [absent, unlabelled]
      cases u.label? h <;> rfl

theorem Keeps.tellable (keeps : u.Keeps t) : u.tellable = t.tellable := by
  funext job
  cases job with
  | gauge h => rfl
  | counter h => rw [Tree.tellable, Tree.tellable, keeps.counters]

theorem Follows.scopeJobs (follows : u.Follows t) (i : Text) : (t.scopeJobs i).Sublist (u.scopeJobs i) :=
  ((follows.counters i).sublist.map _).append ((follows.gauges i).sublist.map _)

/-- A pass goes on to visit what it was to visit in the same order, with what is new in between. -/
theorem Follows.passJobs (follows : u.Follows t) (p : Pass) : (p.jobs t).Sublist (p.jobs u) := by
  obtain ⟨waiting, cursor, tally⟩ := p
  refine List.Sublist.append ?_ ?_
  · cases cursor with
    | counters i names => exact (List.Sublist.refl _).append ((follows.gauges i).sublist.map _)
    | gauges i names => exact .refl _
  · show (waiting.flatMap t.scopeJobs).Sublist (waiting.flatMap u.scopeJobs)
    induction waiting with
    | nil => exact .refl _
    | cons i rest ih =>
      rw [List.flatMap_cons, List.flatMap_cons]
      exact (follows.scopeJobs i).append ih

/-- A pass has the same counters to report, whatever else was done to the tree. -/
theorem Keeps.dues {p : Pass} (keeps : u.Keeps t) (apart : (p.jobs u).Nodup) :
    (u.dues (p.jobs u)).filter Observation.isCounter = (t.dues (p.jobs t)).filter Observation.isCounter := by
  rw [filter_dues, filter_dues, keeps.dueCounter, keeps.tellable]
  refine filterMap_takeWhile_of_sublist (keeps.follows.passJobs p) apart fun job member absent => ?_
  cases job with
  | gauge h => exact ⟨rfl, rfl⟩
  | counter h =>
    have unmade : t.counter? h = none := by
      refine Option.not_isSome_iff_eq_none.mp fun there => absent ?_
      exact (mem_jobs_iff_of_has keeps.extended (show t.Has (.counter h) from there)).mp member
    have fresh : t.counterAt h = .fresh := by rw [counterAt, unmade]; rfl
    refine ⟨by rw [Tree.tellable, fresh]; rfl, ?_⟩
    show t.due (.counter h) = none
    rw [due_counter, fresh]
    cases t.label? h <;> rfl

end Tree

namespace Course

variable {c d : Course} {s : Stage}

/-- Only an amount for a counter changes a counter, as long as a pass is under way. -/
theorem keeps_take {step : Step} (engaged : c.loop.busy = true ∨ c.loop.phase.isOver = true)
    (outside : step.isErrand = true) (unadded : ∀ h amount, step ≠ .request (.inc h amount)) :
    (c.take step).loop.tree.Keeps c.loop.tree := by
  obtain ⟨events, aside⟩ := errand_aside engaged outside
  refine ⟨aside.extended, c.retains_run [step], c.follows_run [step], fun h => ?_⟩
  have none : amounts h events = [] := by
    obtain ⟨others, past, effect⟩ := c.take_effect step
    obtain rfl : others = events := List.append_cancel_left (past.symm.trans aside.past)
    cases effect with
    | sweep _ _ noWrite => exact amounts_of_noWrite noWrite
    | granted asked run =>
      refine List.filterMap_eq_nil_iff.mpr fun e member => ?_
      cases e with
      | added k n =>
        obtain ⟨amount, rfl, _⟩ := Request.perform_added run member
        exact absurd asked (unadded k amount)
      | _ => rfl
  exact Cell.counter.inj ((aside.written (.counter h)).counter_eq none)

/-- The counters that the reporter was told of, one after the other. -/
def countersTold (events : List Event) : List Observation :=
  ((events.filterMap Event.observed?).map Prod.snd).filter Observation.isCounter

theorem countersTold_append (events more : List Event) :
    countersTold (events ++ more) = countersTold events ++ countersTold more := by
  rw [countersTold, List.filterMap_append, List.map_append, List.filter_append]
  rfl

/-- What a pass has come to that is still to tell the reporter of these counters. -/
inductive Awaits (c : Course) (duty : Duty) (rest : List Observation) : Prop
  | report {p : Pass} {o : Observation} (waits : c.waiting = [.observing duty p o]) (scopes : p.scopes.Nodup)
      (apart : (p.jobs c.loop.tree).Nodup) (there : ∀ job ∈ p.jobs c.loop.tree, c.loop.tree.Has job)
      (dues : (c.loop.tree.dues (p.jobs c.loop.tree)).filter Observation.isCounter = rest)
  | flush {tally : Summary} (waits : c.waiting = [.flushing duty tally]) (none : rest = [])
  | cut (rests : c.waiting = []) (none : rest = [])

/-- A search of a pass misses no counter that can be told, and that there is something to report of. -/
theorem awaits_of_search (l : Loop) (duty : Duty) (tally : Summary) {t : Tree} {jobs : List Job}
    {found : Except Fault (Option (Observation × Pass)) × Tree} (before : List Event) (plan : Option Plan)
    (notices : List Notice) (none : c.waiting = []) (uncalled : before.filterMap Event.observed? = [])
    (apart : jobs.Nodup) (there : ∀ job ∈ jobs, t.Has job)
    (tours : t.Tours jobs (·.cursor.scope) (Pass.jobs found.2) found)
    (searches : t.Searches jobs (Tree.isOver found.1)
      (found.1.toOption.join.map fun found => (found.2.cursor.scope, found.1)) found.2)
    (scopes : ∀ o p, found.1 = .ok (some (o, p)) → p.scopes.Nodup) :
    let d := c.move before plan (Move.after notices (l.pass duty tally found))
    ∃ events rest, d.past = c.past ++ events ∧ d.Awaits duty rest ∧
      (t.dues jobs).filter Observation.isCounter = countersTold events ++ rest := by
  intro d
  have past : d.past = c.past ++ (before ++ own plan (Move.after notices (l.pass duty tally found))) :=
    past_move _ _ _ _
  have told : countersTold (before ++ own plan (Move.after notices (l.pass duty tally found))) =
      ((Move.after notices (l.pass duty tally found)).observed?.toList.map Prod.snd).filter Observation.isCounter := by
    rw [countersTold, List.filterMap_append, uncalled, filterMap_own, List.nil_append]
  obtain ⟨fault | _ | ⟨o, p⟩, u⟩ := found
  · refine ⟨_, [], past, .cut none rfl, ?_⟩
    rw [told, Tree.dues_of_visits there apart searches.visits]
    rfl
  · refine ⟨_, [], past, .flush (congrArg _ none) rfl, ?_⟩
    rw [told, Tree.dues_of_visits there apart searches.visits]
    rfl
  · obtain ⟨visited, rfl, tour⟩ := tours
    have later : ∀ job ∈ p.jobs u, u.Has job := fun job member =>
      (there job (List.mem_append_right _ member)).extends tour.extends
    refine ⟨_, _, past, .report (congrArg _ none) (scopes o p rfl) apart.of_append_right later rfl, ?_⟩
    rw [told, tour.dues apart, List.filter_append]
    rfl

/-- A pass that began after a past is under way. Of these counters, which it is to report, it has told the reporter of
some, and will come to the others. -/
structure Tells (past : List Event) (duty : Duty) (due : List Observation) (c : Course) : Prop where
  here : ∃ s, c.At s
  distinct : c.loop.tree.Distinct
  tells : ∃ events rest, c.past = past ++ events ∧ c.Awaits duty rest ∧ countersTold events ++ rest = due

variable {past : List Event} {duty : Duty} {due : List Observation} {p : Pass} {o : Observation}

theorem distinct_steps (distinct : c.loop.tree.Distinct) (steps : List Step) : (c.run steps).loop.tree.Distinct :=
  tree_induction distinct (fun run => (Request.perform_change run).distinct) Tree.Visit.distinct

/-- What the reporter does in a call, without an amount for a counter, leaves the pass what it has to do. -/
theorem Tells.errand {step : Step} (tells : Tells past duty due c) (waits : c.waiting = [.observing duty p o])
    (outside : step.isErrand = true) (unadded : ∀ h amount, step ≠ .request (.inc h amount)) :
    Tells past duty due (c.take step) ∧ (c.take step).waiting = [.observing duty p o] := by
  obtain ⟨⟨s, here⟩, distinct, events, rest, grown, awaits, whole⟩ := tells
  have engaged := here.engaged (waiting_ne_nil waits)
  obtain ⟨others, aside⟩ := errand_aside engaged outside
  have keeps := keeps_take engaged outside unadded
  obtain ⟨_, next, advances⟩ := take_advances here step
  have distinctly : (c.take step).loop.tree.Distinct := distinct_steps distinct [step]
  have still : (c.take step).waiting = [.observing duty p o] := aside.waiting.trans waits
  have untold : countersTold (events ++ others) = countersTold events := by
    rw [countersTold_append, countersTold, countersTold, uncalled_of_aside aside.aside]
    exact List.append_nil _
  refine ⟨⟨⟨next, advances.here⟩, distinctly, events ++ others, rest, ?_, ?_, untold ▸ whole⟩, still⟩
  · rw [aside.past, grown, List.append_assoc]
  · cases awaits with
    | flush flushes => cases flushes.symm.trans waits
    | cut rests => cases rests.symm.trans waits
    | report same scopes apart there dues =>
      cases same.symm.trans waits
      have apartStill := Tree.nodup_passJobs distinctly scopes apart
      exact .report still scopes apartStill (fun job member => Tree.has_of_mem_passJobs there keeps.extended member)
        ((keeps.dues apartStill).trans dues)

/-- When a call has come out without an interruption, the pass goes on. -/
theorem Tells.outcome {out : Outcome} (tells : Tells past duty due c) (waits : c.waiting = [.observing duty p o])
    (calm : out.aborts = false) : Tells past duty due (c.take (.outcome out)) := by
  obtain ⟨⟨s, here⟩, distinct, events, rest, grown, awaits, whole⟩ := tells
  obtain ⟨_, next, advances⟩ := take_advances here (.outcome out)
  cases awaits with
  | flush flushes => cases flushes.symm.trans waits
  | cut rests => cases rests.symm.trans waits
  | report same scopes apart there dues =>
    cases same.symm.trans waits
    obtain ⟨notices, resumes⟩ := c.loop.resume_observing duty p o calm
    generalize Loop.tallied p.tally o out = tally at resumes
    have taken : c.take (.outcome out) = { c with waiting := [] }.move [.came (.observing duty p o) out] none
        (Move.after notices (c.loop.pass duty tally (c.loop.tree.continuePass { p with tally := tally }))) := by
      simp only [take, waits, Activity.plan?, resumes]
    have within : ∀ o q, (c.loop.tree.continuePass { p with tally := tally }).1 = .ok (some (o, q)) → q.scopes.Nodup :=
      fun o q run => scopes.sublist
        (Tree.continuePass_scopes (p := { p with tally := tally }) (Prod.ext run rfl)).sublist
    obtain ⟨others, later, past, goesOn, split⟩ := awaits_of_search (c := { c with waiting := [] }) c.loop
      duty tally [.came (.observing duty p o) out] none notices rfl rfl apart there
      (c.loop.tree.continuePass_tours { p with tally := tally })
      (c.loop.tree.continuePass_searches { p with tally := tally }) within
    rw [← taken] at past goesOn
    refine ⟨⟨next, advances.here⟩, distinct_steps distinct [.outcome out], events ++ others, later, ?_, goesOn, ?_⟩
    · rw [past, grown, List.append_assoc]
    · rw [countersTold_append, List.append_assoc, ← split, ← whole]
      exact congrArg _ dues

/-- Does a reporter add to no counter in its calls, and interrupt none? -/
structure Script.Gentle (script : Script) : Prop where
  unadded : ∀ past h amount, .request (.inc h amount) ∉ script.errands past
  calm : ∀ past, (script.outcome past).aborts = false

/-- A pass takes its course with a reporter, up to its flush, or to where it is cut short. -/
inductive Script.Passes (script : Script) (duty : Duty) : Course → Course → Prop
  | call {c d : Course} {p : Pass} {o : Observation} (waits : c.waiting = [.observing duty p o])
      (later : Passes script duty (script.serve c) d) : Passes script duty c d
  | flush {c : Course} {tally : Summary} (waits : c.waiting = [.flushing duty tally]) : Passes script duty c c
  | cut {c : Course} (rests : c.waiting = []) : Passes script duty c c

variable {script : Script}

theorem Tells.serve (tells : Tells past duty due c) (gentle : script.Gentle)
    (waits : c.waiting = [.observing duty p o]) : Tells past duty due (script.serve c) := by
  have errands : Tells past duty due (c.run (script.errands c.past)) ∧
      (c.run (script.errands c.past)).waiting = [.observing duty p o] :=
    run_induction (P := fun d => Tells past duty due d ∧ d.waiting = [.observing duty p o]) ⟨tells, waits⟩
      fun d step member before => before.1.errand before.2 (script.outside c.past step member)
        fun h amount added => gentle.unadded c.past h amount (added ▸ member)
  exact errands.1.outcome errands.2 (gentle.calm _)

/-- At the end of a pass, the reporter has been told of all counters that were to be reported. -/
theorem Tells.passes (gentle : script.Gentle) (tells : Tells past duty due c) :
    ∃ d events, script.Passes duty c d ∧ d.past = past ++ events ∧ countersTold events = due := by
  obtain ⟨s, here⟩ := tells.here
  obtain ⟨enough, ended⟩ := here.serve_ends script
  induction enough generalizing c s with
  | zero =>
    obtain ⟨events, rest, grown, awaits, whole⟩ := tells.tells
    cases awaits with
    | report waits => cases waits.symm.trans ended
    | flush waits => cases waits.symm.trans ended
    | cut rests none =>
      subst none
      exact ⟨c, events, .cut rests, grown, List.append_nil (countersTold events) ▸ whole⟩
  | succ m ih =>
    obtain ⟨events, rest, grown, awaits, whole⟩ := tells.tells
    cases awaits with
    | report waits =>
      have served := tells.serve gentle waits
      obtain ⟨next, there⟩ := served.here
      obtain ⟨d, events, passes, later⟩ := ih served next there ended
      exact ⟨d, events, .call waits passes, later⟩
    | flush waits none =>
      subst none
      exact ⟨c, events, .flush waits, grown, List.append_nil (countersTold events) ▸ whole⟩
    | cut rests none =>
      subst none
      exact ⟨c, events, .cut rests, grown, List.append_nil (countersTold events) ▸ whole⟩

/-- A pass that begins is to report what there is to report of all counters, up to the first that cannot be told. -/
theorem begun_tells {l : Loop} (before : List Event) (duty : Duty) (none : c.waiting = [])
    (uncalled : before.filterMap Event.observed? = []) (distinct : l.tree.Distinct)
    (here : ∃ s, (c.move before (some (.pass duty)) (l.follow (.pass duty))).At s)
    (after : (c.move before (some (.pass duty)) (l.follow (.pass duty))).loop.tree.Distinct) :
    Tells c.past duty ((l.tree.dues l.tree.jobs).filter Observation.isCounter)
      (c.move before (some (.pass duty)) (l.follow (.pass duty))) := by
  have scopes : ∀ o p, l.tree.beginPass.1 = .ok (some (o, p)) → p.scopes.Nodup :=
    fun o p run => distinct.identities.sublist (Tree.enter_scopes (Prod.ext run rfl)).sublist
  obtain ⟨events, rest, past, goesOn, split⟩ := awaits_of_search l duty .empty before
    (some (.pass duty)) [] none uncalled (Tree.nodup_jobs distinct) (fun _ => Tree.has_of_mem_jobs)
    (l.tree.enter_tours .empty l.tree.identities) (l.tree.enter_searches .empty l.tree.identities) scopes
  exact ⟨here, after, events, rest, past, goesOn, split.symm⟩

/-- The pass that a call from outside makes, if it makes one. -/
inductive Makes : Step → Duty → Prop
  | report : Makes .report .report
  | close : Makes .close .close

theorem Makes.tells {step : Step} (makes : Makes step duty) (here : ∃ s, c.At s) (none : c.waiting = [])
    (unclosed : c.loop.phase.isOver = false) (attached : c.loop.reporter.isSome) (distinct : c.loop.tree.Distinct) :
    Tells c.past duty ((c.loop.tree.dues c.loop.tree.jobs).filter Observation.isCounter) (c.take step) := by
  obtain ⟨s, here⟩ := here
  have rest := here.rest_of_none none
  obtain ⟨_, next, advances⟩ := take_advances here step
  have after : (c.take step).loop.tree.Distinct := distinct_steps distinct [step]
  cases makes with
  | report =>
    rw [take_report_of_rest rest unclosed attached] at advances after ⊢
    exact begun_tells [] .report none rfl distinct ⟨next, advances.here⟩ after
  | close =>
    rw [take_close_of_rest rest unclosed attached] at advances after ⊢
    exact begun_tells (l := { c.loop with phase := .closing }) [.closing] .close none rfl distinct
      ⟨next, advances.here⟩ after

end Course

end MetricTree
