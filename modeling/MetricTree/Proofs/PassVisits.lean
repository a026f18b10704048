import MetricTree.Proofs.LoopMoves
import MetricTree.Proofs.PassTours

namespace MetricTree

namespace Tree

/-- The metrics that a pass with these jobs visits up to the next call: the last of them is the first with something to
report, unless there is none, or unless one cannot be visited. -/
def visits (t : Tree) : List Job → List Job
  | [] => []
  | job :: rest =>
    match t.visit job with
    | .error _ => []
    | .ok (none, after) => job :: after.visits rest
    | .ok (some _, _) => [job]

variable {α : Type} {t u v : Tree} {i : Text} {jobs more : List Job} {goesOn : Bool}
  {found : Option (Text × Observation)}

/-- A search makes the visits of its jobs, and the visits of what comes next only if it goes on. -/
def Searches (t : Tree) (jobs : List Job) (goesOn : Bool) (found : Option (Text × Observation)) (u : Tree) : Prop :=
  ∃ first, t.Tour first found u ∧ ∀ more, t.visits (jobs ++ more) = first ++ if goesOn then u.visits more else []

/-- A pass goes on after a search that has come to its end without a find. -/
def isOver : Except Fault (Option α) → Bool
  | .ok none => true
  | _ => false

theorem Searches.nil : t.Searches [] true none t := ⟨[], .done, fun _ => rfl⟩

theorem Searches.stop (first : t.Searches jobs false found u) (more : List Job) :
    t.Searches (jobs ++ more) false found u := by
  obtain ⟨visited, tour, visits⟩ := first
  exact ⟨visited, tour, fun next => by rw [List.append_assoc, visits]; rfl⟩

theorem Searches.after (first : t.Searches jobs true none u) (rest : u.Searches more goesOn found v) :
    t.Searches (jobs ++ more) goesOn found v := by
  obtain ⟨sooner, tour, visits⟩ := first
  obtain ⟨later, onward, others⟩ := rest
  refine ⟨sooner ++ later, tour.trans onward, fun next => ?_⟩
  rw [List.append_assoc, visits, if_pos rfl, others, List.append_assoc]

theorem Searches.visits (searches : t.Searches jobs goesOn found u) : t.Tour (t.visits jobs) found u := by
  obtain ⟨first, tour, visits⟩ := searches
  have all := visits []
  rw [List.append_nil, Tree.visits, ite_self, List.append_nil] at all
  exact all ▸ tour

theorem scan_searches (visit : Tree → Text → Except Fault (Option Observation × Tree)) (job : Text → Job)
    (visits : ∀ t name, visit t name = t.visit (job name)) (inScope : ∀ name, (job name).scope = i)
    (t : Tree) (names : List Text) :
    t.Searches (names.map job) (isOver (scan visit t names).1)
      ((scan visit t names).1.toOption.join.map fun found => (i, found.1)) (scan visit t names).2 := by
  induction names generalizing t with
  | nil => exact .nil
  | cons name rest ih =>
    unfold scan
    split
    · next fault failed =>
      rw [visits] at failed
      refine ⟨[], .done, fun more => ?_⟩
      rw [List.map_cons, List.cons_append, Tree.visits, failed]
      rfl
    · next after idle =>
      rw [visits] at idle
      have first : t.Searches [job name] true none after := by
        refine ⟨[job name], .idle idle .done, fun more => ?_⟩
        rw [List.singleton_append, Tree.visits, idle]
        rfl
      exact first.after (ih after)
    · next o after found =>
      rw [visits] at found
      refine ⟨[job name], ?_, fun more => ?_⟩
      · have tour := Tour.find found
        rwa [inScope name] at tour
      · rw [List.map_cons, List.cons_append, Tree.visits, found]
        rfl

theorem nextWithin_gauges_searches (t : Tree) (i : Text) (names : List Text) :
    t.Searches ((Cursor.gauges i names).jobs t) (isOver (t.nextWithin (.gauges i names)).1)
      ((t.nextWithin (.gauges i names)).1.toOption.join.map fun found => (found.2.scope, found.1))
      (t.nextWithin (.gauges i names)).2 := by
  have gauges := scan_searches (visitGauge · i) (.gauge ⟨i, ·⟩) (fun _ _ => rfl) (fun _ => rfl) t names
  simp only [nextWithin]
  rcases run : scan (visitGauge · i) t names with ⟨fault | _ | ⟨o, rest⟩, after⟩ <;> (rw [run] at gauges; exact gauges)

theorem nextWithin_searches (t : Tree) (cursor : Cursor) :
    t.Searches (cursor.jobs t) (isOver (t.nextWithin cursor).1)
      ((t.nextWithin cursor).1.toOption.join.map fun found => (found.2.scope, found.1)) (t.nextWithin cursor).2 := by
  cases cursor with
  | gauges i names => exact nextWithin_gauges_searches t i names
  | counters i names =>
    have counters := scan_searches (visitCounter · i) (.counter ⟨i, ·⟩) (fun _ _ => rfl) (fun _ => rfl) t names
    have sweep := scan_sweeps (visitCounter · i) visitCounter_visits t names
    rcases run : scan (visitCounter · i) t names with ⟨fault | _ | ⟨o, rest⟩, after⟩ <;> rw [run] at counters sweep
    · simp only [nextWithin, run]
      exact counters.stop _
    · rw [nextWithin_counters_of_scan run, Cursor.jobs, ← (sweep.names i).2]
      exact counters.after (nextWithin_gauges_searches after i _)
    · simp only [nextWithin, run]
      exact counters.stop _

theorem enter_searches (t : Tree) (tally : Summary) (scopes : List Text) :
    t.Searches (scopes.flatMap t.scopeJobs) (isOver (t.enter tally scopes).1)
      ((t.enter tally scopes).1.toOption.join.map fun found => (found.2.cursor.scope, found.1))
      (t.enter tally scopes).2 := by
  induction scopes generalizing t with
  | nil => exact .nil
  | cons i waiting ih =>
    have within := t.nextWithin_searches (.counters i (t.counterNames i))
    have sweep := nextWithin_sweeps t (.counters i (t.counterNames i))
    rw [List.flatMap_cons]
    rcases run : t.nextWithin (.counters i (t.counterNames i)) with ⟨fault | _ | ⟨o, cursor⟩, after⟩ <;>
      rw [run] at within sweep
    · simp only [enter, run]
      exact within.stop _
    · have others := ih after
      rw [show after.scopeJobs = t.scopeJobs from scopeJobs_of_sweep sweep] at others
      simp only [enter, run]
      exact within.after others
    · simp only [enter, run]
      exact within.stop _

theorem continuePass_searches (t : Tree) (p : Pass) :
    t.Searches (p.jobs t) (isOver (t.continuePass p).1)
      ((t.continuePass p).1.toOption.join.map fun found => (found.2.cursor.scope, found.1)) (t.continuePass p).2 := by
  have within := t.nextWithin_searches p.cursor
  have sweep := nextWithin_sweeps t p.cursor
  rcases run : t.nextWithin p.cursor with ⟨fault | _ | ⟨o, cursor⟩, after⟩ <;> rw [run] at within sweep
  · simp only [continuePass, run]
    exact within.stop _
  · simp only [continuePass, run]
    rw [Pass.jobs, ← scopeJobs_of_sweep sweep]
    exact within.after (enter_searches after p.tally p.waiting)
  · simp only [continuePass, run]
    exact within.stop _

end Tree

/-- The metrics that a plan has to visit. -/
def Plan.jobs (t : Tree) : Plan → List Job
  | .pass _ => t.jobs
  | _ => []

/-- The metrics that are still to be visited when an activity's call has come out. -/
def Activity.jobs (l : Loop) (a : Activity) (o : Outcome) : List Job :=
  match a with
  | .observing _ p _ => if o.aborts then [] else p.jobs l.tree
  | _ => ((a.plan? l o).map (Plan.jobs l.tree)).getD []

namespace Loop

variable (l : Loop)

theorem pass_tour {t : Tree} {jobs : List Job} {goesOn : Bool} (duty : Duty) (tally : Summary)
    {found : Except Fault (Option (Observation × Pass)) × Tree}
    (searches :
      t.Searches jobs goesOn (found.1.toOption.join.map fun found => (found.2.cursor.scope, found.1)) found.2) :
    t.Tour (t.visits jobs) (l.pass duty tally found).observed? (l.pass duty tally found).loop.tree := by
  rcases found with ⟨_ | _ | ⟨o, p⟩, after⟩ <;> exact searches.visits

theorem leave_tour (last : Summary) (answer : Option Summary) :
    l.tree.Tour [] (l.leave last answer).observed? (l.leave last answer).loop.tree := by
  unfold leave
  simp only
  split <;> exact .done

theorem follow_tour (plan : Plan) :
    l.tree.Tour (l.tree.visits (plan.jobs l.tree)) (l.follow plan).observed? (l.follow plan).loop.tree := by
  cases plan with
  | pass duty => exact l.pass_tour duty .empty (Tree.enter_searches _ _ _)
  | leave last answer => exact l.leave_tour last answer
  | answer answer => exact .done

theorem report_tour :
    l.tree.Tour (l.tree.visits (l.planReport.jobs l.tree)) l.report.observed? l.report.loop.tree :=
  l.follow_tour _

theorem close_tour : l.tree.Tour (l.tree.visits (l.planClose.jobs l.tree)) l.close.observed? l.close.loop.tree := by
  unfold close
  split
  · exact l.follow_tour _
  · exact follow_tour { l with phase := .closing } _

theorem resume_tour (a : Activity) (o : Outcome) :
    l.tree.Tour (l.tree.visits (a.jobs l o)) (l.resume a o).observed? (l.resume a o).loop.tree := by
  cases a with
  | observing duty p seen =>
    cases o with
    | aborted message => exact .done
    | returned => exact l.pass_tour duty _ (Tree.continuePass_searches _ { p with tally := _ })
    | failed failure => exact l.pass_tour duty _ (Tree.continuePass_searches _ { p with tally := _ })
  | flushing duty tally =>
    cases o with
    | aborted message => exact .done
    | returned => exact follow_tour { l with passes := l.passes + 1, busy := false } _
    | failed failure => exact follow_tour { l with passes := l.passes + 1, busy := false } _
  | leaving answer => cases o <;> exact .done

end Loop

end MetricTree
