import MetricTree.Proofs.Cells

namespace MetricTree

namespace Tree

/-- Visits to metrics one after the other, up to the first that finds something to report, if one does. What it finds
comes with the scope that it is in. -/
inductive Tour : Tree → List Job → Option (Text × Observation) → Tree → Prop
  | done {t : Tree} : Tour t [] none t
  | idle {t u v : Tree} {job : Job} {jobs : List Job} {found : Option (Text × Observation)}
      (run : t.visit job = .ok (none, u)) (rest : Tour u jobs found v) : Tour t (job :: jobs) found v
  | find {t u : Tree} {job : Job} {o : Observation} (run : t.visit job = .ok (some o, u)) :
      Tour t [job] (some (job.scope, o)) u

variable {α : Type} {t u v : Tree} {i : Text} {jobs more : List Job} {found : Option (Text × Observation)}

/-- A search goes through jobs in their order: through all of them if it finds nothing, or else up to what it finds,
and leaves the others. -/
def Tours (t : Tree) (jobs : List Job) (scope : α → Text) (left : α → List Job)
    (result : Except Fault (Option (Observation × α)) × Tree) : Prop :=
  match result.1 with
  | .error _ => True
  | .ok none => t.Tour jobs none result.2
  | .ok (some (o, rest)) => ∃ visited, jobs = visited ++ left rest ∧ t.Tour visited (some (scope rest, o)) result.2

theorem Tour.trans (first : t.Tour jobs none u) (rest : u.Tour more found v) : t.Tour (jobs ++ more) found v := by
  generalize same : (none : Option (Text × Observation)) = nothing at first
  induction first with
  | done => exact rest
  | idle run _ ih => exact .idle run (ih rest same)
  | find => cases same

/-- A search that goes on after one that found nothing goes through the jobs of both. -/
theorem Tours.after {scope : α → Text} {left : α → List Job}
    {result : Except Fault (Option (Observation × α)) × Tree} (first : t.Tour jobs none u)
    (rest : u.Tours more scope left result) : t.Tours (jobs ++ more) scope left result := by
  obtain ⟨fault | _ | ⟨o, remaining⟩, after⟩ := result
  · trivial
  · exact first.trans rest
  · obtain ⟨visited, rfl, tour⟩ := rest
    exact ⟨jobs ++ visited, (List.append_assoc ..).symm, first.trans tour⟩

theorem scan_tours (visit : Tree → Text → Except Fault (Option Observation × Tree)) (job : Text → Job)
    (visits : ∀ t name, visit t name = t.visit (job name)) (inScope : ∀ name, (job name).scope = i)
    (t : Tree) (names : List Text) :
    t.Tours (names.map job) (fun _ => i) (·.map job) (scan visit t names) := by
  induction names generalizing t with
  | nil => exact Tour.done
  | cons name rest ih =>
    unfold scan
    split
    · trivial
    · next idle => exact .after (.idle (visits t name ▸ idle) .done) (ih _)
    · next o after found =>
      refine ⟨[job name], rfl, ?_⟩
      rw [← inScope name]
      exact .find (visits t name ▸ found)

theorem nextWithin_gauges_tours (t : Tree) (i : Text) (names : List Text) :
    t.Tours ((Cursor.gauges i names).jobs t) Cursor.scope (Cursor.jobs (t.nextWithin (.gauges i names)).2)
      (t.nextWithin (.gauges i names)) := by
  have gauges := scan_tours (visitGauge · i) (.gauge ⟨i, ·⟩) (fun _ _ => rfl) (fun _ => rfl) t names
  simp only [nextWithin]
  rcases run : scan (visitGauge · i) t names with ⟨fault | _ | ⟨o, rest⟩, after⟩ <;> (rw [run] at gauges; exact gauges)

theorem nextWithin_tours (t : Tree) (cursor : Cursor) :
    t.Tours (cursor.jobs t) Cursor.scope (Cursor.jobs (t.nextWithin cursor).2) (t.nextWithin cursor) := by
  cases cursor with
  | gauges i names => exact nextWithin_gauges_tours t i names
  | counters i names =>
    have counters := scan_tours (visitCounter · i) (.counter ⟨i, ·⟩) (fun _ _ => rfl) (fun _ => rfl) t names
    have sweep := scan_sweeps (visitCounter · i) visitCounter_visits t names
    rcases run : scan (visitCounter · i) t names with ⟨fault | _ | ⟨o, rest⟩, after⟩ <;> rw [run] at counters sweep
    · simp only [nextWithin, run]
      trivial
    · rw [nextWithin_counters_of_scan run, Cursor.jobs, ← (sweep.names i).2]
      exact .after counters (nextWithin_gauges_tours after i _)
    · obtain ⟨visited, same, tour⟩ := counters
      simp only [nextWithin, run]
      refine ⟨visited, ?_, tour⟩
      rw [Cursor.jobs, Cursor.jobs, (sweep.names i).2, ← List.append_assoc, same]

theorem enter_tours (t : Tree) (tally : Summary) (scopes : List Text) :
    t.Tours (scopes.flatMap t.scopeJobs) (·.cursor.scope) (Pass.jobs (t.enter tally scopes).2)
      (t.enter tally scopes) := by
  induction scopes generalizing t with
  | nil => exact Tour.done
  | cons i waiting ih =>
    have within := t.nextWithin_tours (.counters i (t.counterNames i))
    have sweep := nextWithin_sweeps t (.counters i (t.counterNames i))
    rw [List.flatMap_cons]
    rcases run : t.nextWithin (.counters i (t.counterNames i)) with ⟨fault | _ | ⟨o, cursor⟩, after⟩ <;>
      rw [run] at within sweep
    · simp only [enter, run]
      trivial
    · simp only [enter, run]
      rw [← scopeJobs_of_sweep sweep]
      exact .after (scopeJobs_of_sweep sweep ▸ within) (ih after)
    · obtain ⟨visited, same, tour⟩ := within
      simp only [enter, run]
      refine ⟨visited, ?_, tour⟩
      rw [Pass.jobs, scopeJobs_of_sweep sweep, ← List.append_assoc, ← same]
      rfl

theorem continuePass_tours (t : Tree) (p : Pass) :
    t.Tours (p.jobs t) (·.cursor.scope) (Pass.jobs (t.continuePass p).2) (t.continuePass p) := by
  have within := t.nextWithin_tours p.cursor
  have sweep := nextWithin_sweeps t p.cursor
  rcases run : t.nextWithin p.cursor with ⟨fault | _ | ⟨o, cursor⟩, after⟩ <;> rw [run] at within sweep
  · simp only [continuePass, run]
    trivial
  · simp only [continuePass, run]
    rw [Pass.jobs, ← scopeJobs_of_sweep sweep]
    exact .after within (enter_tours after p.tally p.waiting)
  · obtain ⟨visited, same, tour⟩ := within
    simp only [continuePass, run]
    refine ⟨visited, ?_, tour⟩
    rw [Pass.jobs, Pass.jobs, scopeJobs_of_sweep sweep, ← List.append_assoc, same]

end Tree

/-- The scopes of a pass: the one that it is in, and those that it has still to enter. -/
def Pass.scopes (p : Pass) : List Text := p.cursor.scope :: p.waiting

namespace Tree

variable {t u : Tree} {jobs : List Job} {found : Option (Text × Observation)} {job : Job}

theorem nextWithin_scope {cursor next : Cursor} {o : Observation}
    (run : t.nextWithin cursor = (.ok (some (o, next)), u)) : next.scope = cursor.scope := by
  have gauges : ∀ {t u : Tree} {i names}, t.nextWithin (.gauges i names) = (.ok (some (o, next)), u) →
      next.scope = i := by
    intro t u i names run
    rcases scanned : scan (visitGauge · i) t names with ⟨fault | _ | ⟨seen, rest⟩, after⟩ <;>
      (simp only [nextWithin, scanned] at run; cases run)
    rfl
  cases cursor with
  | gauges i names => exact gauges run
  | counters i names =>
    rcases scanned : scan (visitCounter · i) t names with ⟨fault | _ | ⟨seen, rest⟩, after⟩
    · simp only [nextWithin, scanned] at run
      cases run
    · rw [nextWithin_counters_of_scan scanned] at run
      exact gauges run
    · simp only [nextWithin, scanned] at run
      cases run
      rfl

theorem enter_scopes {tally : Summary} {scopes : List Text} {o : Observation} {p : Pass}
    (run : t.enter tally scopes = (.ok (some (o, p)), u)) : p.scopes <:+ scopes := by
  induction scopes generalizing t with
  | nil => cases run
  | cons i waiting ih =>
    rcases within : t.nextWithin (.counters i (t.counterNames i)) with ⟨fault | _ | ⟨seen, cursor⟩, after⟩ <;>
      simp only [enter, within] at run
    · cases run
    · exact (ih run).trans (List.suffix_cons i waiting)
    · cases run
      rw [Pass.scopes, nextWithin_scope within]
      exact List.suffix_refl _

/-- A pass enters no scopes but those that it has still to enter, in their order. -/
theorem continuePass_scopes {p next : Pass} {o : Observation}
    (run : t.continuePass p = (.ok (some (o, next)), u)) : next.scopes <:+ p.scopes := by
  rcases within : t.nextWithin p.cursor with ⟨fault | _ | ⟨seen, cursor⟩, after⟩ <;>
    simp only [continuePass, within] at run
  · cases run
  · exact (enter_scopes run).trans (List.suffix_cons _ _)
  · cases run
    rw [Pass.scopes, nextWithin_scope within]
    exact List.suffix_refl _

theorem Tour.extends (tour : t.Tour jobs found u) : u.Extends t := by
  induction tour with
  | done => exact .refl _
  | idle run _ ih =>
    obtain ⟨_, _, rfl⟩ := visit_eq_ok run
    exact ih.trans settle_extends
  | find run =>
    obtain ⟨_, _, rfl⟩ := visit_eq_ok run
    exact settle_extends

/-- What is visited has nothing left to report, and what is not remains as it is. -/
theorem Tour.cellAt (tour : t.Tour jobs found u) (apart : jobs.Nodup) :
    u.cellAt job = if job ∈ jobs then (t.cellAt job).settled else t.cellAt job := by
  induction tour with
  | done => rfl
  | @idle t u v first jobs found run _ ih =>
    obtain ⟨there, _, rfl⟩ := visit_eq_ok run
    rw [List.nodup_cons] at apart
    rw [ih apart.2, cellAt_settle there]
    by_cases same : job = first
    · rw [if_pos same, if_neg (same ▸ apart.1), if_pos (same ▸ List.mem_cons_self ..), same]
    · rw [if_neg same]
      simp only [List.mem_cons, same, false_or]
  | find run =>
    obtain ⟨there, _, rfl⟩ := visit_eq_ok run
    rw [cellAt_settle there]
    simp only [List.mem_singleton]
    split
    · next same => rw [same]
    · rfl

/-- Of what is visited there is told what was due, for it was due nowhere but where the tour stops. -/
theorem Tour.amountsOf (tour : t.Tour jobs found u) (apart : jobs.Nodup) :
    u.amountsOf job found.toList = if job ∈ jobs then (t.cellAt job).due.toList else [] := by
  induction tour with
  | done => rfl
  | @idle t u v first jobs found run rest ih =>
    obtain ⟨there, nothing, rfl⟩ := visit_eq_ok run
    rw [List.nodup_cons] at apart
    rw [ih apart.2, cellAt_settle there]
    by_cases same : job = first
    · have undue := amountsOf_due there job
      rw [← nothing, if_pos same] at undue
      rw [if_neg (same ▸ apart.1), if_pos (same ▸ List.mem_cons_self ..), same, ← undue]
      rfl
    · rw [if_neg same]
      simp only [List.mem_cons, same, false_or]
  | @find t u first o run =>
    obtain ⟨there, due, rfl⟩ := visit_eq_ok run
    have told := amountsOf_due there job
    rw [← due] at told
    rw [amountsOf_congr fun _ => fullName?_settle]
    simp only [List.mem_singleton]
    by_cases same : job = first
    · rw [if_pos same] at told ⊢
      rw [same] at told ⊢
      exact told
    · rw [if_neg same] at told ⊢
      exact told

end Tree

end MetricTree
