import MetricTree.Proofs.DistinctNames

namespace MetricTree

/-- A metric that a pass visits. -/
inductive Job where
  | counter (h : Handle)
  | gauge (h : Handle)
  deriving DecidableEq

namespace Tree

def visit (t : Tree) : Job → Except Fault (Option Observation × Tree)
  | .counter h => t.visitCounter h.scope h.name
  | .gauge h => t.visitGauge h.scope h.name

/-- All that is found by visiting metrics one after the other, and the tree that this leaves. -/
def collect (t : Tree) : List Job → Except Fault (List Observation × Tree)
  | [] => pure ([], t)
  | job :: rest => do
    let (found, after) ← t.visit job
    let (others, final) ← after.collect rest
    return (found.toList ++ others, final)

/-- The jobs of a scope: its counters, and then its gauges. -/
def scopeJobs (t : Tree) (i : Text) : List Job :=
  (t.counterNames i).map (.counter ⟨i, ·⟩) ++ (t.gaugeNames i).map (.gauge ⟨i, ·⟩)

end Tree

/-- What a pass has still to do in the scope that it is in. -/
def Cursor.jobs (t : Tree) : Cursor → List Job
  | .counters i names => names.map (.counter ⟨i, ·⟩) ++ (t.gaugeNames i).map (.gauge ⟨i, ·⟩)
  | .gauges i names => names.map (.gauge ⟨i, ·⟩)

def Pass.jobs (t : Tree) (p : Pass) : List Job := p.cursor.jobs t ++ p.waiting.flatMap t.scopeJobs

/-- What is collected from here on, after one find. -/
def Observation.before (o : Observation) (r : Except Fault (List Observation × Tree)) :
    Except Fault (List Observation × Tree) := r.map fun r => (o :: r.1, r.2)

namespace Tree

variable {α : Type} {t u : Tree} {i : Text} {more : List Job}

/-- What is collected after a search, from the tree that it left: what it found, then the jobs that it
left to be done, then all the others. -/
def collectAfter (t : Tree) (found : Except Fault (Option (Observation × α))) (left : α → List Job)
    (more : List Job) : Except Fault (List Observation × Tree) :=
  match found with
  | .error fault => .error fault
  | .ok none => t.collect more
  | .ok (some (o, rest)) => o.before (t.collect (left rest ++ more))

theorem collect_cons_of_none {job : Job} (run : t.visit job = .ok (none, u)) :
    t.collect (job :: more) = u.collect more := by
  simp only [collect, run, bind, Except.bind, Option.toList_none, List.nil_append]
  cases u.collect more <;> rfl

theorem collect_cons_of_some {job : Job} {o : Observation} (run : t.visit job = .ok (some o, u)) :
    t.collect (job :: more) = o.before (u.collect more) := by
  simp only [collect, run, bind, Except.bind, Option.toList_some, List.singleton_append]
  cases u.collect more <;> rfl

theorem collect_cons_of_error {job : Job} {fault : Fault} (run : t.visit job = .error fault) :
    t.collect (job :: more) = .error fault := by
  simp only [collect, run, bind, Except.bind]

/-- A scan stops at its first find; from there on, the same is collected as from its start. -/
theorem collect_of_scan (visit : Tree → Text → Except Fault (Option Observation × Tree)) {job : Text → Job}
    (visits : ∀ t name, visit t name = t.visit (job name)) (t : Tree) (names : List Text) :
    t.collect (names.map job ++ more) =
      (scan visit t names).2.collectAfter (scan visit t names).1 (·.map job) more := by
  induction names generalizing t with
  | nil => rfl
  | cons name rest ih =>
    unfold scan
    rw [List.map_cons, List.cons_append]
    split
    · next failed =>
      rw [visits] at failed
      exact collect_cons_of_error failed
    · next idle =>
      rw [visits] at idle
      rw [collect_cons_of_none idle]
      exact ih _
    · next found =>
      rw [visits] at found
      exact collect_cons_of_some found

theorem collect_of_gauges (t : Tree) (i : Text) (names : List Text) :
    t.collect (names.map (.gauge ⟨i, ·⟩) ++ more) =
      (t.nextWithin (.gauges i names)).2.collectAfter (t.nextWithin (.gauges i names)).1
        (Cursor.jobs (t.nextWithin (.gauges i names)).2) more := by
  rw [collect_of_scan (visitGauge · i) (fun _ _ => rfl)]
  simp only [nextWithin]
  rcases scan (visitGauge · i) t names with ⟨_ | _ | ⟨o, rest⟩, after⟩ <;> rfl

theorem collect_of_nextWithin (t : Tree) (cursor : Cursor) (more : List Job) :
    t.collect (cursor.jobs t ++ more) =
      (t.nextWithin cursor).2.collectAfter (t.nextWithin cursor).1 (Cursor.jobs (t.nextWithin cursor).2) more := by
  cases cursor with
  | gauges i names => exact collect_of_gauges t i names
  | counters i names =>
    rw [Cursor.jobs, List.append_assoc, collect_of_scan (visitCounter · i) (fun _ _ => rfl)]
    have sweep := scan_sweeps (visitCounter · i) visitCounter_visits t names
    rcases run : scan (visitCounter · i) t names with ⟨_ | _ | ⟨o, rest⟩, after⟩ <;> rw [run] at sweep
    · simp only [nextWithin, run]
      rfl
    · rw [nextWithin_counters_of_scan run, ← (sweep.names i).2]
      exact collect_of_gauges after i _
    · simp only [nextWithin, run, ← (sweep.names i).2]
      exact congrArg (fun jobs => o.before (after.collect jobs)) (List.append_assoc ..).symm

theorem scopeJobs_of_sweep {found : Option (Text × Observation)} (sweep : t.Sweep found u) :
    u.scopeJobs = t.scopeJobs := by
  funext i
  rw [scopeJobs, scopeJobs, (sweep.names i).1, (sweep.names i).2]

theorem collect_of_enter (t : Tree) (tally : Summary) (scopes : List Text) :
    t.collect (scopes.flatMap t.scopeJobs) =
      (t.enter tally scopes).2.collectAfter (t.enter tally scopes).1 (Pass.jobs (t.enter tally scopes).2) [] := by
  induction scopes generalizing t with
  | nil => rfl
  | cons i waiting ih =>
    have within := t.collect_of_nextWithin (.counters i (t.counterNames i)) (waiting.flatMap t.scopeJobs)
    have sweep := nextWithin_sweeps t (.counters i (t.counterNames i))
    rw [List.flatMap_cons]
    rcases run : t.nextWithin (.counters i (t.counterNames i)) with ⟨_ | _ | ⟨o, cursor⟩, after⟩ <;>
      rw [run] at within sweep
    · simp only [enter, run]
      exact within
    · simp only [enter, run]
      rw [← ih after, scopeJobs_of_sweep sweep]
      exact within
    · simp only [enter, run]
      refine within.trans ?_
      rw [← scopeJobs_of_sweep sweep]
      exact congrArg (fun jobs => o.before (after.collect jobs)) (List.append_nil _).symm

/-- Whatever a pass is at, going on to its next find changes nothing of what it collects. -/
theorem collect_of_continuePass (t : Tree) (p : Pass) :
    t.collect (p.jobs t) =
      (t.continuePass p).2.collectAfter (t.continuePass p).1 (Pass.jobs (t.continuePass p).2) [] := by
  have within := t.collect_of_nextWithin p.cursor (p.waiting.flatMap t.scopeJobs)
  have sweep := nextWithin_sweeps t p.cursor
  rcases run : t.nextWithin p.cursor with ⟨_ | _ | ⟨o, cursor⟩, after⟩ <;> rw [run] at within sweep
  · simp only [continuePass, run]
    exact within
  · simp only [continuePass, run]
    rw [← collect_of_enter after, scopeJobs_of_sweep sweep]
    exact within
  · simp only [continuePass, run]
    refine within.trans ?_
    rw [← scopeJobs_of_sweep sweep]
    exact congrArg (fun jobs => o.before (after.collect jobs)) (List.append_nil _).symm

end Tree

end MetricTree
