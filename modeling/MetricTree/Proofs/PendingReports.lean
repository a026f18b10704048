import Mathlib.Data.List.Nodup
import MetricTree.Proofs.FaultlessPasses
import MetricTree.Proofs.PassJobs

namespace MetricTree

/-- What there is to report of a counter: its delta, if that is not zero. -/
def Counter.report (name : Text) (tags : Tags) (c : Counter) : Option Observation :=
  (c.delta.toOption.filter fun delta => !delta.isZero).map (.counter name tags)

/-- What there is to report of a gauge: its value, if that was written since it was last reported. -/
def Gauge.report (name : Text) (tags : Tags) (g : Gauge) : Option Observation :=
  if g.dirty then some (.gauge name tags g.value) else none

/-- What there is to report of a scope: its counters and then its gauges, in the order in which they were made. -/
def Scope.reports (separator : Text) (s : Scope) : List Observation :=
  (s.counters.entries.filterMap fun e => e.2.report (s.qualify separator e.1) s.tags) ++
    s.gauges.entries.filterMap fun e => e.2.report (s.qualify separator e.1) s.tags

/-- The counter with nothing left to report. -/
def Counter.settled (c : Counter) : Counter := { c with reported := c.total }

def Gauge.settled (g : Gauge) : Gauge := { g with dirty := false }

namespace Tree

/-- What there is to report of a tree, scope by scope in the order of their registration. -/
def pending (t : Tree) : List Observation := t.scopes.flatMap (Scope.reports t.separator)

/-- The name and the tags that a reporter is given for a metric. -/
def label? (t : Tree) (h : Handle) : Option (Text × Tags) :=
  (t.scope? h.scope).map fun s => (s.qualify t.separator h.name, s.tags)

/-- What a visit finds. -/
def due (t : Tree) : Job → Option Observation
  | .counter h => (t.label? h).bind fun label => (t.counter? h).bind (Counter.report label.1 label.2)
  | .gauge h => (t.label? h).bind fun label => (t.gauge? h).bind (Gauge.report label.1 label.2)

/-- The tree after a visit. -/
def settle (t : Tree) : Job → Tree
  | .counter h => (t.counter? h).elim t fun c => t.setCounter h c.settled
  | .gauge h => (t.gauge? h).elim t fun g => t.setGauge h g.settled

def Has (t : Tree) : Job → Prop
  | .counter h => (t.counter? h).isSome
  | .gauge h => (t.gauge? h).isSome

variable {t u : Tree} {h : Handle} {job other : Job} {jobs : List Job}

theorem label?_editScope {i : Text} {edit : Scope → Scope} (stem : ∀ s, (edit s).stem = s.stem)
    (tags : ∀ s, (edit s).tags = s.tags) : (t.editScope i edit).label? h = t.label? h := by
  simp only [label?, scope?_editScope, separator_editScope]
  split
  · next same =>
    rw [same]
    cases t.scope? i with
    | none => rfl
    | some s => simp only [Option.map_some, Scope.qualify, stem, tags]
  · rfl

theorem label?_setCounter {k : Handle} {c : Counter} : (t.setCounter k c).label? h = t.label? h :=
  label?_editScope (fun _ => rfl) fun _ => rfl

theorem label?_setGauge {k : Handle} {g : Gauge} : (t.setGauge k g).label? h = t.label? h :=
  label?_editScope (fun _ => rfl) fun _ => rfl

theorem counter?_settle : (t.settle job).counter? h =
    if job = .counter h then (t.counter? h).map Counter.settled else t.counter? h := by
  cases job with
  | gauge k =>
    rw [if_neg (by simp)]
    simp only [settle]
    cases t.gauge? k with
    | none => rfl
    | some g => exact counter?_setGauge
  | counter k =>
    simp only [settle, Job.counter.injEq]
    cases found : t.counter? k with
    | none =>
      split
      · next same => rw [Option.elim_none, ← same, found]; rfl
      · rfl
    | some c =>
      rw [Option.elim_some, counter?_setCounter (scope?_isSome_of_counter? found)]
      by_cases same : h = k
      · rw [if_pos same, if_pos same.symm, same, found]
        rfl
      · rw [if_neg same, if_neg (Ne.symm same)]

theorem gauge?_settle : (t.settle job).gauge? h =
    if job = .gauge h then (t.gauge? h).map Gauge.settled else t.gauge? h := by
  cases job with
  | counter k =>
    rw [if_neg (by simp)]
    simp only [settle]
    cases t.counter? k with
    | none => rfl
    | some c => exact gauge?_setCounter
  | gauge k =>
    simp only [settle, Job.gauge.injEq]
    cases found : t.gauge? k with
    | none =>
      split
      · next same => rw [Option.elim_none, ← same, found]; rfl
      · rfl
    | some g =>
      rw [Option.elim_some, gauge?_setGauge (scope?_isSome_of_gauge? found)]
      by_cases same : h = k
      · rw [if_pos same, if_pos same.symm, same, found]
        rfl
      · rw [if_neg same, if_neg (Ne.symm same)]

theorem label?_settle : (t.settle job).label? h = t.label? h := by
  cases job with
  | counter k =>
    simp only [settle]
    cases t.counter? k with
    | none => rfl
    | some c => exact label?_setCounter
  | gauge k =>
    simp only [settle]
    cases t.gauge? k with
    | none => rfl
    | some g => exact label?_setGauge

/-- A visit does not change what another one finds. -/
theorem due_settle (different : job ≠ other) : (t.settle job).due other = t.due other := by
  cases other with
  | counter k => simp only [due, label?_settle, counter?_settle, if_neg different]
  | gauge k => simp only [due, label?_settle, gauge?_settle, if_neg different]

theorem visit_counter {s : Scope} {c : Counter} {delta : Number} (atScope : t.scope? h.scope = some s)
    (found : t.counter? h = some c) (unreported : c.delta = .ok delta) :
    t.visit (.counter h) = .ok (t.due (.counter h), t.settle (.counter h)) := by
  have consumed : t.consumeCounter h = .ok (delta, t.setCounter h c.settled) :=
    consumeCounter_eq_ok.mpr ⟨c, found, unreported, rfl⟩
  have same : (if delta.isZero then none else some (Observation.counter (s.qualify t.separator h.name) s.tags delta)) =
      t.due (.counter h) := by
    simp only [due, label?, atScope, found, Option.map_some, Option.bind_some, Counter.report, unreported,
      Except.toOption, Option.filter_some]
    cases delta.isZero <;> rfl
  have left : t.settle (.counter h) = t.setCounter h c.settled := by
    rw [settle, found, Option.elim_some]
  rw [visit, left, ← same]
  exact bind_eq_ok.mpr ⟨s, scope_eq_ok.mpr atScope, bind_eq_ok.mpr ⟨_, consumed, rfl⟩⟩

theorem visit_gauge {s : Scope} {g : Gauge} (atScope : t.scope? h.scope = some s) (found : t.gauge? h = some g) :
    t.visit (.gauge h) = .ok (t.due (.gauge h), t.settle (.gauge h)) := by
  have consumed : t.consumeGauge h = .ok ((g.value, g.dirty), t.setGauge h g.settled) :=
    consumeGauge_eq_ok.mpr ⟨g, found, rfl, rfl, rfl⟩
  have same : (if g.dirty then some (Observation.gauge (s.qualify t.separator h.name) s.tags g.value) else none) =
      t.due (.gauge h) := by
    simp only [due, label?, atScope, found, Option.map_some, Option.bind_some, Gauge.report]
  have left : t.settle (.gauge h) = t.setGauge h g.settled := by
    rw [settle, found, Option.elim_some]
  rw [visit, left, ← same]
  exact bind_eq_ok.mpr ⟨s, scope_eq_ok.mpr atScope, bind_eq_ok.mpr ⟨_, consumed, rfl⟩⟩

theorem visit_eq (integral : t.Integral) (there : t.Has job) : t.visit job = .ok (t.due job, t.settle job) := by
  cases job with
  | counter h =>
    obtain ⟨c, found⟩ := Option.isSome_iff_exists.mp there
    obtain ⟨s, atScope⟩ := Option.isSome_iff_exists.mp (scope?_isSome_of_counter? found)
    obtain ⟨m, n, rfl⟩ := integral _ _ found
    exact visit_counter atScope found rfl
  | gauge h =>
    obtain ⟨g, found⟩ := Option.isSome_iff_exists.mp there
    obtain ⟨s, atScope⟩ := Option.isSome_iff_exists.mp (scope?_isSome_of_gauge? found)
    exact visit_gauge atScope found

theorem Integral.settle (integral : t.Integral) : (t.settle job).Integral := by
  intro h c found
  rw [counter?_settle] at found
  split at found
  · obtain ⟨old, known, rfl⟩ := Option.map_eq_some_iff.mp found
    obtain ⟨m, n, rfl⟩ := integral h old known
    exact ⟨m, m, rfl⟩
  · exact integral h c found

theorem Has.settle (there : t.Has other) : (t.settle job).Has other := by
  cases other with
  | counter h =>
    rw [Has, counter?_settle]
    split
    · rw [Option.isSome_map]
      exact there
    · exact there
  | gauge h =>
    rw [Has, gauge?_settle]
    split
    · rw [Option.isSome_map]
      exact there
    · exact there

/-- Of integers, one visit each finds what there was to be found at the start, in the same order. -/
theorem collect_eq (integral : t.Integral) (there : ∀ job ∈ jobs, t.Has job) (distinct : jobs.Nodup) :
    t.collect jobs = .ok (jobs.filterMap t.due, jobs.foldl settle t) := by
  induction jobs generalizing t with
  | nil => rfl
  | cons job rest ih =>
    rw [List.forall_mem_cons] at there
    rw [List.nodup_cons] at distinct
    have later : rest.filterMap (t.settle job).due = rest.filterMap t.due := by
      refine List.filterMap_congr fun other member => due_settle ?_
      rintro rfl
      exact distinct.1 member
    have run := visit_eq integral there.1
    have still : ∀ other ∈ rest, (t.settle job).Has other := fun other member => (there.2 other member).settle
    have others := ih integral.settle still distinct.2
    rw [later] at others
    simp only [collect, run, others, bind, Except.bind, pure, Except.pure, List.foldl_cons]
    cases found : t.due job with
    | none => rw [List.filterMap_cons_none found]; rfl
    | some o => rw [List.filterMap_cons_some found]; rfl

theorem counter?_settleAll : (jobs.foldl settle t).counter? h =
    if .counter h ∈ jobs then (t.counter? h).map Counter.settled else t.counter? h := by
  induction jobs generalizing t with
  | nil => rfl
  | cons job rest ih =>
    have twice : ((t.counter? h).map Counter.settled).map Counter.settled = (t.counter? h).map Counter.settled := by
      rw [Option.map_map]
      rfl
    rw [List.foldl_cons, ih, counter?_settle]
    by_cases here : job = .counter h
    · rw [if_pos here, twice, ite_self, if_pos (here ▸ List.mem_cons_self ..)]
    · rw [if_neg here]
      simp only [List.mem_cons, Ne.symm here, false_or]

theorem gauge?_settleAll : (jobs.foldl settle t).gauge? h =
    if .gauge h ∈ jobs then (t.gauge? h).map Gauge.settled else t.gauge? h := by
  induction jobs generalizing t with
  | nil => rfl
  | cons job rest ih =>
    have twice : ((t.gauge? h).map Gauge.settled).map Gauge.settled = (t.gauge? h).map Gauge.settled := by
      rw [Option.map_map]
      rfl
    rw [List.foldl_cons, ih, gauge?_settle]
    by_cases here : job = .gauge h
    · rw [if_pos here, twice, ite_self, if_pos (here ▸ List.mem_cons_self ..)]
    · rw [if_neg here]
      simp only [List.mem_cons, Ne.symm here, false_or]

end Tree

end MetricTree
