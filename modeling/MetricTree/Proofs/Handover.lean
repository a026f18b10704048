import MetricTree.Proofs.CounterReadings
import MetricTree.Proofs.NameOrder

namespace MetricTree

/-- What it adds to the total of a counter's deltas under an identity. -/
def Observation.deltaUnder (key : Text) : Observation → Int
  | .counter name tags (.int d) => if Identity.encode name tags = key then d else 0
  | _ => 0

namespace Tree

/-- While the tree became the other one, what its counters had to report and have no more was told, for counters
that it has. -/
structure HandsOver (t : Tree) (told : List (Text × Observation)) (u : Tree) : Prop where
  handles : u.counterHandles = t.counterHandles
  labels : ∀ h, u.label? h = t.label? h
  known : ∀ {i name tags delta}, (i, .counter name tags delta) ∈ told →
    ∃ n h, delta = .int n ∧ (t.counter? h).isSome ∧ t.label? h = some (name, tags)
  owed : ∀ key, t.owed key = (told.map fun seen => seen.2.deltaUnder key).sum + u.owed key

variable {t u v : Tree} {h k : Handle} {told more : List (Text × Observation)}

theorem HandsOver.refl (t : Tree) : t.HandsOver [] t :=
  ⟨rfl, fun _ => rfl, fun member => absurd member List.not_mem_nil, fun _ => (Int.zero_add _).symm⟩

theorem HandsOver.trans (sooner : t.HandsOver told u) (later : u.HandsOver more v) : t.HandsOver (told ++ more) v := by
  refine ⟨later.handles.trans sooner.handles, fun h => (later.labels h).trans (sooner.labels h), ?_, fun key => ?_⟩
  · intro i name tags delta member
    rcases List.mem_append.mp member with first | second
    · exact sooner.known first
    · obtain ⟨n, h, integer, there, label⟩ := later.known second
      rw [← mem_counterHandles, sooner.handles] at there
      exact ⟨n, h, integer, mem_counterHandles.mp there, (sooner.labels h).symm.trans label⟩
  · rw [sooner.owed, later.owed, List.map_append, List.sum_append, Int.add_assoc]

theorem Visit.jobs {found : Option (Text × Observation)} (visit : t.Visit found u) : u.jobs = t.jobs := by
  have identities : u.identities = t.identities := by
    cases visit with
    | idleCounter | counter => exact identities_editScope
    | cleanGauge | gauge => exact identities_editScope
  have scopes : u.scopeJobs = t.scopeJobs := by
    funext i
    rw [scopeJobs, scopeJobs, (visit.names i).1, (visit.names i).2]
  rw [Tree.jobs, Tree.jobs, identities, scopes]

theorem Visit.label? {found : Option (Text × Observation)} (visit : t.Visit found u) (h : Handle) :
    u.label? h = t.label? h := by
  cases visit with
  | idleCounter | counter => exact label?_setCounter
  | cleanGauge | gauge => exact label?_setGauge

theorem owed_eq (integral : t.Integral) (distinct : t.Distinct) (key : Text) :
    t.owed key = (t.counterHandles.map fun h => (t.reading h).under key).sum := by
  rw [owed, readings_eq integral distinct, List.map_map]
  rfl

theorem reading_congr (label : u.label? h = t.label? h) (unreported : u.unreported h = t.unreported h) :
    u.reading h = t.reading h := by
  rw [reading, reading, label, unreported]

theorem Visit.handles {found : Option (Text × Observation)} (visit : t.Visit found u) :
    u.counterHandles = t.counterHandles := by
  rw [counterHandles, counterHandles, visit.jobs]

/-- A counter that has nothing left to report is missed under its identity by what it had. -/
theorem sum_under_of_spent {key : Text} (distinct : t.Distinct) (there : (t.counter? h).isSome)
    (others : ∀ k, k ≠ h → u.reading k = t.reading k) (spent : (u.reading h).value = 0) :
    (t.counterHandles.map fun k => (t.reading k).under key).sum =
      (t.reading h).under key + (t.counterHandles.map fun k => (u.reading k).under key).sum := by
  have member := mem_counterHandles.mpr there
  have same : ∀ k ∈ t.counterHandles.erase h, (u.reading k).under key = (t.reading k).under key :=
    fun k inside => congrArg _ (others k ((nodup_counterHandles distinct).mem_erase_iff.mp inside).1)
  have nothing : (u.reading h).under key = 0 := by
    rw [Reading.under, spent, ite_self]
  rw [← List.sum_map_erase _ member, ← List.sum_map_erase _ member, List.map_congr_left same, nothing, Int.zero_add]

/-- A visit changes no reading but that of the counter which is to be reported. -/
theorem Visit.owed {found : Option (Text × Observation)} (visit : t.Visit found u) (integral : t.Integral)
    (distinct : t.Distinct) (key : Text) :
    t.owed key = (found.toList.map fun seen => seen.2.deltaUnder key).sum + u.owed key := by
  rw [owed_eq integral distinct, owed_eq (visit.integral integral) (visit.distinct distinct), visit.handles]
  have kept : ∀ k, t.unreported k = 0 + u.unreported k → u.reading k = t.reading k :=
    fun k unreported => reading_congr (visit.label? k) (unreported.trans (Int.zero_add _)).symm
  have taken := fun k => visit.unreported (k := k) integral
  cases visit with
  | idleCounter | cleanGauge | gauge =>
    rw [List.map_congr_left fun k _ => congrArg (Reading.under key) (kept k (taken k))]
    exact (Int.zero_add _).symm
  | @counter h s c delta atScope found unreported nonzero =>
    obtain ⟨m, n, rfl⟩ := integral _ _ found
    cases unreported
    have present := scope?_isSome_of_counter? found
    have there : (t.counter? h).isSome := Option.isSome_iff_exists.mpr ⟨_, found⟩
    have due : (t.reading h).under key =
        Observation.deltaUnder key (.counter (s.qualify t.separator h.name) s.tags (.int (m - n))) := by
      simp only [Reading.under, Reading.key, reading, Tree.label?, atScope, Option.map_some, Option.getD_some,
        unreported_of_counter? found, Observation.deltaUnder]
    refine (sum_under_of_spent distinct there (fun k other => kept k ?_) ?_).trans ?_
    · rw [unreported_setCounter present, if_neg other, Int.zero_add]
    · rw [reading, unreported_setCounter present, if_pos rfl, Int.sub_self]
    · rw [due]
      simp only [Option.toList_some, List.map_cons, List.map_nil, List.sum_cons, List.sum_nil, Int.add_zero]

theorem Visit.handsOver {found : Option (Text × Observation)} (visit : t.Visit found u) (integral : t.Integral)
    (distinct : t.Distinct) : t.HandsOver found.toList u := by
  refine ⟨visit.handles, visit.label?, ?_, visit.owed integral distinct⟩
  intro i name tags delta member
  cases visit with
  | idleCounter | cleanGauge => cases member
  | gauge => cases List.mem_singleton.mp member
  | @counter h s c delta atScope found unreported nonzero =>
    cases List.mem_singleton.mp member
    obtain ⟨m, n, rfl⟩ := integral _ _ found
    cases unreported
    refine ⟨m - n, h, rfl, Option.isSome_iff_exists.mpr ⟨_, found⟩, ?_⟩
    rw [Tree.label?, atScope]
    rfl

theorem Sweep.handsOver {found : Option (Text × Observation)} (sweep : t.Sweep found u) (integral : t.Integral)
    (distinct : t.Distinct) : t.HandsOver found.toList u := by
  induction sweep with
  | stop => exact .refl _
  | pass visit _ ih =>
    exact (visit.handsOver integral distinct).trans (ih (visit.integral integral) (visit.distinct distinct))
  | find visit => exact visit.handsOver integral distinct

end Tree

namespace Course

/-- As long as nobody asks for anything, what counters have no more to report has been told. -/
theorem handsOver_run {c : Course} (steps : List Step) (integral : c.loop.tree.Integral)
    (distinct : c.loop.tree.Distinct) (unasked : ∀ r, .request r ∉ steps) :
    (c.run steps).loop.tree.Integral ∧ (c.run steps).loop.tree.Distinct ∧ ∃ events,
      (c.run steps).past = c.past ++ events ∧
        c.loop.tree.HandsOver (events.filterMap Event.observed?) (c.run steps).loop.tree := by
  refine (run_induction (P := fun d => d.loop.tree.Integral ∧ d.loop.tree.Distinct ∧
    ∃ events, d.past = c.past ++ events ∧ c.loop.tree.HandsOver (events.filterMap Event.observed?) d.loop.tree)
    ⟨integral, distinct, [], (List.append_nil _).symm, .refl _⟩ ?_)
  rintro d step member ⟨integral, distinct, before, past, sooner⟩
  obtain ⟨events, longer, effect⟩ := d.take_effect step
  cases effect with
  | granted asked => exact absurd (asked ▸ member) (unasked _)
  | sweep sweep calls =>
    refine ⟨sweep.integral integral, sweep.distinct distinct, before ++ events,
      by rw [longer, past, List.append_assoc], ?_⟩
    rw [List.filterMap_append, calls]
    exact sooner.trans (sweep.handsOver integral distinct)

end Course

end MetricTree
