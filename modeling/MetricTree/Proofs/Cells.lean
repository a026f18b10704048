import MetricTree.Proofs.CellHistory
import MetricTree.Proofs.ToldAmounts

namespace MetricTree

namespace Course

variable {h k : Handle}

theorem amounts_added_self {n : Number} : amounts h [.added h n] = [n] := by
  simp only [amounts, List.filterMap_cons, if_true, List.filterMap_nil]

theorem amounts_added_other {n : Number} (other : k ≠ h) : amounts k [.added h n] = [] := by
  simp only [amounts, List.filterMap_cons, if_neg other.symm, List.filterMap_nil]

theorem writes_updated_self {x : Binary64} : writes h [.updated h x] = [x] := by
  simp only [writes, List.filterMap_cons, if_true, List.filterMap_nil]

theorem writes_updated_other {x : Binary64} (other : k ≠ h) : writes k [.updated h x] = [] := by
  simp only [writes, List.filterMap_cons, if_neg other.symm, List.filterMap_nil]

end Course

open Course

/-- What a metric holds, be it a counter or a gauge. -/
inductive Cell where
  | counter (c : Counter)
  | gauge (g : Gauge)

namespace Cell

/-- What a visit finds to report: a delta that is not zero, or a value that is still to be told. -/
def due : Cell → Option Number
  | .counter c => c.delta.toOption.filter fun delta => !delta.isZero
  | .gauge g => if g.dirty then some (.float g.value) else none

/-- What a visit tells the reporter. -/
def report (name : Text) (tags : Tags) : Cell → Option Observation
  | .counter c => c.report name tags
  | .gauge g => g.report name tags

def isCounter : Cell → Bool
  | .counter _ => true
  | .gauge _ => false

/-- The cell after a visit. -/
def settled : Cell → Cell
  | .counter c => .counter c.settled
  | .gauge g => .gauge g.settled

/-- What callers did to a metric in the meantime made this cell of that one. -/
inductive Written (h : Handle) (events : List Event) : Cell → Cell → Prop
  | counter {c : Counter} {total : Number} (sum : (amounts h events).foldlM Number.add c.total = .ok total) :
      Written h events (.counter c) (.counter { c with total := total })
  | gauge {g : Gauge} : Written h events (.gauge g) (.gauge (((writes h events).getLast?.map (⟨·, true⟩)).getD g))

variable {h : Handle} {events more : List Event} {x y z : Cell}

theorem map_amount_report (x : Cell) (name : Text) (tags : Tags) :
    (x.report name tags).map Observation.amount = x.due := by
  cases x with
  | counter c =>
    rw [report, Counter.report, Option.map_map]
    exact congrFun Option.map_id _
  | gauge g =>
    rw [report, Gauge.report, due]
    split <;> rfl

theorem of_report {name : Text} {tags : Tags} {o : Observation} (told : x.report name tags = some o) :
    o.name = name ∧ o.isCounter = x.isCounter := by
  cases x with
  | counter c =>
    obtain ⟨delta, _, rfl⟩ := Option.map_eq_some_iff.mp told
    exact ⟨rfl, rfl⟩
  | gauge g =>
    rw [report, Gauge.report] at told
    split at told
    · cases told
      exact ⟨rfl, rfl⟩
    · cases told

theorem Written.trans (first : Written h events x y) (second : Written h more y z) :
    Written h (events ++ more) x z := by
  cases first with
  | counter sum =>
    cases second with
    | counter rest =>
      refine .counter ?_
      rw [amounts_append, List.foldlM_append, sum]
      exact rest
  | @gauge g =>
    cases second with
    | gauge =>
      have last : (((writes h more).getLast?.map (Gauge.mk · true)).getD
          (((writes h events).getLast?.map (Gauge.mk · true)).getD g)) =
            ((writes h (events ++ more)).getLast?.map (Gauge.mk · true)).getD g := by
        rw [writes_append, List.getLast?_append]
        cases (writes h more).getLast? <;> rfl
      rw [last]
      exact .gauge

theorem Written.of_unadded (unadded : amounts h events = []) (c : Counter) :
    Written h events (.counter c) (.counter c) :=
  .counter (c := c) (by rw [unadded]; rfl)

theorem Written.of_unchanged (unchanged : writes h events = []) (g : Gauge) :
    Written h events (.gauge g) (.gauge g) := by
  have written : Written h events (.gauge g) _ := .gauge
  rwa [unchanged] at written

theorem Written.of_noWrite (noWrite : ∀ e ∈ events, e.isWrite = false) (x : Cell) : Written h events x x := by
  cases x with
  | counter c => exact .of_unadded (amounts_of_noWrite noWrite) c
  | gauge g => exact .of_unchanged (writes_of_noWrite noWrite) g

theorem Written.counter_eq {c : Counter} (written : Written h events (.counter c) x) (unadded : amounts h events = []) :
    x = .counter c := by
  cases written with
  | counter sum =>
    rw [unadded] at sum
    cases sum
    rfl

theorem Written.gauge_eq {g : Gauge} (written : Written h events (.gauge g) x) (unchanged : writes h events = []) :
    x = .gauge g := by
  cases written with
  | gauge =>
    rw [unchanged]
    rfl

end Cell

namespace Tree

/-- The counter that a handle stands for, or will stand for once it is made. -/
def counterAt (t : Tree) (h : Handle) : Counter := (t.counter? h).getD .fresh

def gaugeAt (t : Tree) (h : Handle) : Gauge := (t.gauge? h).getD .fresh

def cellAt (t : Tree) : Job → Cell
  | .counter h => .counter (t.counterAt h)
  | .gauge h => .gauge (t.gaugeAt h)

variable {t u : Tree} {job other : Job} {events : List Event} {found : Option Observation}

theorem counterAt_of_counter? {h : Handle} {c : Counter} (there : t.counter? h = some c) : t.counterAt h = c := by
  rw [counterAt, there, Option.getD_some]

theorem gaugeAt_of_gauge? {h : Handle} {g : Gauge} (there : t.gauge? h = some g) : t.gaugeAt h = g := by
  rw [gaugeAt, there, Option.getD_some]

theorem cellAt_isCounter : (t.cellAt job).isCounter = job.isCounter := by
  cases job <;> rfl

theorem cellAt_congr (counters : ∀ h, u.counter? h = t.counter? h) (gauges : ∀ h, u.gauge? h = t.gauge? h) :
    u.cellAt job = t.cellAt job := by
  cases job with
  | counter h => rw [cellAt, cellAt, counterAt, counterAt, counters]
  | gauge h => rw [cellAt, cellAt, gaugeAt, gaugeAt, gauges]

theorem cellAt_setCounter {h : Handle} {c : Counter} (present : (t.scope? h.scope).isSome) :
    (t.setCounter h c).cellAt job = if job = .counter h then .counter c else t.cellAt job := by
  cases job with
  | gauge k => rw [cellAt, cellAt, gaugeAt, gauge?_setCounter, if_neg nofun, gaugeAt]
  | counter k =>
    simp only [cellAt, counterAt, counter?_setCounter present, Job.counter.injEq]
    split <;> rfl

theorem cellAt_setGauge {h : Handle} {g : Gauge} (present : (t.scope? h.scope).isSome) :
    (t.setGauge h g).cellAt job = if job = .gauge h then .gauge g else t.cellAt job := by
  cases job with
  | counter k => rw [cellAt, cellAt, counterAt, counter?_setGauge, if_neg nofun, counterAt]
  | gauge k =>
    simp only [cellAt, gaugeAt, gauge?_setGauge present, Job.gauge.injEq]
    split <;> rfl

/-- A change does to every metric what callers did to it. One that is made starts fresh. -/
theorem Change.written (change : t.Change events u) (job : Job) :
    Cell.Written job.handle events (t.cellAt job) (u.cellAt job) := by
  have still : u.cellAt job = t.cellAt job → (∀ e ∈ events, e.isWrite = false) →
      Cell.Written job.handle events (t.cellAt job) (u.cellAt job) := by
    intro same noWrite
    rw [same]
    exact .of_noWrite noWrite _
  cases change with
  | none => exact still rfl (List.forall_mem_nil _)
  | scope fresh =>
    exact still (cellAt_congr (fun _ => counter?_derive fresh) fun _ => gauge?_derive fresh) (List.forall_mem_nil _)
  | @counter h present fresh =>
    refine still ?_ (List.forall_mem_nil _)
    rw [cellAt_setCounter present]
    split
    · next same => rw [same, cellAt, counterAt, fresh, Option.getD_none]
    · rfl
  | @gauge h present fresh =>
    refine still ?_ (List.forall_mem_nil _)
    rw [cellAt_setGauge present]
    split
    · next same => rw [same, cellAt, gaugeAt, fresh, Option.getD_none]
    · rfl
  | @added h c n total known sum =>
    rw [cellAt_setCounter (scope?_isSome_of_counter? known)]
    cases job with
    | gauge k => exact .of_unchanged rfl _
    | counter k =>
      by_cases same : k = h
      · subst same
        rw [if_pos rfl, cellAt, counterAt_of_counter? known]
        refine .counter ?_
        rw [Job.handle, amounts_added_self, List.foldlM_cons, sum]
        rfl
      · rw [if_neg (fun inj => same (Job.counter.inj inj))]
        exact .of_unadded (amounts_added_other same) _
  | @updated h g x known =>
    rw [cellAt_setGauge (scope?_isSome_of_gauge? known)]
    cases job with
    | counter k => exact .of_unadded rfl _
    | gauge k =>
      by_cases same : k = h
      · subst same
        have written : Cell.Written k [.updated k x] (.gauge (t.gaugeAt k)) _ := .gauge
        rw [writes_updated_self] at written
        rw [if_pos rfl]
        exact written
      · rw [if_neg (fun inj => same (Job.gauge.inj inj))]
        exact .of_unchanged (writes_updated_other same) _

/-- A visit that succeeds finds what is due, and leaves its metric with nothing to report. -/
theorem visit_eq_ok : t.visit job = .ok (found, u) →
    t.Has job ∧ found = t.due job ∧ u = t.settle job := by
  intro run
  cases job with
  | counter h =>
    obtain ⟨s, atScope, rest⟩ := bind_eq_ok.mp run
    obtain ⟨⟨delta, after⟩, consumed, _⟩ := bind_eq_ok.mp rest
    obtain ⟨c, known, unreported, _⟩ := consumeCounter_eq_ok.mp consumed
    cases run.symm.trans (visit_counter (scope_eq_ok.mp atScope) known unreported)
    exact ⟨by rw [Has, known]; rfl, rfl, rfl⟩
  | gauge h =>
    obtain ⟨s, atScope, rest⟩ := bind_eq_ok.mp run
    obtain ⟨⟨seen, after⟩, consumed, _⟩ := bind_eq_ok.mp rest
    obtain ⟨g, known, _⟩ := consumeGauge_eq_ok.mp consumed
    cases run.symm.trans (visit_gauge (scope_eq_ok.mp atScope) known)
    exact ⟨by rw [Has, known]; rfl, rfl, rfl⟩

theorem cellAt_settle (there : t.Has job) :
    (t.settle job).cellAt other = if other = job then (t.cellAt job).settled else t.cellAt other := by
  cases other with
  | counter h =>
    rw [cellAt, counterAt, counter?_settle]
    by_cases same : job = .counter h
    · subst same
      obtain ⟨c, known⟩ := Option.isSome_iff_exists.mp there
      rw [if_pos rfl, if_pos rfl, known, cellAt, counterAt_of_counter? known]
      rfl
    · rw [if_neg same, if_neg (Ne.symm same)]
      rfl
  | gauge h =>
    rw [cellAt, gaugeAt, gauge?_settle]
    by_cases same : job = .gauge h
    · subst same
      obtain ⟨g, known⟩ := Option.isSome_iff_exists.mp there
      rw [if_pos rfl, if_pos rfl, known, cellAt, gaugeAt_of_gauge? known]
      rfl
    · rw [if_neg same, if_neg (Ne.symm same)]
      rfl

theorem Has.extends (there : t.Has job) (extended : u.Extends t) : u.Has job := by
  cases job with
  | counter h => exact extended.counters there
  | gauge h => exact extended.gauges there

theorem settle_extends : (t.settle job).Extends t := by
  cases job with
  | counter h =>
    rw [settle]
    cases known : t.counter? h with
    | none => exact .refl t
    | some c => exact setCounter_extends (scope?_isSome_of_counter? known)
  | gauge h =>
    rw [settle]
    cases known : t.gauge? h with
    | none => exact .refl t
    | some g => exact setGauge_extends (scope?_isSome_of_gauge? known)

theorem fullName?_settle {h : Handle} : (t.settle job).fullName? h = t.fullName? h := by
  cases job with
  | counter k =>
    rw [settle]
    cases t.counter? k with
    | none => rfl
    | some c => exact fullName?_setCounter
  | gauge k =>
    rw [settle]
    cases t.gauge? k with
    | none => rfl
    | some g => exact fullName?_setGauge

theorem due_eq {s : Scope} (there : t.Has job) (atScope : t.scope? job.scope = some s) :
    t.due job = (t.cellAt job).report (s.qualify t.separator job.handle.name) s.tags := by
  cases job with
  | counter h =>
    obtain ⟨c, known⟩ := Option.isSome_iff_exists.mp there
    rw [due, label?, show t.scope? h.scope = some s from atScope, known, cellAt, counterAt_of_counter? known]
    rfl
  | gauge h =>
    obtain ⟨g, known⟩ := Option.isSome_iff_exists.mp there
    rw [due, label?, show t.scope? h.scope = some s from atScope, known, cellAt, gaugeAt_of_gauge? known]
    rfl

/-- Every visit is one to a single metric, and finds what is due. -/
theorem Visit.exists_job {seen : Option (Text × Observation)} (visit : t.Visit seen u) :
    ∃ job, t.Has job ∧ seen = (t.due job).map (job.scope, ·) ∧ u = t.settle job := by
  cases visit with
  | @idleCounter h c delta known unreported zero =>
    obtain ⟨s, atScope⟩ := Option.isSome_iff_exists.mp (scope?_isSome_of_counter? known)
    have nothing : t.due (.counter h) = none := by
      simp only [due, Tree.label?, atScope, known, Option.map_some, Option.bind_some, Counter.report, unreported,
        Except.toOption, Option.filter_some, zero, Bool.not_true, Bool.false_eq_true, if_false, Option.map_none]
    refine ⟨.counter h, by rw [Has, known]; rfl, by rw [nothing, Option.map_none], ?_⟩
    rw [settle, known, Option.elim_some]
    rfl
  | @counter h s c delta atScope known unreported nonzero =>
    have found : t.due (.counter h) = some (.counter (s.qualify t.separator h.name) s.tags delta) := by
      simp only [due, Tree.label?, atScope, known, Option.map_some, Option.bind_some, Counter.report, unreported,
        Except.toOption, Option.filter_some, nonzero, Bool.not_false, if_true]
    refine ⟨.counter h, by rw [Has, known]; rfl, by rw [found]; rfl, ?_⟩
    rw [settle, known, Option.elim_some]
    rfl
  | @cleanGauge h g known clean =>
    obtain ⟨s, atScope⟩ := Option.isSome_iff_exists.mp (scope?_isSome_of_gauge? known)
    have nothing : t.due (.gauge h) = none := by
      simp only [due, Tree.label?, atScope, known, Option.map_some, Option.bind_some, Gauge.report, clean,
        Bool.false_eq_true, if_false]
    refine ⟨.gauge h, by rw [Has, known]; rfl, by rw [nothing, Option.map_none], ?_⟩
    rw [settle, known, Option.elim_some]
    rfl
  | @gauge h s g atScope known dirty =>
    have found : t.due (.gauge h) = some (.gauge (s.qualify t.separator h.name) s.tags g.value) := by
      simp only [due, Tree.label?, atScope, known, Option.map_some, Option.bind_some, Gauge.report, dirty, if_true]
    refine ⟨.gauge h, by rw [Has, known]; rfl, by rw [found]; rfl, ?_⟩
    rw [settle, known, Option.elim_some]
    rfl

theorem isOf_due {o : Observation} (there : t.Has job) (due : t.due job = some o) :
    t.isOf job (job.scope, o) = true := by
  obtain ⟨s, atScope⟩ := exists_scope?_of_has there
  obtain ⟨name, kind⟩ := Cell.of_report ((due_eq there atScope).symm.trans due)
  exact (isOf_qualified atScope name (kind.trans cellAt_isCounter)).mpr rfl

/-- What a visit finds is told of its metric, and is what was due. -/
theorem amountsOf_due (there : t.Has job) (other : Job) :
    t.amountsOf other ((t.due job).map (job.scope, ·)).toList =
      if other = job then (t.cellAt job).due.toList else [] := by
  obtain ⟨s, atScope⟩ := exists_scope?_of_has there
  have found := due_eq there atScope
  rw [← (t.cellAt job).map_amount_report (s.qualify t.separator job.handle.name) s.tags, ← found]
  cases due : t.due job with
  | none => split <;> rfl
  | some o =>
    obtain ⟨name, kind⟩ := Cell.of_report (found.symm.trans due)
    rw [Option.map_some, Option.map_some, Option.toList_some,
      amountsOf_qualified atScope name (kind.trans cellAt_isCounter)]
    rfl

end Tree

end MetricTree
