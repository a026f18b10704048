import Mathlib.Data.Set.List
import MetricTree.Proofs.Cells

namespace MetricTree

open Course

namespace Number

/-- The integer that a number is. Of other numbers nothing counts. -/
def whole : Number → Int
  | .int n => n
  | .float _ => 0

theorem exists_ints {ns : List Number} (integers : ∀ n ∈ ns, ∃ m, n = .int m) : ∃ ms : List Int, ns = ms.map .int := by
  have inRange : ns ∈ Set.range (List.map Number.int) := by
    rw [Set.range_list_map]
    exact fun n member => (integers n member).imp fun _ => Eq.symm
  exact inRange.imp fun _ => Eq.symm

theorem sum_whole (ms : List Int) : ((ms.map Number.int).map whole).sum = ms.sum := by
  rw [List.map_map, show whole ∘ Number.int = id from rfl, List.map_id]

theorem foldlM_add_ints (m : Int) (ms : List Int) :
    (ms.map Number.int).foldlM Number.add (.int m) = .ok (.int (m + ms.sum)) := by
  induction ms generalizing m with
  | nil => rw [List.sum_nil, Int.add_zero]; rfl
  | cons n rest ih =>
    rw [List.sum_cons, ← Int.add_assoc]
    exact ih (m + n)

end Number

namespace Course

variable {t : Tree} {h : Handle} {past : List Event}

theorem addedTo_eq : addedTo h past = ((amounts h past).map Number.whole).sum := by
  induction past with
  | nil => rfl
  | cons e rest ih =>
    rw [← List.singleton_append, addedTo_append, amounts_append, List.map_append, List.sum_append, ih]
    congr 1
    cases e with
    | added k n =>
      by_cases same : k = h
      · cases n <;> simp only [addedTo, amounts, Number.whole, same, List.map_cons, List.map_nil, List.filterMap_cons,
          List.filterMap_nil, if_true]
      · cases n <;> simp only [addedTo, amounts, same, List.map_cons, List.map_nil, List.filterMap_cons,
          List.filterMap_nil, List.sum_cons, List.sum_nil, if_false, Int.add_zero]
    | _ => rfl

theorem handedFor_eq : handedFor t h past = ((told t (.counter h) past).map Number.whole).sum := by
  have share : ∀ seen, t.share h seen = if t.isOf (.counter h) seen then seen.2.amount.whole else 0 := by
    rintro ⟨i, ⟨name, tags, n | x⟩ | ⟨name, tags, x⟩⟩
    · simp [Tree.share, Tree.isOf, Job.scope, Job.handle, Job.isCounter, Observation.name, Observation.isCounter,
        Observation.amount, Number.whole]
    · simp [Tree.share, Observation.amount, Number.whole]
    · simp [Tree.share, Observation.amount, Number.whole]
  rw [handedFor, told, Tree.amountsOf]
  generalize past.filterMap Event.observed? = all
  induction all with
  | nil => rfl
  | cons seen rest ih =>
    rw [List.map_cons, List.sum_cons, ih, share, List.filter_cons]
    split
    · rw [List.map_cons, List.map_cons, List.sum_cons]
    · rw [Int.zero_add]

end Course

/-- A counter among the amounts that were added to it and those that the reporter was told of it: if they are integers,
it has the sum of the former, of which the sum of the latter is reported. -/
def Counter.Accounts (c : Counter) (added told : List Number) : Prop :=
  (∀ n ∈ added, ∃ m, n = .int m) → ∃ adds tells : List Int,
    added = adds.map .int ∧ told = tells.map .int ∧ c = ⟨.int adds.sum, .int tells.sum⟩

/-- A gauge among the values that were written to it and those that the reporter was told of it: it has the last
one written, and that is the last one told as well, unless it is still to be told. -/
structure Gauge.Accounts (g : Gauge) (written : List Binary64) (told : List Number) : Prop where
  value : g.value = written.getLast?.getD .zero
  owed : g.dirty = true → written.getLast? = some g.value
  clean : g.dirty = false → told.getLast? = written.getLast?.map .float

namespace Counter

variable {c : Counter} {h : Handle} {added told : List Number} {events : List Event}

theorem Accounts.write {total : Number} (accounts : c.Accounts added told)
    (sum : (amounts h events).foldlM Number.add c.total = .ok total) :
    Accounts { c with total := total } (added ++ amounts h events) told := by
  intro integers
  obtain ⟨old, new⟩ := List.forall_mem_append.mp integers
  obtain ⟨adds, tells, rfl, rfl, rfl⟩ := accounts old
  obtain ⟨more, same⟩ := Number.exists_ints new
  rw [same, Number.foldlM_add_ints, Except.ok.injEq] at sum
  subst sum
  exact ⟨adds ++ more, tells, by rw [same, List.map_append], rfl, by rw [List.sum_append]⟩

/-- A visit tells of a counter what was added and not told yet. -/
theorem Accounts.settle (accounts : c.Accounts added told) :
    c.settled.Accounts added (told ++ (Cell.counter c).due.toList) := by
  intro integers
  obtain ⟨adds, tells, rfl, rfl, rfl⟩ := accounts integers
  have due : (Cell.counter ⟨.int adds.sum, .int tells.sum⟩).due =
      if adds.sum - tells.sum = 0 then none else some (.int (adds.sum - tells.sum)) := by
    simp only [Cell.due, delta, Number.sub, Except.toOption, pure, Except.pure, Option.filter_some, Number.isZero,
      Bool.not_eq_true', beq_eq_false_iff_ne, ne_eq, ite_not]
  rw [due]
  split
  · next zero =>
    refine ⟨adds, tells, rfl, List.append_nil _, ?_⟩
    rw [settled, Int.sub_eq_zero.mp zero]
  · have whole : tells.sum + (adds.sum - tells.sum) = adds.sum := by omega
    refine ⟨adds, tells ++ [adds.sum - tells.sum], rfl, by rw [List.map_append]; rfl, ?_⟩
    rw [settled, List.sum_append, List.sum_singleton, whole]

end Counter

namespace Gauge

variable {g : Gauge} {h : Handle} {written : List Binary64} {told : List Number} {events : List Event}

theorem Accounts.write (accounts : g.Accounts written told) :
    (((writes h events).getLast?.map (Gauge.mk · true)).getD g).Accounts (written ++ writes h events) told := by
  cases last : (writes h events).getLast? with
  | none =>
    rw [List.getLast?_eq_none_iff.mp last, List.append_nil]
    exact accounts
  | some x =>
    have latest : (written ++ writes h events).getLast? = some x := by
      rw [List.getLast?_append, last, Option.some_or]
    exact ⟨by rw [latest]; rfl, fun _ => latest, nofun⟩

/-- A visit tells the value of a gauge if it is still to be told. -/
theorem Accounts.settle (accounts : g.Accounts written told) :
    g.settled.Accounts written (told ++ (Cell.gauge g).due.toList) := by
  refine ⟨accounts.value, nofun, fun _ => ?_⟩
  rw [Cell.due]
  split
  · next dirty => rw [Option.toList_some, List.getLast?_concat, accounts.owed dirty, Option.map_some]
  · next clean =>
    rw [Option.toList_none, List.append_nil]
    exact accounts.clean (Bool.not_eq_true _ ▸ clean)

end Gauge

namespace Cell

/-- A metric among all that has happened and what the reporter was told of it. -/
def Accounts (h : Handle) (past : List Event) (told : List Number) : Cell → Prop
  | .counter c => c.Accounts (amounts h past) told
  | .gauge g => g.Accounts (writes h past) told

variable {h : Handle} {past events : List Event} {told : List Number} {x y : Cell}

theorem Accounts.write (accounts : x.Accounts h past told) (written : Written h events x y) :
    y.Accounts h (past ++ events) told := by
  cases written with
  | counter sum =>
    rw [Accounts, amounts_append]
    exact Counter.Accounts.write accounts sum
  | gauge =>
    rw [Accounts, writes_append]
    exact Gauge.Accounts.write accounts

theorem Accounts.settle (accounts : x.Accounts h past told) : x.settled.Accounts h past (told ++ x.due.toList) := by
  cases x with
  | counter c => exact Counter.Accounts.settle accounts
  | gauge g => exact Gauge.Accounts.settle accounts

end Cell

namespace Tree

variable {t u : Tree} {job : Job} {past : List Event} {told : List Number} {found : Option (Text × Observation)}

theorem Visit.accounts (visit : t.Visit found u) (before : (t.cellAt job).Accounts job.handle past told) :
    (u.cellAt job).Accounts job.handle past (told ++ t.amountsOf job found.toList) := by
  obtain ⟨other, there, rfl, rfl⟩ := visit.exists_job
  rw [cellAt_settle there, amountsOf_due there]
  by_cases same : job = other
  · subst same
    rw [if_pos rfl, if_pos rfl]
    exact before.settle
  · rw [if_neg same, if_neg same, List.append_nil]
    exact before

theorem Sweep.accounts (sweep : t.Sweep found u) (before : (t.cellAt job).Accounts job.handle past told) :
    (u.cellAt job).Accounts job.handle past (told ++ u.amountsOf job found.toList) := by
  induction sweep with
  | stop => exact (List.append_nil told).symm ▸ before
  | pass visit _ ih =>
    have first := visit.accounts before
    rw [Option.toList_none, amountsOf, List.filter_nil, List.map_nil, List.append_nil] at first
    exact ih first
  | find visit =>
    rw [amountsOf_congr fun _ => visit.fullName?]
    exact visit.accounts before

end Tree

namespace Course

/-- Every metric has what was written to it, and the reporter was told of it, or will be. -/
structure Accounted (c : Course) : Prop where
  registered : c.Registered
  cells : ∀ job, (c.loop.tree.cellAt job).Accounts job.handle c.past (told c.loop.tree job c.past)

theorem Accounted.take {c : Course} {step : Step} (before : c.Accounted) : (c.take step).Accounted := by
  refine ⟨before.registered.take, fun job => ?_⟩
  obtain ⟨events, past, effect⟩ := c.take_effect step
  have extended : (c.take step).loop.tree.Extends c.loop.tree := by
    cases effect with
    | granted asked run => exact (Request.perform_change run).extends
    | sweep sweep => exact sweep.extends
  rw [past, told_append, told_of_extends before.registered extended]
  cases effect with
  | granted asked run =>
    have change := Request.perform_change run
    rw [told_eq_nil (filterMap_granted change), List.append_nil]
    exact (before.cells job).write (change.written job)
  | sweep sweep calls noWrite =>
    rw [told.eq_1 _ _ events, calls]
    exact sweep.accounts ((before.cells job).write (.of_noWrite noWrite _))

theorem accounted_run {o : Options} {interval : Interval} {opening : Opening}
    (opened : Opening.ofOptions o interval = .ok opening) (steps : List Step) :
    ((Course.opened opening).run steps).Accounted := by
  refine run_induction (P := Accounted) ⟨registered_opened opening, fun job => ?_⟩ fun c step _ before => before.take
  have noWrite : ∀ e ∈ (Course.opened opening).past, e.isWrite = false := fun e => noWrite_told
  have uncalled : (Course.opened opening).past.filterMap Event.observed? = [] := filterMap_told _
  rw [told_eq_nil uncalled]
  cases job with
  | counter h =>
    have absent : (Course.opened opening).loop.tree.counter? h = none := Opening.counter?_eq_none opened h
    rw [Tree.cellAt, Tree.counterAt, absent, Cell.Accounts, Job.handle, amounts_of_noWrite noWrite]
    exact fun _ => ⟨[], [], rfl, rfl, rfl⟩
  | gauge h =>
    have absent : (Course.opened opening).loop.tree.gauge? h = none := Opening.gauge?_eq_none opened h
    rw [Tree.cellAt, Tree.gaugeAt, absent, Cell.Accounts, Job.handle, writes_of_noWrite noWrite]
    exact ⟨rfl, (fun dirty => by cases dirty), fun _ => rfl⟩

end Course

end MetricTree
