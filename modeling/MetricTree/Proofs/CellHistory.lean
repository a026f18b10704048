import MetricTree.Proofs.StepEffect

namespace MetricTree

namespace Course

/-- The amounts that were added to a counter, one after the other. -/
def amounts (h : Handle) (events : List Event) : List Number :=
  events.filterMap fun
    | .added k n => if k = h then some n else none
    | _ => none

/-- The values that were written to a gauge, one after the other. -/
def writes (h : Handle) (events : List Event) : List Binary64 :=
  events.filterMap fun
    | .updated k x => if k = h then some x else none
    | _ => none

theorem amounts_append (h : Handle) (past events : List Event) :
    amounts h (past ++ events) = amounts h past ++ amounts h events := List.filterMap_append

theorem writes_append (h : Handle) (past events : List Event) :
    writes h (past ++ events) = writes h past ++ writes h events := List.filterMap_append

theorem amounts_of_noWrite {h : Handle} {events : List Event} (noWrite : ∀ e ∈ events, e.isWrite = false) :
    amounts h events = [] := by
  refine List.filterMap_eq_nil_iff.mpr fun e member => ?_
  have calm := noWrite e member
  cases e with
  | added | updated => cases calm
  | _ => rfl

theorem writes_of_noWrite {h : Handle} {events : List Event} (noWrite : ∀ e ∈ events, e.isWrite = false) :
    writes h events = [] := by
  refine List.filterMap_eq_nil_iff.mpr fun e member => ?_
  have calm := noWrite e member
  cases e with
  | added | updated => cases calm
  | _ => rfl

end Course

namespace Tree

open Course

/-- Every metric is still the one that it was: a counter with the amounts that were added to it since, and a gauge
with the last value that was written to it since, if there was one. -/
structure Continues (t : Tree) (events : List Event) (u : Tree) : Prop where
  counters : ∀ {h c}, t.counter? h = some c →
    ∃ d, u.counter? h = some d ∧ (amounts h events).foldlM Number.add c.total = .ok d.total
  gauges : ∀ {h g}, t.gauge? h = some g →
    ∃ d, u.gauge? h = some d ∧ d.value = (writes h events).getLast?.getD g.value

variable {t u v : Tree} {events more : List Event}

theorem Continues.trans (sooner : t.Continues events u) (later : u.Continues more v) :
    t.Continues (events ++ more) v := by
  refine ⟨fun {h c} found => ?_, fun {h g} found => ?_⟩
  · obtain ⟨d, middle, sum⟩ := sooner.counters found
    obtain ⟨e, last, rest⟩ := later.counters middle
    refine ⟨e, last, ?_⟩
    rw [amounts_append, List.foldlM_append, sum]
    exact rest
  · obtain ⟨d, middle, value⟩ := sooner.gauges found
    obtain ⟨e, last, final⟩ := later.gauges middle
    refine ⟨e, last, ?_⟩
    rw [final, value, writes_append, List.getLast?_append]
    cases (writes h more).getLast? <;> rfl

/-- As long as nothing is written, it is enough that totals and values stay. -/
theorem Continues.of_cells (noWrite : ∀ e ∈ events, e.isWrite = false)
    (counters : ∀ {h c}, t.counter? h = some c → ∃ d, u.counter? h = some d ∧ d.total = c.total)
    (gauges : ∀ {h g}, t.gauge? h = some g → ∃ d, u.gauge? h = some d ∧ d.value = g.value) :
    t.Continues events u := by
  refine ⟨fun {h c} found => ?_, fun {h g} found => ?_⟩
  · obtain ⟨d, there, total⟩ := counters found
    rw [amounts_of_noWrite noWrite]
    exact ⟨d, there, congrArg Except.ok total.symm⟩
  · obtain ⟨d, there, value⟩ := gauges found
    rw [writes_of_noWrite noWrite]
    exact ⟨d, there, value⟩

theorem Change.continues (change : t.Change events u) : t.Continues events u := by
  cases change with
  | none =>
    exact .of_cells (List.forall_mem_nil _) (fun {_ c} found => ⟨c, found, rfl⟩) fun {_ g} found => ⟨g, found, rfl⟩
  | scope fresh =>
    exact .of_cells (List.forall_mem_nil _) (fun {_ c} found => ⟨c, (counter?_derive fresh).trans found, rfl⟩)
      fun {_ g} found => ⟨g, (gauge?_derive fresh).trans found, rfl⟩
  | counter present fresh =>
    refine .of_cells (List.forall_mem_nil _) (fun {k c} found => ⟨c, ?_, rfl⟩)
      fun {_ g} found => ⟨g, gauge?_setCounter.trans found, rfl⟩
    rw [counter?_setCounter present, if_neg, found]
    rintro rfl
    cases fresh.symm.trans found
  | gauge present fresh =>
    refine .of_cells (List.forall_mem_nil _) (fun {_ c} found => ⟨c, counter?_setGauge.trans found, rfl⟩)
      fun {k g} found => ⟨g, ?_, rfl⟩
    rw [gauge?_setGauge present, if_neg, found]
    rintro rfl
    cases fresh.symm.trans found
  | @added h c n total found sum =>
    refine ⟨fun {k d} known => ?_, fun {k g} known => ⟨g, gauge?_setCounter.trans known, rfl⟩⟩
    rw [counter?_setCounter (scope?_isSome_of_counter? found)]
    by_cases same : k = h
    · subst same
      cases found.symm.trans known
      refine ⟨_, if_pos rfl, ?_⟩
      simp only [amounts, List.filterMap_cons, if_true, List.filterMap_nil, List.foldlM_cons, sum]
      rfl
    · refine ⟨d, (if_neg same).trans known, ?_⟩
      simp only [amounts, List.filterMap_cons, if_neg (Ne.symm same), List.filterMap_nil]
      rfl
  | @updated h g x found =>
    refine ⟨fun {k c} known => ⟨c, counter?_setGauge.trans known, rfl⟩, fun {k d} known => ?_⟩
    rw [gauge?_setGauge (scope?_isSome_of_gauge? found)]
    by_cases same : k = h
    · subst same
      refine ⟨_, if_pos rfl, ?_⟩
      simp only [writes, List.filterMap_cons, if_true, List.filterMap_nil]
      rfl
    · refine ⟨d, (if_neg same).trans known, ?_⟩
      simp only [writes, List.filterMap_cons, if_neg (Ne.symm same), List.filterMap_nil]
      rfl

/-- What a pass does to a metric changes neither its total nor its value. -/
theorem Visit.cells {found : Option (Text × Observation)} (visit : t.Visit found u) :
    (∀ {h c}, t.counter? h = some c → ∃ d, u.counter? h = some d ∧ d.total = c.total) ∧
      ∀ {h g}, t.gauge? h = some g → ∃ d, u.gauge? h = some d ∧ d.value = g.value := by
  cases visit with
  | @idleCounter h c delta found | @counter h s c delta _ found =>
    refine ⟨fun {k d} known => ?_, fun {k g} known => ⟨g, gauge?_setCounter.trans known, rfl⟩⟩
    rw [counter?_setCounter (scope?_isSome_of_counter? found)]
    split
    · next same => subst same; cases found.symm.trans known; exact ⟨_, rfl, rfl⟩
    · exact ⟨d, known, rfl⟩
  | @cleanGauge h g found | @gauge h s g _ found =>
    refine ⟨fun {k c} known => ⟨c, counter?_setGauge.trans known, rfl⟩, fun {k d} known => ?_⟩
    rw [gauge?_setGauge (scope?_isSome_of_gauge? found)]
    split
    · next same => subst same; cases found.symm.trans known; exact ⟨_, rfl, rfl⟩
    · exact ⟨d, known, rfl⟩

theorem Sweep.continues {found : Option (Text × Observation)} (sweep : t.Sweep found u)
    (noWrite : ∀ e ∈ events, e.isWrite = false) : t.Continues events u := by
  induction sweep generalizing events with
  | stop => exact .of_cells noWrite (fun {_ c} found => ⟨c, found, rfl⟩) fun {_ g} found => ⟨g, found, rfl⟩
  | @pass t u v _ visit _ ih =>
    have sooner : t.Continues [] u := .of_cells (List.forall_mem_nil _) visit.cells.1 visit.cells.2
    exact sooner.trans (ih noWrite)
  | find visit => exact .of_cells noWrite visit.cells.1 visit.cells.2

end Tree

/-- Whatever a course does, its metrics go on from what they were. -/
theorem Course.continues_run (c : Course) (steps : List Course.Step) :
    ∃ events, (c.run steps).past = c.past ++ events ∧ c.loop.tree.Continues events (c.run steps).loop.tree := by
  refine run_induction (P := fun d => ∃ events, d.past = c.past ++ events ∧ c.loop.tree.Continues events d.loop.tree)
    ⟨[], (List.append_nil _).symm, Tree.Change.none.continues⟩ ?_
  rintro d step _ ⟨before, past, sooner⟩
  obtain ⟨events, longer, effect⟩ := d.take_effect step
  refine ⟨before ++ events, by rw [longer, past, List.append_assoc], sooner.trans ?_⟩
  cases effect with
  | granted _ run => exact (Request.perform_change run).continues
  | sweep sweep _ noWrite => exact sweep.continues noWrite

end MetricTree
