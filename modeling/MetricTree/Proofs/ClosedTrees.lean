import MetricTree.Proofs.StageSteps

namespace MetricTree

namespace Tree

/-- Nothing that is still to be reported was consumed on the way from one tree to the other. -/
structure Kept (t u : Tree) : Prop where
  counters : ∀ {h : Handle} {c : Counter}, t.counter? h = some c →
    ∃ later, u.counter? h = some later ∧ later.reported = c.reported
  gauges : ∀ {h : Handle} {g : Gauge}, t.gauge? h = some g →
    ∃ later, u.gauge? h = some later ∧ (g.dirty = true → later.dirty = true)

variable {t u v : Tree}

theorem Kept.refl (t : Tree) : t.Kept t := ⟨fun found => ⟨_, found, rfl⟩, fun found => ⟨_, found, id⟩⟩

theorem Kept.trans (first : t.Kept u) (rest : u.Kept v) : t.Kept v := by
  constructor
  · intro h c found
    obtain ⟨between, found, same⟩ := first.counters found
    obtain ⟨later, found, again⟩ := rest.counters found
    exact ⟨later, found, again.trans same⟩
  · intro h g found
    obtain ⟨between, found, still⟩ := first.gauges found
    obtain ⟨later, found, again⟩ := rest.gauges found
    exact ⟨later, found, again ∘ still⟩

theorem Kept.of_cells (counters : ∀ h, u.counter? h = t.counter? h) (gauges : ∀ h, u.gauge? h = t.gauge? h) :
    t.Kept u :=
  ⟨fun found => ⟨_, (counters _).trans found, rfl⟩, fun found => ⟨_, (gauges _).trans found, id⟩⟩

theorem setCounter_kept {h : Handle} {c : Counter} (present : (t.scope? h.scope).isSome)
    (same : ∀ old, t.counter? h = some old → c.reported = old.reported) : t.Kept (t.setCounter h c) := by
  refine ⟨fun {k old} found => ?_, fun found => ⟨_, gauge?_setCounter.trans found, id⟩⟩
  rw [counter?_setCounter present]
  by_cases here : k = h
  · subst here
    exact ⟨c, if_pos rfl, same old found⟩
  · exact ⟨old, (if_neg here).trans found, rfl⟩

theorem setGauge_kept {h : Handle} {g : Gauge} (present : (t.scope? h.scope).isSome)
    (still : ∀ old, t.gauge? h = some old → old.dirty = true → g.dirty = true) : t.Kept (t.setGauge h g) := by
  refine ⟨fun found => ⟨_, counter?_setGauge.trans found, rfl⟩, fun {k old} found => ?_⟩
  rw [gauge?_setGauge present]
  by_cases here : k = h
  · subst here
    exact ⟨g, if_pos rfl, still old found⟩
  · exact ⟨old, (if_neg here).trans found, id⟩

/-- Callers consume nothing. -/
theorem Change.kept {events : List Course.Event} (change : t.Change events u) : t.Kept u := by
  cases change with
  | none => exact .refl t
  | scope fresh => exact .of_cells (fun _ => counter?_derive fresh) fun _ => gauge?_derive fresh
  | counter present fresh =>
    exact setCounter_kept present fun old found => by cases fresh.symm.trans found
  | gauge present fresh =>
    exact setGauge_kept present fun old found => by cases fresh.symm.trans found
  | added found sum =>
    refine setCounter_kept (scope?_isSome_of_counter? found) fun old same => ?_
    cases found.symm.trans same
    rfl
  | updated found => exact setGauge_kept (scope?_isSome_of_gauge? found) fun _ _ _ => rfl

end Tree

namespace Course

variable {c : Course}

/-- Once a loop is over, only callers change its tree. -/
theorem At.finished_kept (here : c.At .finished) (step : Step) : c.loop.tree.Kept (c.take step).loop.tree := by
  cases here with
  | finished parting rest closed =>
    have ended : c.loop.phase.isOver = true := by rw [closed]; rfl
    cases step with
    | request r =>
      cases run : r.perform c.loop.tree with
      | error fault =>
        simp only [take, run]
        exact .refl _
      | ok done =>
        simp only [take, run]
        exact (Request.perform_change run).kept
    | start =>
      have same : (c.take .start).loop.tree = c.loop.tree := c.loop.start_tree
      rw [same]
      exact .refl _
    | report =>
      have planned : c.loop.planReport = .answer (some .empty) := by
        simp only [Loop.planReport, ended, Bool.or_true, Bool.true_or, if_true]
      have same : (c.take .report).loop = c.loop := by
        simp only [take, move, Loop.report, planned]
        rfl
      rw [same]
      exact .refl _
    | close =>
      have same : (c.take .close).loop = c.loop := by
        simp only [take, move, Loop.close, Loop.planClose, ended, Bool.true_or, if_true]
        rfl
      rw [same]
      exact .refl _
    | outcome o =>
      cases waiting : c.waiting with
      | nil =>
        simp only [take, waiting]
        exact .refl _
      | cons a outer =>
        obtain ⟨notices, answer, same, _⟩ :=
          c.loop.resume_of_leaving (o := o) (parting a (waiting ▸ List.mem_cons_self ..))
        simp only [take, waiting, move, same]
        exact .refl _

/-- It stays over, and nothing of importance happens any more. -/
theorem At.finished_take (here : c.At .finished) (step : Step) :
    (c.take step).At .finished ∧ ∃ events, (c.take step).past = c.past ++ events ∧ ∀ e ∈ events, e.isQuiet = true := by
  obtain ⟨events, next, advances⟩ := take_advances here step
  have stays : next = .finished ∧ ∀ e ∈ events, e.isQuiet = true := by
    cases advances.leads with
    | quiet quiet => exact ⟨rfl, quiet⟩
  obtain ⟨rfl, quiet⟩ := stays
  exact ⟨advances.here, events, advances.past, quiet⟩

theorem At.finished_run (here : c.At .finished) (more : List Step) :
    c.loop.tree.Kept (c.run more).loop.tree ∧
      ∃ events, (c.run more).past = c.past ++ events ∧ ∀ e ∈ events, e.isQuiet = true := by
  refine (run_induction (P := fun d => d.At .finished ∧ c.loop.tree.Kept d.loop.tree ∧
    ∃ events, d.past = c.past ++ events ∧ ∀ e ∈ events, e.isQuiet = true)
    ⟨here, .refl _, [], (List.append_nil _).symm, fun e member => by cases member⟩ ?_).2
  rintro d step _ ⟨there, kept, events, past, quiet⟩
  obtain ⟨still, more, past', quiet'⟩ := there.finished_take step
  refine ⟨still, kept.trans (there.finished_kept step), events ++ more, ?_, List.forall_mem_append.mpr ⟨quiet, quiet'⟩⟩
  rw [past', past, List.append_assoc]

end Course

end MetricTree
