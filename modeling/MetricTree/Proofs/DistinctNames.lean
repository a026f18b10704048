import MetricTree.Proofs.PassSweep

namespace MetricTree

namespace Tree

/-- No scope is registered twice, and no metric twice in a scope. -/
structure Distinct (t : Tree) : Prop where
  identities : t.identities.Nodup
  counters : ∀ {i : Text} {s : Scope}, t.scope? i = some s → s.counters.keys.Nodup
  gauges : ∀ {i : Text} {s : Scope}, t.scope? i = some s → s.gauges.keys.Nodup

variable {t u : Tree} {h : Handle} {i : Text}

theorem Distinct.editScope {edit : Scope → Scope} (distinct : t.Distinct)
    (counters : ∀ s : Scope, s.counters.keys.Nodup → (edit s).counters.keys.Nodup)
    (gauges : ∀ s : Scope, s.gauges.keys.Nodup → (edit s).gauges.keys.Nodup) : (t.editScope i edit).Distinct := by
  refine ⟨?_, fun {j s} found => ?_, fun {j s} found => ?_⟩
  · rw [identities_editScope]
    exact distinct.identities
  · rw [scope?_editScope] at found
    split at found
    · obtain ⟨old, atScope, rfl⟩ := Option.map_eq_some_iff.mp found
      exact counters old (distinct.counters atScope)
    · exact distinct.counters found
  · rw [scope?_editScope] at found
    split at found
    · obtain ⟨old, atScope, rfl⟩ := Option.map_eq_some_iff.mp found
      exact gauges old (distinct.gauges atScope)
    · exact distinct.gauges found

theorem Distinct.setCounter {c : Counter} (distinct : t.Distinct) : (t.setCounter h c).Distinct :=
  distinct.editScope (fun _ => Table.nodup_keys_insert) fun _ => id

theorem Distinct.setGauge {g : Gauge} (distinct : t.Distinct) : (t.setGauge h g).Distinct :=
  distinct.editScope (fun _ => id) fun _ => Table.nodup_keys_insert

theorem identities_derive {stem : Text} {tags : Tags}
    (fresh : t.scope? (Scope.fresh stem tags).identity = none) :
    (t.derive stem tags).2.identities =
      (t.registry.slots.insert (Scope.fresh stem tags).identity (some (Scope.fresh stem tags))).keys := by
  have absent : t.registry.get? (Scope.fresh stem tags).identity = none := fresh
  simp only [Tree.derive, Registry.settle, absent]
  rfl

theorem Distinct.derive {stem : Text} {tags : Tags} (distinct : t.Distinct) :
    (t.derive stem tags).2.Distinct := by
  cases known : t.scope? (Scope.fresh stem tags).identity with
  | some s =>
    rw [derive_of_scope? known]
    exact distinct
  | none =>
    refine ⟨?_, fun {i s} found => ?_, fun {i s} found => ?_⟩
    · rw [identities_derive known]
      exact Table.nodup_keys_insert distinct.identities
    · rw [scope?_derive known] at found
      split at found
      · cases found
        exact List.nodup_nil
      · exact distinct.counters found
    · rw [scope?_derive known] at found
      split at found
      · cases found
        exact List.nodup_nil
      · exact distinct.gauges found

theorem Change.distinct {events : List Course.Event} (change : t.Change events u) (distinct : t.Distinct) :
    u.Distinct := by
  cases change with
  | none => exact distinct
  | scope => exact distinct.derive
  | counter | added => exact distinct.setCounter
  | gauge | updated => exact distinct.setGauge

theorem Visit.distinct {found : Option (Text × Observation)} (visit : t.Visit found u) (distinct : t.Distinct) :
    u.Distinct := by
  cases visit with
  | idleCounter | counter => exact distinct.setCounter
  | cleanGauge | gauge => exact distinct.setGauge

theorem Sweep.distinct {found : Option (Text × Observation)} (sweep : t.Sweep found u) (distinct : t.Distinct) :
    u.Distinct :=
  sweep.preserves Visit.distinct distinct

theorem distinct_ofRoot (separator stem : Text) (tags : Tags) : (Tree.ofRoot separator stem tags).2.Distinct := by
  have empty : (Tree.mk separator .empty).Distinct :=
    ⟨List.nodup_nil, fun {i s} found => (by cases found), fun {i s} found => (by cases found)⟩
  exact empty.derive

theorem counterNames_editScope {edit : Scope → Scope} {j : Text}
    (same : ∀ s, t.scope? i = some s → (edit s).counters.keys = s.counters.keys) :
    (t.editScope i edit).counterNames j = t.counterNames j := by
  simp only [counterNames, scope?_editScope]
  split
  · next here =>
    subst here
    cases found : t.scope? j with
    | none => rfl
    | some s => exact same s found
  · rfl

theorem gaugeNames_editScope {edit : Scope → Scope} {j : Text}
    (same : ∀ s, t.scope? i = some s → (edit s).gauges.keys = s.gauges.keys) :
    (t.editScope i edit).gaugeNames j = t.gaugeNames j := by
  simp only [gaugeNames, scope?_editScope]
  split
  · next here =>
    subst here
    cases found : t.scope? j with
    | none => rfl
    | some s => exact same s found
  · rfl

theorem mem_keys_of_counter? {c : Counter} {s : Scope} (found : t.counter? h = some c)
    (atScope : t.scope? h.scope = some s) : h.name ∈ s.counters.keys := by
  rw [counter?, atScope, Option.bind_some] at found
  exact Table.mem_keys_of_get? found

theorem mem_keys_of_gauge? {g : Gauge} {s : Scope} (found : t.gauge? h = some g)
    (atScope : t.scope? h.scope = some s) : h.name ∈ s.gauges.keys := by
  rw [gauge?, atScope, Option.bind_some] at found
  exact Table.mem_keys_of_get? found

/-- A visit brings no names and takes none away. -/
theorem Visit.names {found : Option (Text × Observation)} (visit : t.Visit found u) (j : Text) :
    u.counterNames j = t.counterNames j ∧ u.gaugeNames j = t.gaugeNames j := by
  cases visit with
  | idleCounter found | counter _ found =>
    exact ⟨counterNames_editScope fun s atScope => Table.keys_insert_of_mem (mem_keys_of_counter? found atScope),
      gaugeNames_editScope fun _ _ => rfl⟩
  | cleanGauge found | gauge _ found =>
    exact ⟨counterNames_editScope fun _ _ => rfl,
      gaugeNames_editScope fun s atScope => Table.keys_insert_of_mem (mem_keys_of_gauge? found atScope)⟩

theorem Sweep.names {found : Option (Text × Observation)} (sweep : t.Sweep found u) (j : Text) :
    u.counterNames j = t.counterNames j ∧ u.gaugeNames j = t.gaugeNames j :=
  sweep.preserves (P := fun v => v.counterNames j = t.counterNames j ∧ v.gaugeNames j = t.gaugeNames j)
    (fun visit before => ⟨(visit.names j).1.trans before.1, (visit.names j).2.trans before.2⟩) ⟨rfl, rfl⟩

end Tree

end MetricTree
