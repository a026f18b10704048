import MetricTree.Proofs.DistinctNames
import MetricTree.Proofs.Openings
import MetricTree.Proofs.StepEffect

namespace MetricTree

namespace Tree

/-- Scopes and metrics keep their places, and new ones come after all others. -/
structure Follows (u t : Tree) : Prop where
  identities : t.identities <+: u.identities
  counters : ∀ i, t.counterNames i <+: u.counterNames i
  gauges : ∀ i, t.gaugeNames i <+: u.gaugeNames i

variable {t u v : Tree} {h : Handle} {i j : Text}

theorem Follows.refl (t : Tree) : t.Follows t :=
  ⟨List.prefix_refl _, fun _ => List.prefix_refl _, fun _ => List.prefix_refl _⟩

theorem Follows.trans (later : v.Follows u) (sooner : u.Follows t) : v.Follows t :=
  ⟨sooner.identities.trans later.identities, fun i => (sooner.counters i).trans (later.counters i),
    fun i => (sooner.gauges i).trans (later.gauges i)⟩

theorem editScope_follows {edit : Scope → Scope} (counters : ∀ s : Scope, s.counters.keys <+: (edit s).counters.keys)
    (gauges : ∀ s : Scope, s.gauges.keys <+: (edit s).gauges.keys) : (t.editScope i edit).Follows t := by
  refine ⟨?_, fun j => ?_, fun j => ?_⟩
  · exact identities_editScope.symm ▸ List.prefix_refl _
  · simp only [counterNames, scope?_editScope]
    split
    · next here =>
      subst here
      cases t.scope? j with
      | none => exact List.prefix_refl _
      | some s => exact counters s
    · exact List.prefix_refl _
  · simp only [gaugeNames, scope?_editScope]
    split
    · next here =>
      subst here
      cases t.scope? j with
      | none => exact List.prefix_refl _
      | some s => exact gauges s
    · exact List.prefix_refl _

theorem setCounter_follows {c : Counter} : (t.setCounter h c).Follows t :=
  editScope_follows (fun _ => Table.keys_prefix_insert) fun _ => List.prefix_refl _

theorem setGauge_follows {g : Gauge} : (t.setGauge h g).Follows t :=
  editScope_follows (fun _ => List.prefix_refl _) fun _ => Table.keys_prefix_insert

theorem derive_follows {stem : Text} {tags : Tags} (fresh : t.scope? (Scope.fresh stem tags).identity = none) :
    (t.derive stem tags).2.Follows t := by
  refine ⟨?_, fun i => ?_, fun i => ?_⟩
  · rw [identities_derive fresh]
    exact Table.keys_prefix_insert
  · simp only [counterNames, scope?_derive fresh]
    split
    · next here =>
      rw [here, fresh]
      exact List.nil_prefix
    · exact List.prefix_refl _
  · simp only [gaugeNames, scope?_derive fresh]
    split
    · next here =>
      rw [here, fresh]
      exact List.nil_prefix
    · exact List.prefix_refl _

theorem Change.follows {events : List Course.Event} (change : t.Change events u) : u.Follows t := by
  cases change with
  | none => exact .refl t
  | scope fresh => exact derive_follows fresh
  | counter | added => exact setCounter_follows
  | gauge | updated => exact setGauge_follows

theorem Visit.follows {found : Option (Text × Observation)} (visit : t.Visit found u) : u.Follows t := by
  cases visit with
  | idleCounter | counter => exact setCounter_follows
  | cleanGauge | gauge => exact setGauge_follows

end Tree

namespace Course

/-- Whatever a course does, all that was registered keeps its place. -/
theorem follows_run (c : Course) (steps : List Step) : (c.run steps).loop.tree.Follows c.loop.tree := by
  refine tree_induction (P := fun t => t.Follows c.loop.tree) (.refl _) ?_ ?_
  · exact fun run before => (Request.perform_change run).follows.trans before
  · exact fun visit before => visit.follows.trans before

theorem distinct_run {o : Options} {interval : Interval} {opening : Opening}
    (opened : Opening.ofOptions o interval = .ok opening) (steps : List Step) :
    ((Course.opened opening).run steps).loop.tree.Distinct := by
  refine tree_induction ?_ ?_ ?_
  · obtain ⟨separator, stem, tags, tree⟩ := Opening.ofOptions_tree opened
    rw [Course.opened, tree]
    exact Tree.distinct_ofRoot separator stem tags
  · exact fun run => (Request.perform_change run).distinct
  · exact Tree.Visit.distinct

end Course

end MetricTree
