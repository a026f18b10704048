import MetricTree.Proofs.StepEffect

namespace MetricTree

namespace Tree

/-- All scopes are still there, made of the same stems and tags, and with the same separator. -/
structure Retains (u t : Tree) : Prop where
  separator : u.separator = t.separator
  scopes : ∀ {i s}, t.scope? i = some s → ∃ r, u.scope? i = some r ∧ r.stem = s.stem ∧ r.tags = s.tags

variable {t u v : Tree} {h : Handle} {i : Text}

theorem Retains.refl (t : Tree) : t.Retains t := ⟨rfl, fun {_ s} found => ⟨s, found, rfl, rfl⟩⟩

theorem Retains.trans (later : v.Retains u) (sooner : u.Retains t) : v.Retains t := by
  refine ⟨later.separator.trans sooner.separator, fun {i s} found => ?_⟩
  obtain ⟨r, middle, stem, tags⟩ := sooner.scopes found
  obtain ⟨q, last, sameStem, sameTags⟩ := later.scopes middle
  exact ⟨q, last, sameStem.trans stem, sameTags.trans tags⟩

theorem editScope_retains {edit : Scope → Scope} (stem : ∀ s, (edit s).stem = s.stem)
    (tags : ∀ s, (edit s).tags = s.tags) : (t.editScope i edit).Retains t := by
  refine ⟨separator_editScope, fun {j s} found => ?_⟩
  rw [scope?_editScope]
  split
  · next here => exact ⟨edit s, by rw [← here, found, Option.map_some], stem s, tags s⟩
  · exact ⟨s, found, rfl, rfl⟩

theorem setCounter_retains {c : Counter} : (t.setCounter h c).Retains t :=
  editScope_retains (fun _ => rfl) fun _ => rfl

theorem setGauge_retains {g : Gauge} : (t.setGauge h g).Retains t :=
  editScope_retains (fun _ => rfl) fun _ => rfl

theorem derive_retains {stem : Text} {tags : Tags} (fresh : t.scope? (Scope.fresh stem tags).identity = none) :
    (t.derive stem tags).2.Retains t := by
  refine ⟨rfl, fun {i s} found => ⟨s, ?_, rfl, rfl⟩⟩
  rw [scope?_derive fresh, if_neg, found]
  rintro rfl
  cases fresh.symm.trans found

theorem Change.retains {events : List Course.Event} (change : t.Change events u) : u.Retains t := by
  cases change with
  | none => exact .refl t
  | scope fresh => exact derive_retains fresh
  | counter | added => exact setCounter_retains
  | gauge | updated => exact setGauge_retains

theorem Visit.retains {found : Option (Text × Observation)} (visit : t.Visit found u) : u.Retains t := by
  cases visit with
  | idleCounter | counter => exact setCounter_retains
  | cleanGauge | gauge => exact setGauge_retains

end Tree

/-- Whatever a course does, every scope remains what it was made of. -/
theorem Course.retains_run (c : Course) (steps : List Course.Step) :
    (c.run steps).loop.tree.Retains c.loop.tree := by
  refine tree_induction (P := fun t => t.Retains c.loop.tree) (.refl _) ?_ ?_
  · exact fun run before => (Request.perform_change run).retains.trans before
  · exact fun visit before => visit.retains.trans before

end MetricTree
