import MetricTree.Proofs.LoopMoves
import MetricTree.Proofs.TreeChange

namespace MetricTree

namespace Opening

variable {o : Options} {interval : Interval} {opening : Opening}

/-- A tree with just its root, with its loop just started. -/
def made (separator stem : Text) (tags : Tags) (seconds : Binary64) (reporter : Option Reporter) : Opening :=
  let (root, tree) := Tree.ofRoot separator stem tags
  let (loop, notices) := Loop.start ⟨tree, seconds, reporter, .idle, 0, false⟩
  ⟨root, loop, notices⟩

theorem made_loop (separator stem : Text) (tags : Tags) (seconds : Binary64) (reporter : Option Reporter) :
    let loop := (made separator stem tags seconds reporter).loop
    loop.tree = (Tree.ofRoot separator stem tags).2 ∧ loop.interval = seconds ∧ loop.reporter = reporter := by
  intro loop
  have started : loop =
      (Loop.start ⟨(Tree.ofRoot separator stem tags).2, seconds, reporter, .idle, 0, false⟩).1 := rfl
  rw [started]
  rcases Loop.start_cases with same | ⟨_, same⟩ <;> rw [same] <;> exact ⟨rfl, rfl, rfl⟩

/-- A tree is opened just if the reporter and all that it would be made of are accepted. -/
theorem ofOptions_eq_ok : ofOptions o interval = .ok opening ↔ Options.checkReporter o.reporter = .ok () ∧
    ∃ separator stem tags seconds, Options.checkSeparator o.separator = .ok separator ∧
      Identity.checkName "prefix" true o.stem = .ok stem ∧ Identity.checkTags o.tags = .ok tags ∧
      interval.seconds = .ok seconds ∧ opening = made separator stem tags seconds o.reporter := by
  simp only [ofOptions, bind_eq_ok]
  constructor
  · rintro ⟨_, complete, separator, first, stem, second, tags, third, seconds, fourth, same⟩
    cases same
    exact ⟨complete, separator, stem, tags, seconds, first, second, third, fourth, rfl⟩
  · rintro ⟨complete, separator, stem, tags, seconds, first, second, third, fourth, rfl⟩
    exact ⟨(), complete, separator, first, stem, second, tags, third, seconds, fourth, rfl⟩

/-- An opened tree has just its root, and its loop has just been started. -/
theorem ofOptions_start (opened : Opening.ofOptions o interval = .ok opening) :
    ∃ separator stem tags seconds,
      Loop.start ⟨(Tree.ofRoot separator stem tags).2, seconds, o.reporter, .idle, 0, false⟩ =
        (opening.loop, opening.notices) := by
  obtain ⟨_, separator, stem, tags, seconds, _, _, _, _, rfl⟩ := ofOptions_eq_ok.mp opened
  exact ⟨separator, stem, tags, seconds, rfl⟩

theorem ofOptions_tree (opened : Opening.ofOptions o interval = .ok opening) :
    ∃ separator stem tags, opening.loop.tree = (Tree.ofRoot separator stem tags).2 := by
  obtain ⟨_, separator, stem, tags, seconds, _, _, _, _, rfl⟩ := ofOptions_eq_ok.mp opened
  exact ⟨separator, stem, tags, (made_loop separator stem tags seconds o.reporter).1⟩

end Opening

namespace Tree

/-- The root is derived in a tree of no scopes. -/
theorem ofRoot_eq_derive (separator stem : Text) (tags : Tags) :
    Tree.ofRoot separator stem tags = (Tree.mk separator .empty).derive stem tags := rfl

theorem scope?_ofRoot (separator stem : Text) (tags : Tags) :
    (Tree.ofRoot separator stem tags).2.scope? (Tree.ofRoot separator stem tags).1 = some (.fresh stem tags) := by
  rw [ofRoot_eq_derive, scope?_derive rfl]
  exact if_pos rfl

theorem counter?_ofRoot (separator stem : Text) (tags : Tags) (h : Handle) :
    (Tree.ofRoot separator stem tags).2.counter? h = none := by
  rw [ofRoot_eq_derive, counter?_derive rfl]
  rfl

theorem gauge?_ofRoot (separator stem : Text) (tags : Tags) (h : Handle) :
    (Tree.ofRoot separator stem tags).2.gauge? h = none := by
  rw [ofRoot_eq_derive, gauge?_derive rfl]
  rfl

end Tree

/-- A tree is opened without metrics. -/
theorem Opening.counter?_eq_none {o : Options} {interval : Interval} {opening : Opening}
    (opened : Opening.ofOptions o interval = .ok opening) (h : Handle) : opening.loop.tree.counter? h = none := by
  obtain ⟨separator, stem, tags, tree⟩ := ofOptions_tree opened
  rw [tree]
  exact Tree.counter?_ofRoot separator stem tags h

theorem Opening.gauge?_eq_none {o : Options} {interval : Interval} {opening : Opening}
    (opened : Opening.ofOptions o interval = .ok opening) (h : Handle) : opening.loop.tree.gauge? h = none := by
  obtain ⟨separator, stem, tags, tree⟩ := ofOptions_tree opened
  rw [tree]
  exact Tree.gauge?_ofRoot separator stem tags h

end MetricTree
