import MetricTree.Proofs.CellHistory
import MetricTree.Proofs.Deduplication
import MetricTree.Proofs.StageRuns

namespace MetricTree

namespace Tree

variable {t : Tree} {h : Handle}

/-- Whoever asks for a counter that is there gets it, and changes nothing. -/
theorem counter_again {c : Counter} (found : t.counter? h = some c) :
    t.counter h.scope (.text h.name) = .ok (h, t) := by
  obtain ⟨s, atScope, inScope⟩ := Option.bind_eq_some_iff.mp found
  have present := Table.contains_iff.mpr (Table.mem_keys_of_get? inScope)
  exact counter_eq_ok.mpr ⟨s, h.name, atScope, rfl, .inl present, by rw [if_pos present]⟩

/-- Whoever asks for a gauge that is there gets it, and changes nothing. -/
theorem gauge_again {g : Gauge} (found : t.gauge? h = some g) :
    t.gauge h.scope (.text h.name) = .ok (h, t) := by
  obtain ⟨s, atScope, inScope⟩ := Option.bind_eq_some_iff.mp found
  have present := Table.contains_iff.mpr (Table.mem_keys_of_get? inScope)
  exact gauge_eq_ok.mpr ⟨s, h.name, atScope, rfl, .inl present, by rw [if_pos present]⟩

end Tree

namespace Course

theorem separator_run {o : Options} {interval : Interval} {opening : Opening}
    (opened : Opening.ofOptions o interval = .ok opening) (steps : List Step) :
    Options.checkSeparator o.separator = .ok ((Course.opened opening).run steps).loop.tree.separator := by
  obtain ⟨separator, stem, tags, accepted, _, _, _, _, _, tree⟩ := Opening.ofOptions_root opened
  have root : (Course.opened opening).loop.tree.separator = separator := congrArg Tree.separator tree
  rw [((Course.opened opening).retains_run steps).separator, root, accepted]

/-- At every moment a tree holds scopes of plain parts, each of them once and under its own identity, with the
separator and the reporter that it was opened with; and from then on scopes and metrics stay what and where they
are. -/
theorem tree_represented {o : Options} {interval : Interval} {opening : Opening}
    (opened : Opening.ofOptions o interval = .ok opening) (distinct : o.tags.keys.Nodup) (steps : List Step) :
    let c := (Course.opened opening).run steps
    let t := c.loop.tree
    t.Proper ∧ t.Distinct ∧
    (∀ i j s r, t.scope? i = some s → t.scope? j = some r → s.stem = r.stem → s.tags.Agrees r.tags → i = j) ∧
    (∀ i links name x, (Course.opened opening).Led i steps links x → .below name ∈ links →
      ∃ s, t.scope? x = some s ∧ s.stem ≠ "") ∧
    Options.checkSeparator o.separator = .ok t.separator ∧ c.loop.reporter = o.reporter ∧
    ∀ later, let u := (c.run later).loop.tree
      u.Retains t ∧ u.Follows t ∧ (c.run later).loop.reporter = o.reporter ∧
      (∀ h cell, t.counter? h = some cell → u.counter h.scope (.text h.name) = .ok (h, u)) ∧
      (∀ h cell, t.gauge? h = some cell → u.gauge h.scope (.text h.name) = .ok (h, u)) ∧
      ∃ events, (c.run later).past = c.past ++ events ∧ t.Continues events u := by
  intro c t
  have first : (Course.opened opening).loop.tree.Proper := Opening.proper opened distinct
  have proper : t.Proper := proper_run first steps
  obtain ⟨_, _, _, reporter⟩ := placed_run opened steps
  refine ⟨proper, distinct_run opened steps, fun i j s r => proper.unique, ?_, separator_run opened steps, reporter, ?_⟩
  · intro i links name x led below
    obtain ⟨accepted, s, q, _, there, stem, _⟩ := led.scope? first
    exact ⟨q, there, stem ▸ stemAfter_ne_empty accepted below⟩
  · intro later u
    have still : u.Proper := proper_run proper later
    obtain ⟨events, past, continues⟩ := c.continues_run later
    obtain ⟨_, _, _, unchanged⟩ := placed_run opened (steps ++ later)
    refine ⟨c.retains_run later, c.follows_run later, ?_, ?_, ?_, events, past, continues⟩
    · rwa [run_append] at unchanged
    · intro h cell found
      obtain ⟨now, there, _⟩ := continues.counters found
      exact Tree.counter_again there
    · intro h cell found
      obtain ⟨now, there, _⟩ := continues.gauges found
      exact Tree.gauge_again there

/-- A reporter makes a counter and adds to the one it is told of, and then breaks the pass off; the tree is closed and
still asked for a scope. -/
theorem tree_represented_reentrant :
    let tags : Table Value Value := ⟨[(.text "env", .text "")]⟩
    let steps : List Step := [.request (.subScope "env=" (.text "a")),
      .request (.counter "a+env=" (.text "hits")), .request (.counter "a+env=" (.text "x+y")),
      .request (.inc ⟨"a+env=", "hits"⟩ (.int 3)), .report]
    let later : List Step := [.request (.counter "a+env=" (.text "more")),
      .request (.inc ⟨"a+env=", "hits"⟩ (.int 4)), .outcome (.aborted "stop"), .close, .outcome .returned,
      .outcome .returned, .outcome .returned, .request (.subScope "env=" (.text "late"))]
    ∃ opening, Opening.ofOptions ⟨.text "", .null, tags, some ⟨"Recorder", true, true⟩⟩ (.value .null) = .ok opening ∧
      let t := ((Course.opened opening).run steps).loop.tree
      let u := (((Course.opened opening).run steps).run later).loop.tree
      t.Proper ∧ t.separator = "." ∧ u.Follows t ∧ u.identities = ["env=", "a+env=", "late+env="] ∧
      u.counter "a+env=" (.text "hits") = .ok (⟨"a+env=", "hits"⟩, u) := by
  intro tags steps later
  have start : Opening.ofOptions ⟨.text "", .null, tags, some ⟨"Recorder", true, true⟩⟩ (.value .null) =
    .ok _ := rfl
  refine ⟨_, start, ?_⟩
  obtain ⟨proper, _, _, _, separator, _, onward⟩ := tree_represented start (List.nodup_singleton _) steps
  obtain ⟨_, follows, _, again, _⟩ := onward later
  generalize held : Course.opened _ = c at *
  have made : ((c.run steps).loop.tree.counter? ⟨"a+env=", "hits"⟩).isSome := by subst held; decide +kernel
  have identities : ((c.run steps).run later).loop.tree.identities = ["env=", "a+env=", "late+env="] := by
    subst held; decide +kernel
  obtain ⟨cell, found⟩ := Option.isSome_iff_exists.mp made
  have answer := again _ cell found
  dsimp only at answer
  exact ⟨proper, (Except.ok.inj separator).symm, follows, identities, answer⟩

end Course

end MetricTree
