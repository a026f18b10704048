import MetricTree.Proofs.ProperTree

namespace MetricTree

open Identity

namespace Tree

variable {t u : Tree} {i : Text} {h : Handle}

theorem checkName_metric_eq_ok {name : Value} {text : Text} :
    checkName "metric name" false name = .ok text ↔ name = .text text ∧ ProperName text := by
  rw [checkName_eq_ok]
  constructor
  · rintro ⟨same, plain, filled⟩
    exact ⟨same, fun empty => Bool.false_ne_true (filled empty), plain⟩
  · rintro ⟨same, filled, plain⟩
    exact ⟨same, plain, fun empty => absurd empty filled⟩

theorem counter_eq_ok {name : Value} {result : Handle × Tree} :
    t.counter i name = .ok result ↔ ∃ s text, t.scope? i = some s ∧ name.textKey? = some text ∧
      (s.counters.contains text = true ∨ name = .text text ∧ ProperName text) ∧
      result = (⟨i, text⟩, if s.counters.contains text then t else t.setCounter ⟨i, text⟩ .fresh) := by
  rw [counter, findOrMake_eq_ok]
  refine exists_congr fun s => exists_congr fun text => and_congr_right fun atScope => ?_
  rw [checkName_metric_eq_ok, setCounter, editScope_of_scope? atScope]

theorem gauge_eq_ok {name : Value} {result : Handle × Tree} :
    t.gauge i name = .ok result ↔ ∃ s text, t.scope? i = some s ∧ name.textKey? = some text ∧
      (s.gauges.contains text = true ∨ name = .text text ∧ ProperName text) ∧
      result = (⟨i, text⟩, if s.gauges.contains text then t else t.setGauge ⟨i, text⟩ .fresh) := by
  rw [gauge, findOrMake_eq_ok]
  refine exists_congr fun s => exists_congr fun text => and_congr_right fun atScope => ?_
  rw [checkName_metric_eq_ok, setGauge, editScope_of_scope? atScope]

theorem Proper.counter {name : Value} {result : Handle × Tree} (proper : t.Proper)
    (run : t.counter i name = .ok result) : result.2.Proper := by
  obtain ⟨s, text, _, _, allowed, rfl⟩ := counter_eq_ok.mp run
  simp only
  split
  · exact proper
  · next absent => exact proper.setCounter (allowed.resolve_left absent).2

theorem Proper.gauge {name : Value} {result : Handle × Tree} (proper : t.Proper)
    (run : t.gauge i name = .ok result) : result.2.Proper := by
  obtain ⟨s, text, _, _, allowed, rfl⟩ := gauge_eq_ok.mp run
  simp only
  split
  · exact proper
  · next absent => exact proper.setGauge (allowed.resolve_left absent).2

theorem Proper.inc {amount : Value} (proper : t.Proper) (run : t.inc h amount = .ok u) : u.Proper := by
  obtain ⟨c, read, run⟩ := bind_eq_ok.mp run
  obtain ⟨_, _, run⟩ := bind_eq_ok.mp run
  obtain ⟨_, rfl⟩ := putCounter_eq_ok.mp run
  exact proper.setCounter (proper.counterName (readCounter_eq_ok.mp read))

theorem Proper.update {value : Value} (proper : t.Proper) (run : t.update h value = .ok u) : u.Proper := by
  obtain ⟨g, read, run⟩ := bind_eq_ok.mp run
  obtain ⟨_, _, run⟩ := bind_eq_ok.mp run
  obtain ⟨_, rfl⟩ := putGauge_eq_ok.mp run
  exact proper.setGauge (proper.gaugeName (readGauge_eq_ok.mp read))

theorem proper_ofRoot {separator stem : Text} {tags : Tags} (named : ProperName separator)
    (made : (Scope.fresh stem tags).Proper) : (Tree.ofRoot separator stem tags).2.Proper := by
  have empty : (Tree.mk separator .empty).Proper :=
    ⟨named, nofun, fun {i s} found => (by cases found), fun {i s} found => (by cases found)⟩
  exact empty.derive made

end Tree

/-- A request that is granted leaves a proper tree proper. -/
theorem Course.Request.perform_proper {t u : Tree} {r : Course.Request} {events : List Course.Event}
    (granted : r.perform t = .ok (events, u)) (proper : t.Proper) : u.Proper := by
  cases r with
  | tagged scope tags =>
    obtain ⟨result, run, same⟩ := bind_eq_ok.mp granted
    cases same
    exact proper.tagged run
  | subScope scope name =>
    obtain ⟨result, run, same⟩ := bind_eq_ok.mp granted
    cases same
    exact proper.subScope run
  | counter scope name =>
    obtain ⟨result, run, same⟩ := bind_eq_ok.mp granted
    cases same
    exact proper.counter run
  | gauge scope name =>
    obtain ⟨result, run, same⟩ := bind_eq_ok.mp granted
    cases same
    exact proper.gauge run
  | inc h amount =>
    obtain ⟨after, run, same⟩ := bind_eq_ok.mp granted
    cases same
    exact proper.inc run
  | update h value =>
    obtain ⟨x, _, granted⟩ := bind_eq_ok.mp granted
    obtain ⟨after, run, same⟩ := bind_eq_ok.mp granted
    cases same
    exact proper.update run
  | snapshot =>
    obtain ⟨seen, _, same⟩ := bind_eq_ok.mp granted
    cases same
    exact proper

theorem Options.properName_of_checkSeparator {v : Value} {separator : Text}
    (accepted : Options.checkSeparator v = .ok separator) : ProperName separator := by
  unfold checkSeparator at accepted
  split at accepted
  · cases accepted
    exact ⟨by decide, by decide⟩
  · next truthy =>
    split at accepted
    · next s =>
      split at accepted
      · cases accepted
      · next unreserved =>
        cases accepted
        refine ⟨fun empty => ?_, fun c member => ?_⟩
        · rw [empty] at truthy
          exact truthy rfl
        · rw [List.any_eq_true, not_exists] at unreserved
          exact Bool.not_eq_true _ ▸ fun reserved => unreserved c ⟨member, reserved⟩
    · obtain ⟨_, _, refused⟩ := bind_eq_ok.mp accepted
      cases refused

namespace Opening

variable {o : Options} {interval : Interval} {opening : Opening}

/-- A tree is opened with a root that is made of what was asked for. -/
theorem ofOptions_root (opened : Opening.ofOptions o interval = .ok opening) :
    ∃ separator stem tags, Options.checkSeparator o.separator = .ok separator ∧
      o.stem = .text stem ∧ Plain stem ∧ o.tags = tags.given ∧ PlainTags tags ∧
      opening.root = (Tree.ofRoot separator stem tags).1 ∧ opening.loop.tree = (Tree.ofRoot separator stem tags).2 := by
  obtain ⟨_, separator, stem, tags, seconds, accepted, stemAccepted, tagsAccepted, _, rfl⟩ := ofOptions_eq_ok.mp opened
  obtain ⟨given, plain, _⟩ := checkName_eq_ok.mp stemAccepted
  obtain ⟨tagsGiven, plains⟩ := checkTags_eq_ok.mp tagsAccepted
  exact ⟨separator, stem, tags, accepted, given, plain, tagsGiven, plains, rfl,
    (made_loop separator stem tags seconds o.reporter).1⟩

/-- The tags that a tree is opened with are a dictionary, in which no key stands twice. -/
theorem proper (opened : Opening.ofOptions o interval = .ok opening) (distinct : o.tags.keys.Nodup) :
    opening.loop.tree.Proper := by
  obtain ⟨separator, stem, tags, accepted, _, plain, given, plains, _, tree⟩ := ofOptions_root opened
  rw [given, Tags.nodup_keys_given] at distinct
  rw [tree]
  exact Tree.proper_ofRoot (Options.properName_of_checkSeparator accepted) (.fresh plain plains distinct)

end Opening

theorem Course.proper_run {c : Course} (proper : c.loop.tree.Proper) (steps : List Course.Step) :
    (c.run steps).loop.tree.Proper :=
  tree_induction proper Request.perform_proper Tree.Visit.proper

end MetricTree
