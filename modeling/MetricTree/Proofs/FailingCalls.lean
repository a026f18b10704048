import MetricTree.Proofs.ProperRuns
import MetricTree.Work

namespace MetricTree

open Identity

namespace Table

variable {κ α : Type} [BEq κ] [LawfulBEq κ]

/-- Of two insertions under one key the second one stays. -/
theorem insert_insert (t : Table κ α) (k : κ) (v w : α) : (t.insert k v).insert k w = t.insert k w := by
  obtain ⟨entries⟩ := t
  refine congrArg Table.mk ?_
  change insertEntry k w (insertEntry k v entries) = insertEntry k w entries
  induction entries with
  | nil => simp only [insertEntry, beq_self_eq_true, if_true]
  | cons entry rest ih =>
    by_cases here : (entry.1 == k) = true
    · simp only [insertEntry, here, if_true]
    · simp only [insertEntry, here, Bool.false_eq_true, if_false, ih]

end Table

namespace Tree

variable {t u : Tree} {i : Text} {s : Scope} {h : Handle}

theorem putScope_putScope (t : Tree) (i : Text) (s r : Scope) : (t.putScope i s).putScope i r = t.putScope i r := by
  simp only [putScope, Table.insert_insert]

theorem setGauge_setGauge (t : Tree) (h : Handle) (g other : Gauge) :
    (t.setGauge h g).setGauge h other = t.setGauge h other := by
  cases found : t.scope? h.scope with
  | none => simp only [setGauge, editScope, found, Option.elim]
  | some s =>
    have edited : (t.setGauge h g).scope? h.scope = some { s with gauges := s.gauges.insert h.name g } := by
      rw [setGauge, scope?_editScope, if_pos rfl, found]
      rfl
    rw [setGauge, editScope_of_scope? edited, setGauge, editScope_of_scope? found, putScope_putScope, setGauge,
      editScope_of_scope? found, Table.insert_insert]

/-- Looks for a metric, and stores a new one where there is none, in the tree itself. -/
def findOrMakeInPlace (i : Text) (name : Value) (known : Scope → Text → Bool) (store : Scope → Text → Scope) :
    Work Tree Handle := do
  let t ← get
  let s ← ofExcept (t.scope i)
  ofExcept name.hashable
  match name.textKey?.filter (known s) with
  | some text => return ⟨i, text⟩
  | none =>
    let text ← ofExcept (checkName "metric name" false name)
    modify (·.putScope i (store s text))
    return ⟨i, text⟩

theorem run_findOrMakeInPlace (t : Tree) (i : Text) (name : Value) (known : Scope → Text → Bool)
    (store : Scope → Text → Scope) :
    (findOrMakeInPlace i name known store).run t = match t.findOrMake i name known store with
      | .ok (h, after) => .ok h after
      | .error fault => .error fault t := by
  rw [findOrMakeInPlace, Work.run_get_bind, Work.run_ofExcept_bind, findOrMake]
  cases t.scope i with
  | error fault => rfl
  | ok s =>
    simp only [Work.run_ofExcept_bind]
    cases name.hashable with
    | error fault => rfl
    | ok =>
      simp only [bind, Except.bind]
      cases name.textKey?.filter (known s) with
      | some text => rfl
      | none => cases checkName "metric name" false name <;> rfl

end Tree

/-- The request carried out on the tree itself, with all that is stored on the way. -/
def Course.Request.inPlace : Course.Request → Work Tree Unit
  | .counter i name => do
    let _ ← Tree.findOrMakeInPlace i name (·.counters.contains ·) fun s text =>
      { s with counters := s.counters.insert text .fresh }
  | .gauge i name => do
    let _ ← Tree.findOrMakeInPlace i name (·.gauges.contains ·) fun s text =>
      { s with gauges := s.gauges.insert text .fresh }
  | .tagged i tags => do
    let t ← get
    let s ← ofExcept (t.scope i)
    let extra ← ofExcept (checkTags tags)
    unless extra.isEmpty do modify fun t => (t.derive s.stem (s.tags.overlay extra)).2
  | .subScope i name => do
    let t ← get
    let s ← ofExcept (t.scope i)
    let text ← ofExcept (checkName "scope name" false name)
    modify fun t => (t.derive (s.qualify t.separator text) s.tags).2
  | .inc h amount => do
    let t ← get
    let c ← ofExcept (t.readCounter h)
    let added ← ofExcept (c.inc amount)
    modify (·.setCounter h added)
  | .update h value => do
    let t ← get
    let x ← ofExcept value.toBinary64
    let g ← ofExcept (t.readGauge h)
    modify (·.setGauge h { g with value := x })
    modify (·.setGauge h ⟨x, true⟩)
  | .snapshot => do
    let t ← get
    let _ ← ofExcept t.snapshot

/-- The tree that work has left, and its fault if it failed. -/
def Tree.leaves (t : Tree) : Except Fault Tree → EStateM.Result Fault Tree Unit
  | .ok after => .ok () after
  | .error fault => .error fault t

namespace Course.Request

theorem run_inPlace (t : Tree) (r : Course.Request) : r.inPlace.run t = t.leaves ((r.perform t).map (·.2)) := by
  cases r with
  | counter i name =>
    rw [inPlace, Work.run_bind, Tree.run_findOrMakeInPlace, perform, Tree.counter]
    cases t.findOrMake i name _ _ <;> rfl
  | gauge i name =>
    rw [inPlace, Work.run_bind, Tree.run_findOrMakeInPlace, perform, Tree.gauge]
    cases t.findOrMake i name _ _ <;> rfl
  | tagged i tags =>
    rw [inPlace, Work.run_get_bind, Work.run_ofExcept_bind, perform, Tree.tagged]
    cases t.scope i with
    | error fault => rfl
    | ok s =>
      simp only [Work.run_ofExcept_bind]
      cases checkTags tags with
      | error fault => rfl
      | ok extra =>
        simp only [bind, Except.bind, pure, Except.pure]
        cases extra.isEmpty <;> rfl
  | subScope i name =>
    rw [inPlace, Work.run_get_bind, Work.run_ofExcept_bind, perform, Tree.subScope]
    cases t.scope i with
    | error fault => rfl
    | ok s =>
      simp only [Work.run_ofExcept_bind]
      cases checkName "scope name" false name <;> rfl
  | inc h amount =>
    rw [inPlace, Work.run_get_bind, Work.run_ofExcept_bind, perform, Tree.inc]
    cases read : t.readCounter h with
    | error fault => rfl
    | ok c =>
      have put (added : Counter) : t.putCounter h added = .ok (t.setCounter h added) :=
        Tree.putCounter_eq_ok.mpr ⟨Tree.scope?_isSome_of_counter? (Tree.readCounter_eq_ok.mp read), rfl⟩
      simp only [Work.run_ofExcept_bind]
      cases added : c.inc amount with
      | error fault =>
        simp only [bind, Except.bind, added]
        rfl
      | ok added =>
        simp only [bind, Except.bind, added, put]
        rfl
  | update h value =>
    rw [inPlace, Work.run_get_bind, Work.run_ofExcept_bind, perform, Tree.update]
    cases converted : value.toBinary64 with
    | error fault => rfl
    | ok x =>
      simp only [Work.run_ofExcept_bind]
      cases read : t.readGauge h with
      | error fault =>
        simp only [bind, Except.bind]
        rfl
      | ok g =>
        have put : t.putGauge h ⟨x, true⟩ = .ok (t.setGauge h ⟨x, true⟩) :=
          Tree.putGauge_eq_ok.mpr ⟨Tree.scope?_isSome_of_gauge? (Tree.readGauge_eq_ok.mp read), rfl⟩
        have stored : (modify (·.setGauge h { g with value := x }) >>= fun _ =>
            modify (·.setGauge h ⟨x, true⟩) : Work Tree Unit).run t = .ok () (t.setGauge h ⟨x, true⟩) :=
          congrArg (EStateM.Result.ok ()) (t.setGauge_setGauge h { g with value := x } ⟨x, true⟩)
        simp only [stored]
        simp only [bind, Except.bind, Gauge.update, converted, pure, Except.pure, put]
        rfl
  | snapshot =>
    rw [inPlace, Work.run_get_bind, Work.run_ofExcept_bind, perform]
    cases t.snapshot <;> rfl

end Course.Request

namespace Identity

/-- What can be given as a name: a text that is not empty and has no reserved character. -/
def IsName (name : Value) : Prop := ∃ text, name = .text text ∧ ProperName text

/-- Tags that can be given: texts without reserved characters throughout. -/
def AreTags (tags : Table Value Value) : Prop :=
  ∀ entry ∈ tags.entries, ∃ k v, entry = (.text k, .text v) ∧ Plain k ∧ Plain v

theorem checkTags_isOk {tags : Table Value Value} : (∃ found, checkTags tags = .ok found) ↔ AreTags tags := by
  simp only [checkTags_eq_ok]
  constructor
  · rintro ⟨found, rfl, plain⟩ entry member
    obtain ⟨pair, inside, rfl⟩ := List.mem_map.mp member
    exact ⟨pair.1, pair.2, rfl, plain pair inside⟩
  · obtain ⟨entries⟩ := tags
    intro texts
    induction entries with
    | nil => exact ⟨.empty, rfl, List.forall_mem_nil _⟩
    | cons entry rest ih =>
      obtain ⟨⟨k, v, rfl, plainKey, plainValue⟩, others⟩ := List.forall_mem_cons.mp texts
      obtain ⟨found, given, plain⟩ := ih others
      refine ⟨⟨(k, v) :: found.entries⟩, ?_, List.forall_mem_cons.mpr ⟨⟨plainKey, plainValue⟩, plain⟩⟩
      exact congrArg (fun t => Table.mk ((Value.text k, Value.text v) :: t.entries)) given

end Identity

/-- No text, but looked up like one that stands in the table. -/
def Value.StandsIn {α : Type} (metrics : Table Text α) (name : Value) : Prop :=
  name.text? = none ∧ ∃ text, name.textKey? = some text ∧ metrics.contains text = true

namespace Tree

variable {t : Tree} {i : Text} {s : Scope} {name : Value} {tags : Table Value Value}

/-- What is granted for every proper name and to what stands for a name that there is, and to nothing else. -/
theorem accepts_metric {α : Type} {metrics : Table Text α} (proper : ∀ text ∈ metrics.keys, ProperName text) :
    (∃ text, name.textKey? = some text ∧ (metrics.contains text = true ∨ name = .text text ∧ ProperName text)) ↔
      IsName name ∨ name.StandsIn metrics := by
  constructor
  · rintro ⟨text, looked, stands | ⟨given, named⟩⟩
    · cases given : name.text? with
      | none => exact .inr ⟨given, text, looked, stands⟩
      | some s =>
        cases name with
        | text s =>
          cases looked
          exact .inl ⟨_, rfl, proper _ (Table.contains_iff.mp stands)⟩
        | _ => cases given
    · exact .inl ⟨text, given, named⟩
  · rintro (⟨text, rfl, named⟩ | ⟨_, text, looked, stands⟩)
    · exact ⟨text, rfl, .inr ⟨rfl, named⟩⟩
    · exact ⟨text, looked, .inl stands⟩

theorem counter_accepts (proper : t.Proper) (atScope : t.scope? i = some s) :
    (∃ made, t.counter i name = .ok made) ↔ IsName name ∨ name.StandsIn s.counters := by
  rw [← accepts_metric (proper.scopes atScope).counters]
  simp only [counter_eq_ok]
  constructor
  · rintro ⟨_, s', text, found, looked, allowed, _⟩
    cases atScope.symm.trans found
    exact ⟨text, looked, allowed⟩
  · rintro ⟨text, looked, allowed⟩
    exact ⟨_, s, text, atScope, looked, allowed, rfl⟩

theorem gauge_accepts (proper : t.Proper) (atScope : t.scope? i = some s) :
    (∃ made, t.gauge i name = .ok made) ↔ IsName name ∨ name.StandsIn s.gauges := by
  rw [← accepts_metric (proper.scopes atScope).gauges]
  simp only [gauge_eq_ok]
  constructor
  · rintro ⟨_, s', text, found, looked, allowed, _⟩
    cases atScope.symm.trans found
    exact ⟨text, looked, allowed⟩
  · rintro ⟨text, looked, allowed⟩
    exact ⟨_, s, text, atScope, looked, allowed, rfl⟩

theorem subScope_accepts (atScope : t.scope? i = some s) : (∃ made, t.subScope i name = .ok made) ↔ IsName name := by
  simp only [subScope_eq_ok]
  constructor
  · rintro ⟨_, _, text, _, given, named, _⟩
    exact ⟨text, given, named⟩
  · rintro ⟨text, given, named⟩
    exact ⟨_, s, text, atScope, given, named, rfl⟩

theorem tagged_accepts (atScope : t.scope? i = some s) : (∃ made, t.tagged i tags = .ok made) ↔ AreTags tags := by
  simp only [tagged_eq_ok, ← checkTags_isOk]
  constructor
  · rintro ⟨_, _, extra, _, accepted, _⟩
    exact ⟨extra, accepted⟩
  · rintro ⟨extra, accepted⟩
    exact ⟨_, s, extra, atScope, accepted, rfl⟩

end Tree

namespace Course

/-- In the course of a tree's use, also while a pass is under way or after a close: which tags and which texts are
accepted does not depend on what there is already, and of other names only those that stand for a metric that is there.
What is asked for and refused leaves everything as it was, although it is carried out on the tree itself. -/
theorem failing_calls_change_nothing {o : Options} {interval : Interval} {opening : Opening}
    (opened : Opening.ofOptions o interval = .ok opening) (distinct : o.tags.keys.Nodup) (steps : List Step) :
    let c := (Course.opened opening).run steps
    let t := c.loop.tree
    (∀ i s, t.scope? i = some s →
      (∀ name, ((∃ made, t.counter i name = .ok made) ↔ IsName name ∨ name.StandsIn s.counters) ∧
        ((∃ made, t.gauge i name = .ok made) ↔ IsName name ∨ name.StandsIn s.gauges) ∧
        ((∃ made, t.subScope i name = .ok made) ↔ IsName name)) ∧
      ∀ tags, (∃ made, t.tagged i tags = .ok made) ↔ AreTags tags) ∧
    (∀ (r : Request) events after, r.perform t = .ok (events, after) → r.inPlace.run t = .ok () after) ∧
    ∀ (r : Request) fault, r.perform t = .error fault → r.inPlace.run t = .error fault t ∧ c.take (.request r) = c := by
  intro c t
  have proper : t.Proper := proper_run (opening.proper opened distinct) steps
  refine ⟨fun i s atScope => ⟨fun name => ?_, fun tags => ?_⟩, fun r events after granted => ?_,
    fun r fault refused => ?_⟩
  · exact ⟨Tree.counter_accepts proper atScope, Tree.gauge_accepts proper atScope, Tree.subScope_accepts atScope⟩
  · exact Tree.tagged_accepts atScope
  · rw [r.run_inPlace, granted]
    rfl
  · rw [r.run_inPlace, refused]
    exact ⟨rfl, take_of_refused refused⟩

/-- While a pass waits for its reporter: a counter that is there is found, also by what stands for its name, and an
amount that cannot be added, a name that could be no key and a tag that is no text change nothing. -/
theorem failing_calls_change_nothing_in_pass :
    ∃ opening, Opening.ofOptions { Options.standard with reporter := some ⟨"Recorder", true, true⟩ }
        (.value .null) = .ok opening ∧
      let c := (Course.opened opening).run
        [.request (.counter "" (.text "a")), .request (.inc ⟨"", "a"⟩ (.int 1)), .report]
      c.waiting.length = 1 ∧ (∃ made, c.loop.tree.counter "" (.text "a") = .ok made) ∧
        c.take (.request (.inc ⟨"", "a"⟩ (.text "x"))) = c ∧ c.take (.request (.counter "" (.list []))) = c ∧
        c.take (.request (.tagged "" ⟨[(.text "k", .int 1)]⟩)) = c := by
  have opened : Opening.ofOptions { Options.standard with reporter := some ⟨"Recorder", true, true⟩ }
    (.value .null) = .ok _ := rfl
  refine ⟨_, opened, ?_⟩
  intro c
  obtain ⟨accepts, _, refused⟩ := failing_calls_change_nothing opened List.nodup_nil
    [.request (.counter "" (.text "a")), .request (.inc ⟨"", "a"⟩ (.int 1)), .report]
  have unchanged : ∀ r : Request, (r.perform c.loop.tree).isOk = false → c.take (.request r) = c := by
    intro r fails
    cases run : r.perform c.loop.tree with
    | ok => rw [run] at fails; cases fails
    | error fault => exact (refused r fault run).2
  obtain ⟨s, atScope⟩ : ∃ s, c.loop.tree.scope? "" = some s := Option.isSome_iff_exists.mp (by decide +kernel)
  refine ⟨by decide +kernel, ?_, ?_, ?_, ?_⟩
  · exact ((accepts "" s atScope).1 (.text "a")).1.mpr (.inl ⟨"a", rfl, by decide, by decide⟩)
  all_goals exact unchanged _ (by decide +kernel)

/-- An object that is looked up like a text, though it is none, is refused as the name of a counter. Once there is a
counter of that name, it is accepted. -/
theorem failing_calls_change_nothing_alike :
    ∃ opening, Opening.ofOptions Options.standard (.value .null) = .ok opening ∧
      let name : Value := .object ⟨"UserString", .text "a", true, .error (.unreadableNumber "'a'"), .ok "'a'", .ok "a"⟩
      let c := Course.opened opening
      let d := c.run [.request (.counter "" (.text "a"))]
      ¬IsName name ∧ (c.loop.tree.counter "" name).isOk = false ∧ (d.loop.tree.counter "" name).isOk = true :=
  ⟨_, rfl, nofun, by decide +kernel, by decide +kernel⟩

end Course

end MetricTree
