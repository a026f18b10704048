import MetricTree.Proofs.Course
import MetricTree.Proofs.PlainText

namespace MetricTree

namespace Tree

variable {t u v : Tree} {h k : Handle}

theorem fullName?_setCounter {c : Counter} : (t.setCounter h c).fullName? k = t.fullName? k := by
  simp only [fullName?, setCounter, scope?_editScope, separator_editScope]
  split
  · next same => rw [same]; cases t.scope? h.scope <;> rfl
  · rfl

theorem fullName?_setGauge {g : Gauge} : (t.setGauge h g).fullName? k = t.fullName? k := by
  simp only [fullName?, setGauge, scope?_editScope, separator_editScope]
  split
  · next same => rw [same]; cases t.scope? h.scope <;> rfl
  · rfl

theorem scope?_derive {stem : Text} {tags : Tags} {i : Text}
    (fresh : t.scope? (Scope.fresh stem tags).identity = none) :
    (t.derive stem tags).2.scope? i =
      if i = (Scope.fresh stem tags).identity then some (Scope.fresh stem tags) else t.scope? i := by
  have absent : t.registry.get? (Scope.fresh stem tags).identity = none := fresh
  have settled : (t.derive stem tags).2.registry.slots =
      t.registry.slots.insert (Scope.fresh stem tags).identity (some (Scope.fresh stem tags)) := by
    simp only [derive, Registry.settle, absent]
  simp only [scope?, Registry.get?, settled, Table.get?_insert]
  split <;> rfl

theorem derive_of_scope? {stem : Text} {tags : Tags} {s : Scope}
    (found : t.scope? (Scope.fresh stem tags).identity = some s) : (t.derive stem tags).2 = t := by
  have present : t.registry.get? (Scope.fresh stem tags).identity = some s := found
  simp only [derive, Registry.settle, present]

/-- A fresh scope brings no metrics. -/
theorem counter?_derive {stem : Text} {tags : Tags}
    (fresh : t.scope? (Scope.fresh stem tags).identity = none) :
    (t.derive stem tags).2.counter? k = t.counter? k := by
  simp only [counter?, scope?_derive fresh]
  split
  · next same => rw [same, fresh]; rfl
  · rfl

theorem gauge?_derive {stem : Text} {tags : Tags}
    (fresh : t.scope? (Scope.fresh stem tags).identity = none) :
    (t.derive stem tags).2.gauge? k = t.gauge? k := by
  simp only [gauge?, scope?_derive fresh]
  split
  · next same => rw [same, fresh]; rfl
  · rfl

theorem fullName?_derive {stem name : Text} {tags : Tags}
    (fresh : t.scope? (Scope.fresh stem tags).identity = none) (known : t.fullName? k = some name) :
    (t.derive stem tags).2.fullName? k = some name := by
  obtain ⟨s, found, rfl⟩ := Option.map_eq_some_iff.mp known
  have other : k.scope ≠ (Scope.fresh stem tags).identity := by
    intro same
    rw [same, fresh] at found
    cases found
  simp only [fullName?, scope?_derive fresh, if_neg other, found, Option.map_some]
  rfl

/-- What a request can do to a tree, and what happens with it. -/
inductive Change (t : Tree) : List Course.Event → Tree → Prop
  | none : Change t [] t
  | scope {stem : Text} {tags : Tags} (fresh : t.scope? (Scope.fresh stem tags).identity = .none) :
      Change t [] (t.derive stem tags).2
  | counter {h : Handle} (present : (t.scope? h.scope).isSome) (fresh : t.counter? h = .none) :
      Change t [] (t.setCounter h .fresh)
  | gauge {h : Handle} (present : (t.scope? h.scope).isSome) (fresh : t.gauge? h = .none) :
      Change t [] (t.setGauge h .fresh)
  | added {h : Handle} {c : Counter} {n total : Number} (found : t.counter? h = some c)
      (sum : c.total.add n = .ok total) :
      Change t [.added h n] (t.setCounter h { c with total := total })
  | updated {h : Handle} {g : Gauge} {x : Binary64} (found : t.gauge? h = some g) :
      Change t [.updated h x] (t.setGauge h ⟨x, true⟩)

theorem derive_change (t : Tree) (stem : Text) (tags : Tags) : Change t [] (t.derive stem tags).2 := by
  cases found : t.scope? (Scope.fresh stem tags).identity with
  | none => exact .scope found
  | some s => rw [derive_of_scope? found]; exact .none

theorem tagged_change {scope : Text} {tags : Table Value Value} {r : Text × Tree}
    (run : t.tagged scope tags = .ok r) : Change t [] r.2 := by
  obtain ⟨s, _, run⟩ := bind_eq_ok.mp run
  obtain ⟨extra, _, run⟩ := bind_eq_ok.mp run
  cases run
  split
  · exact .none
  · exact derive_change t _ _

theorem subScope_change {scope : Text} {name : Value} {r : Text × Tree}
    (run : t.subScope scope name = .ok r) : Change t [] r.2 := by
  obtain ⟨s, _, run⟩ := bind_eq_ok.mp run
  obtain ⟨text, _, run⟩ := bind_eq_ok.mp run
  cases run
  exact derive_change t _ _

theorem hashable_of_textKey? {v : Value} {text : Text} (key : v.textKey? = some text) : v.hashable = .ok () := by
  cases v with
  | text => rfl
  | object o =>
    have like : o.likeness = .text text := by
      cases alike : o.likeness with
      | text => rw [Value.textKey?, alike] at key; rw [Option.some.inj key]
      | _ => rw [Value.textKey?, alike] at key; cases key
    rw [Value.hashable, like]
    rfl
  | _ => cases key

/-- What is found stands under the text that the name counts as. What is not found is made only for a name that is
accepted. -/
theorem findOrMake_eq_ok {i : Text} {name : Value} {known : Scope → Text → Bool} {store : Scope → Text → Scope}
    {result : Handle × Tree} : t.findOrMake i name known store = .ok result ↔
      ∃ s text, t.scope? i = some s ∧ name.textKey? = some text ∧
        (known s text = true ∨ Identity.checkName "metric name" false name = .ok text) ∧
        result = (⟨i, text⟩, if known s text then t else t.putScope i (store s text)) := by
  simp only [findOrMake, bind_eq_ok, scope_eq_ok]
  constructor
  · rintro ⟨s, atScope, _, _, run⟩
    split at run
    · next text found =>
      obtain ⟨key, there⟩ := Option.filter_eq_some_iff.mp found
      cases run
      exact ⟨s, text, atScope, key, .inl there, by rw [if_pos there]⟩
    · next missed =>
      obtain ⟨text, accepted, made⟩ := bind_eq_ok.mp run
      obtain ⟨rfl, _⟩ := Identity.checkName_eq_ok.mp accepted
      have unknown : ¬known s text = true :=
        fun there => nomatch missed.symm.trans (Option.filter_eq_some_iff.mpr ⟨rfl, there⟩)
      cases made
      exact ⟨s, text, atScope, rfl, .inr accepted, by rw [if_neg unknown]⟩
  · rintro ⟨s, text, atScope, key, allowed, rfl⟩
    refine ⟨s, atScope, (), hashable_of_textKey? key, ?_⟩
    rw [key]
    by_cases there : known s text = true
    · rw [Option.filter_some_pos there, if_pos there]
      rfl
    · rw [Option.filter_some_neg (Bool.eq_false_iff.mpr there), if_neg there]
      exact bind_eq_ok.mpr ⟨text, allowed.resolve_left there, rfl⟩

theorem counter_change {scope : Text} {name : Value} {r : Handle × Tree}
    (run : t.counter scope name = .ok r) : Change t [] r.2 := by
  obtain ⟨s, text, atScope, _, _, rfl⟩ := findOrMake_eq_ok.mp run
  simp only
  split
  · exact .none
  · next absent =>
    have fresh : t.counter? ⟨scope, text⟩ = none := by
      simp only [counter?, atScope, Option.bind_some]
      by_contra present
      obtain ⟨c, found⟩ := Option.ne_none_iff_exists'.mp present
      exact absent (Table.contains_iff.mpr (Table.mem_keys_of_get? found))
    have change := Change.counter (Option.isSome_iff_exists.mpr ⟨s, atScope⟩) fresh
    rwa [setCounter, editScope_of_scope? atScope] at change

theorem gauge_change {scope : Text} {name : Value} {r : Handle × Tree}
    (run : t.gauge scope name = .ok r) : Change t [] r.2 := by
  obtain ⟨s, text, atScope, _, _, rfl⟩ := findOrMake_eq_ok.mp run
  simp only
  split
  · exact .none
  · next absent =>
    have fresh : t.gauge? ⟨scope, text⟩ = none := by
      simp only [gauge?, atScope, Option.bind_some]
      by_contra present
      obtain ⟨g, found⟩ := Option.ne_none_iff_exists'.mp present
      exact absent (Table.contains_iff.mpr (Table.mem_keys_of_get? found))
    have change := Change.gauge (Option.isSome_iff_exists.mpr ⟨s, atScope⟩) fresh
    rwa [setGauge, editScope_of_scope? atScope] at change

theorem inc_change {amount : Value} (run : t.inc h amount = .ok u) :
    Change t (amount.number?.toList.map (.added h)) u := by
  obtain ⟨c, read, run⟩ := bind_eq_ok.mp run
  obtain ⟨c', sum, run⟩ := bind_eq_ok.mp run
  rw [readCounter_eq_ok] at read
  obtain ⟨_, rfl⟩ := putCounter_eq_ok.mp run
  unfold Counter.inc at sum
  split at sum
  · next n given =>
    obtain ⟨total, added, same⟩ := bind_eq_ok.mp sum
    cases same
    rw [given]
    exact .added read added
  · cases sum

theorem update_change {value : Value} {x : Binary64} (number : value.toBinary64 = .ok x)
    (run : t.update h value = .ok u) : Change t [.updated h x] u := by
  obtain ⟨g, read, run⟩ := bind_eq_ok.mp run
  obtain ⟨g', write, run⟩ := bind_eq_ok.mp run
  rw [readGauge_eq_ok] at read
  obtain ⟨_, rfl⟩ := putGauge_eq_ok.mp run
  obtain ⟨y, same, write⟩ := bind_eq_ok.mp write
  cases number.symm.trans same
  cases write
  exact .updated read

end Tree

namespace Tree

/-- All metrics of a tree are there, under the names that a reporter knows them by. -/
structure Extends (u t : Tree) : Prop where
  names : ∀ {h : Handle} {name : Text}, t.fullName? h = some name → u.fullName? h = some name
  counters : ∀ {h : Handle}, (t.counter? h).isSome → (u.counter? h).isSome
  gauges : ∀ {h : Handle}, (t.gauge? h).isSome → (u.gauge? h).isSome

variable {t u v : Tree} {h : Handle}

theorem Extends.refl (t : Tree) : t.Extends t := ⟨id, id, id⟩

theorem Extends.trans (later : v.Extends u) (sooner : u.Extends t) : v.Extends t :=
  ⟨later.names ∘ sooner.names, later.counters ∘ sooner.counters, later.gauges ∘ sooner.gauges⟩

theorem setCounter_extends {c : Counter} (present : (t.scope? h.scope).isSome) :
    (t.setCounter h c).Extends t := by
  refine ⟨fun known => by rwa [fullName?_setCounter], fun there => ?_, fun there => by rwa [gauge?_setCounter]⟩
  rw [counter?_setCounter present]
  split
  · rfl
  · exact there

theorem setGauge_extends {g : Gauge} (present : (t.scope? h.scope).isSome) :
    (t.setGauge h g).Extends t := by
  refine ⟨fun known => by rwa [fullName?_setGauge], fun there => by rwa [counter?_setGauge], fun there => ?_⟩
  rw [gauge?_setGauge present]
  split
  · rfl
  · exact there

theorem scope?_isSome_iff : (t.scope? h.scope).isSome ↔ (t.fullName? h).isSome := by
  rw [fullName?, Option.isSome_map]

theorem Extends.scope {i : Text} (extended : u.Extends t) (present : (t.scope? i).isSome) :
    (u.scope? i).isSome := by
  have known : (t.fullName? ⟨i, ""⟩).isSome := scope?_isSome_iff.mp present
  obtain ⟨name, known⟩ := Option.isSome_iff_exists.mp known
  exact scope?_isSome_iff.mpr (Option.isSome_iff_exists.mpr ⟨name, extended.names known⟩)

theorem Change.extends {events : List Course.Event} (change : t.Change events u) : u.Extends t := by
  cases change with
  | none => exact .refl t
  | scope fresh =>
    exact ⟨fullName?_derive fresh, fun there => by rwa [counter?_derive fresh],
      fun there => by rwa [gauge?_derive fresh]⟩
  | counter present _ => exact setCounter_extends present
  | gauge present _ => exact setGauge_extends present
  | added found _ => exact setCounter_extends (scope?_isSome_of_counter? found)
  | updated found => exact setGauge_extends (scope?_isSome_of_gauge? found)

end Tree

/-- A request that is granted makes one of the changes that there are. -/
theorem Course.Request.perform_change {t u : Tree} {r : Course.Request} {events : List Course.Event}
    (granted : r.perform t = .ok (events, u)) : t.Change events u := by
  cases r with
  | tagged scope tags =>
    obtain ⟨r, run, same⟩ := bind_eq_ok.mp granted
    cases same
    exact Tree.tagged_change run
  | subScope scope name =>
    obtain ⟨r, run, same⟩ := bind_eq_ok.mp granted
    cases same
    exact Tree.subScope_change run
  | counter scope name =>
    obtain ⟨r, run, same⟩ := bind_eq_ok.mp granted
    cases same
    exact Tree.counter_change run
  | gauge scope name =>
    obtain ⟨r, run, same⟩ := bind_eq_ok.mp granted
    cases same
    exact Tree.gauge_change run
  | inc h amount =>
    obtain ⟨after, run, same⟩ := bind_eq_ok.mp granted
    cases same
    exact Tree.inc_change run
  | update h value =>
    obtain ⟨x, number, rest⟩ := bind_eq_ok.mp granted
    obtain ⟨after, run, same⟩ := bind_eq_ok.mp rest
    cases same
    exact Tree.update_change number run
  | snapshot =>
    obtain ⟨seen, _, same⟩ := bind_eq_ok.mp granted
    cases same
    exact .none

/-- Only increments add to counters, and what they add is the amount they were given. -/
theorem Course.Request.perform_added {t u : Tree} {r : Course.Request} {events : List Course.Event}
    {k : Handle} {n : Number} (granted : r.perform t = .ok (events, u)) (member : .added k n ∈ events) :
    ∃ amount, r = .inc k amount ∧ amount.number? = some n := by
  cases r with
  | inc h amount =>
    obtain ⟨after, run, same⟩ := bind_eq_ok.mp granted
    cases same
    obtain ⟨m, given, same⟩ := List.mem_map.mp member
    cases same
    exact ⟨amount, rfl, Option.mem_toList.mp given⟩
  | update h value =>
    obtain ⟨x, number, rest⟩ := bind_eq_ok.mp granted
    obtain ⟨after, run, same⟩ := bind_eq_ok.mp rest
    cases same
    cases List.mem_singleton.mp member
  | _ =>
    obtain ⟨result, run, same⟩ := bind_eq_ok.mp granted
    cases same
    cases member

/-- Of the amounts that are numbers, only those of floating point are no integers. -/
theorem Course.Request.perform_integers {t u : Tree} {r : Course.Request} {events : List Course.Event}
    (granted : r.perform t = .ok (events, u)) (integral : (Course.Step.request r).isIntegral) :
    ∀ k n, .added k n ∈ events → ∃ m, n = .int m := by
  intro k n member
  obtain ⟨amount, rfl, given⟩ := Course.Request.perform_added granted member
  cases amount with
  | bool b => cases given; exact ⟨_, rfl⟩
  | int m => cases given; exact ⟨_, rfl⟩
  | float x => cases integral
  | _ => cases given

end MetricTree
