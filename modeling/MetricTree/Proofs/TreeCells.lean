import MetricTree.Proofs.TableLookup
import MetricTree.Tree.Pass

namespace MetricTree

theorem bind_eq_ok {ε α β : Type} {x : Except ε α} {f : α → Except ε β} {r : β} :
    (x >>= f) = .ok r ↔ ∃ a, x = .ok a ∧ f a = .ok r := by
  cases x with
  | error fault => simp only [bind, Except.bind, reduceCtorEq, false_and, exists_false]
  | ok a => simp only [bind, Except.bind, Except.ok.injEq, exists_eq_left']

theorem bind_eq_error {ε α β : Type} {x : Except ε α} {f : α → Except ε β} {fault : ε} :
    x >>= f = .error fault ↔ x = .error fault ∨ ∃ a, x = .ok a ∧ f a = .error fault := by
  cases x with
  | error other => simp only [bind, Except.bind, Except.error.injEq, reduceCtorEq, false_and, exists_false, or_false]
  | ok a => simp only [bind, Except.bind, reduceCtorEq, false_or, Except.ok.injEq, exists_eq_left']

namespace Tree

variable {t : Tree} {i j : Text} {s : Scope} {h : Handle}

theorem scope_eq_ok : t.scope i = .ok s ↔ t.scope? i = some s := by
  unfold scope
  cases t.scope? i with
  | none => simp only [Option.elim, throw, throwThe, MonadExceptOf.throw, reduceCtorEq]
  | some found => simp only [Option.elim, pure, Except.pure, Except.ok.injEq, Option.some.injEq]

theorem mem_identities_of_scope? (found : t.scope? i = some s) : i ∈ t.identities := by
  have atSlot : t.registry.slots.get? i = some (some s) := Option.join_eq_some_iff.mp found
  exact Table.mem_keys_of_get? atSlot

theorem scope?_putScope : (t.putScope i s).scope? j = if j = i then some s else t.scope? j := by
  simp only [putScope, scope?, Registry.get?, Table.get?_insert]
  split <;> rfl

theorem identities_putScope (member : i ∈ t.identities) : (t.putScope i s).identities = t.identities :=
  Table.keys_insert_of_mem member

/-- Edits a registered scope in its place. -/
def editScope (t : Tree) (i : Text) (edit : Scope → Scope) : Tree :=
  (t.scope? i).elim t fun s => t.putScope i (edit s)

theorem editScope_of_scope? {edit : Scope → Scope} (found : t.scope? i = some s) :
    t.editScope i edit = t.putScope i (edit s) := by
  simp only [editScope, found, Option.elim]

theorem scope?_editScope {edit : Scope → Scope} :
    (t.editScope i edit).scope? j = if j = i then (t.scope? i).map edit else t.scope? j := by
  cases found : t.scope? i with
  | none =>
    simp only [editScope, found, Option.elim, Option.map_none]
    split
    · next same => rw [same, found]
    · rfl
  | some s => simp only [editScope_of_scope? found, scope?_putScope, Option.map_some]

theorem separator_editScope {edit : Scope → Scope} : (t.editScope i edit).separator = t.separator := by
  unfold editScope
  cases t.scope? i <;> rfl

theorem identities_editScope {edit : Scope → Scope} : (t.editScope i edit).identities = t.identities := by
  cases found : t.scope? i with
  | none => simp only [editScope, found, Option.elim]
  | some s => rw [editScope_of_scope? found, identities_putScope (mem_identities_of_scope? found)]

/-- The counter that a handle stands for. -/
def counter? (t : Tree) (h : Handle) : Option Counter := (t.scope? h.scope).bind (·.counters.get? h.name)

/-- The gauge that a handle stands for. -/
def gauge? (t : Tree) (h : Handle) : Option Gauge := (t.scope? h.scope).bind (·.gauges.get? h.name)

/-- The name that a reporter is given for a metric. -/
def fullName? (t : Tree) (h : Handle) : Option Text := (t.scope? h.scope).map (·.qualify t.separator h.name)

theorem readCounter_eq_ok {c : Counter} : t.readCounter h = .ok c ↔ t.counter? h = some c := by
  simp only [readCounter, bind_eq_ok, scope_eq_ok, counter?, Option.bind_eq_some_iff]
  refine exists_congr fun s => and_congr_right fun _ => ?_
  cases s.counters.get? h.name with
  | none => simp only [Option.elim, throw, throwThe, MonadExceptOf.throw, reduceCtorEq]
  | some found => simp only [Option.elim, pure, Except.pure, Except.ok.injEq, Option.some.injEq]

theorem readGauge_eq_ok {g : Gauge} : t.readGauge h = .ok g ↔ t.gauge? h = some g := by
  simp only [readGauge, bind_eq_ok, scope_eq_ok, gauge?, Option.bind_eq_some_iff]
  refine exists_congr fun s => and_congr_right fun _ => ?_
  cases s.gauges.get? h.name with
  | none => simp only [Option.elim, throw, throwThe, MonadExceptOf.throw, reduceCtorEq]
  | some found => simp only [Option.elim, pure, Except.pure, Except.ok.injEq, Option.some.injEq]

def setCounter (t : Tree) (h : Handle) (c : Counter) : Tree :=
  t.editScope h.scope fun s => { s with counters := s.counters.insert h.name c }

def setGauge (t : Tree) (h : Handle) (g : Gauge) : Tree :=
  t.editScope h.scope fun s => { s with gauges := s.gauges.insert h.name g }

theorem putCounter_eq_ok {c : Counter} {after : Tree} :
    t.putCounter h c = .ok after ↔ (t.scope? h.scope).isSome ∧ after = t.setCounter h c := by
  simp only [putCounter, bind_eq_ok, scope_eq_ok, pure, Except.pure, Except.ok.injEq, setCounter]
  cases found : t.scope? h.scope with
  | none => simp only [reduceCtorEq, false_and, exists_false, Option.isSome_none, Bool.false_eq_true]
  | some s =>
    simp only [Option.some.injEq, exists_eq_left', Option.isSome_some, true_and,
      editScope_of_scope? found, eq_comm]

theorem putGauge_eq_ok {g : Gauge} {after : Tree} :
    t.putGauge h g = .ok after ↔ (t.scope? h.scope).isSome ∧ after = t.setGauge h g := by
  simp only [putGauge, bind_eq_ok, scope_eq_ok, pure, Except.pure, Except.ok.injEq, setGauge]
  cases found : t.scope? h.scope with
  | none => simp only [reduceCtorEq, false_and, exists_false, Option.isSome_none, Bool.false_eq_true]
  | some s =>
    simp only [Option.some.injEq, exists_eq_left', Option.isSome_some, true_and,
      editScope_of_scope? found, eq_comm]

theorem scope?_isSome_of_counter? {c : Counter} (found : t.counter? h = some c) :
    (t.scope? h.scope).isSome := by
  obtain ⟨s, atScope, _⟩ := Option.bind_eq_some_iff.mp found
  exact Option.isSome_iff_exists.mpr ⟨s, atScope⟩

theorem scope?_isSome_of_gauge? {g : Gauge} (found : t.gauge? h = some g) :
    (t.scope? h.scope).isSome := by
  obtain ⟨s, atScope, _⟩ := Option.bind_eq_some_iff.mp found
  exact Option.isSome_iff_exists.mpr ⟨s, atScope⟩

/-- A counter that is set is seen under its own handle, and nowhere else. -/
theorem counter?_setCounter {c : Counter} {k : Handle} (present : (t.scope? h.scope).isSome) :
    (t.setCounter h c).counter? k = if k = h then some c else t.counter? k := by
  obtain ⟨s, found⟩ := Option.isSome_iff_exists.mp present
  obtain ⟨scope, name⟩ := h
  obtain ⟨scope', name'⟩ := k
  simp only [counter?, setCounter, scope?_editScope, Handle.mk.injEq]
  by_cases same : scope' = scope
  · subst same
    simp only at found
    simp only [if_true, found, Option.map_some, Option.bind_some, Table.get?_insert, true_and]
  · simp only [same, if_false, false_and]

theorem gauge?_setGauge {g : Gauge} {k : Handle} (present : (t.scope? h.scope).isSome) :
    (t.setGauge h g).gauge? k = if k = h then some g else t.gauge? k := by
  obtain ⟨s, found⟩ := Option.isSome_iff_exists.mp present
  obtain ⟨scope, name⟩ := h
  obtain ⟨scope', name'⟩ := k
  simp only [gauge?, setGauge, scope?_editScope, Handle.mk.injEq]
  by_cases same : scope' = scope
  · subst same
    simp only at found
    simp only [if_true, found, Option.map_some, Option.bind_some, Table.get?_insert, true_and]
  · simp only [same, if_false, false_and]

theorem gauge?_setCounter {c : Counter} {k : Handle} : (t.setCounter h c).gauge? k = t.gauge? k := by
  simp only [gauge?, setCounter, scope?_editScope]
  split
  · next same => rw [same]; cases t.scope? h.scope <;> rfl
  · rfl

theorem counter?_setGauge {g : Gauge} {k : Handle} : (t.setGauge h g).counter? k = t.counter? k := by
  simp only [counter?, setGauge, scope?_editScope]
  split
  · next same => rw [same]; cases t.scope? h.scope <;> rfl
  · rfl

end Tree

end MetricTree
