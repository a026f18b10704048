import Mathlib.Algebra.Ring.Int.Defs
import MetricTree.Proofs.PassSweep

namespace MetricTree

theorem Scope.qualify_injective {separator : Text} {s : Scope} {name other : Text}
    (same : s.qualify separator name = s.qualify separator other) : name = other := by
  unfold qualify at same
  split at same
  · exact same
  · exact (Text.append_right_inj _).mp same

namespace Tree

/-- All totals are integers. -/
def Integral (t : Tree) : Prop := ∀ h c, t.counter? h = some c → ∃ m n, c = ⟨.int m, .int n⟩

/-- What a counter has still to report. One that is not there yet has nothing. -/
def unreported (t : Tree) (h : Handle) : Int :=
  match t.counter? h with
  | some ⟨.int m, .int n⟩ => m - n
  | _ => 0

/-- What a counter is reported with: a delta in its scope, under its full name. -/
def share (t : Tree) (h : Handle) : Text × Observation → Int
  | (i, .counter name _ (.int d)) => if i = h.scope ∧ t.fullName? h = some name then d else 0
  | _ => 0

variable {t u : Tree} {h k : Handle}

theorem unreported_of_counter? {m n : Int} (found : t.counter? h = some ⟨.int m, .int n⟩) :
    t.unreported h = m - n := by
  simp only [unreported, found]

theorem unreported_of_none (absent : t.counter? h = none) : t.unreported h = 0 := by
  simp only [unreported, absent]

theorem unreported_congr (same : u.counter? h = t.counter? h) : u.unreported h = t.unreported h := by
  simp only [unreported, same]

theorem unreported_setCounter {m n : Int} (present : (t.scope? h.scope).isSome) :
    (t.setCounter h ⟨.int m, .int n⟩).unreported k = if k = h then m - n else t.unreported k := by
  by_cases same : k = h
  · simp only [unreported, counter?_setCounter present, same, if_true]
  · simp only [unreported, counter?_setCounter present, same, if_false]

theorem Integral.setCounter {m n : Int} (integral : t.Integral) (present : (t.scope? h.scope).isSome) :
    (t.setCounter h ⟨.int m, .int n⟩).Integral := by
  intro k c found
  rw [counter?_setCounter present] at found
  split at found
  · cases found
    exact ⟨m, n, rfl⟩
  · exact integral k c found

theorem Integral.congr (integral : t.Integral) (same : ∀ k, u.counter? k = t.counter? k) : u.Integral := by
  intro k c found
  rw [same] at found
  exact integral k c found

theorem share_congr {seen : Text × Observation} (same : u.fullName? h = t.fullName? h) :
    u.share h seen = t.share h seen := by
  simp only [share, same]

/-- Later names do not change what was reported in a scope that is known already. -/
theorem share_of_extends {seen : Text × Observation} (extended : u.Extends t)
    (present : (t.scope? seen.1).isSome) : u.share h seen = t.share h seen := by
  by_cases here : seen.1 = h.scope
  · rw [here, scope?_isSome_iff] at present
    obtain ⟨name, known⟩ := Option.isSome_iff_exists.mp present
    exact share_congr (by rw [known, extended.names known])
  · obtain ⟨i, ⟨name, tags, m | x⟩ | ⟨name, tags, x⟩⟩ := seen
    · simp only [share, here, false_and, if_false]
    · rfl
    · rfl

theorem Visit.integral {found : Option (Text × Observation)} (visit : t.Visit found u)
    (integral : t.Integral) : u.Integral := by
  cases visit with
  | idleCounter found =>
    obtain ⟨m, n, rfl⟩ := integral _ _ found
    exact integral.setCounter (scope?_isSome_of_counter? found)
  | counter _ found =>
    obtain ⟨m, n, rfl⟩ := integral _ _ found
    exact integral.setCounter (scope?_isSome_of_counter? found)
  | cleanGauge => exact integral.congr fun _ => counter?_setGauge
  | gauge => exact integral.congr fun _ => counter?_setGauge

/-- What a visit takes from a counter is what it reports for that counter. -/
theorem Visit.unreported {found : Option (Text × Observation)} (visit : t.Visit found u)
    (integral : t.Integral) :
    t.unreported k = (found.toList.map (t.share k)).sum + u.unreported k := by
  cases visit with
  | @idleCounter h c delta found unreported zero =>
    obtain ⟨m, n, rfl⟩ := integral _ _ found
    cases unreported
    have even : m - n = 0 := of_decide_eq_true zero
    rw [unreported_setCounter (scope?_isSome_of_counter? found)]
    simp only [Option.toList_none, List.map_nil, List.sum_nil, Int.zero_add]
    split
    · next same => rw [same, unreported_of_counter? found, even, Int.sub_self]
    · rfl
  | @counter h s c delta atScope found unreported nonzero =>
    obtain ⟨m, n, rfl⟩ := integral _ _ found
    cases unreported
    rw [unreported_setCounter (scope?_isSome_of_counter? found)]
    simp only [Option.toList_some, List.map_cons, List.map_nil, List.sum_cons, List.sum_nil, Int.add_zero, share]
    by_cases same : k = h
    · subst same
      have named : t.fullName? k = some (s.qualify t.separator k.name) := by
        simp only [Tree.fullName?, atScope, Option.map_some]
      rw [if_pos ⟨rfl, named⟩, if_pos rfl, unreported_of_counter? found, Int.sub_self, Int.add_zero]
    · -- Another counter of the same scope has another full name.
      have elsewhere : ¬(h.scope = k.scope ∧ t.fullName? k = some (s.qualify t.separator h.name)) := by
        rintro ⟨inScope, named⟩
        rw [Tree.fullName?, ← inScope, atScope, Option.map_some, Option.some.injEq] at named
        apply same
        cases k
        cases h
        exact Handle.mk.injEq .. ▸ ⟨inScope.symm, Scope.qualify_injective named⟩
      rw [if_neg elsewhere, if_neg same, Int.zero_add]
  | cleanGauge =>
    rw [unreported_congr counter?_setGauge]
    simp only [Option.toList_none, List.map_nil, List.sum_nil, Int.zero_add]
  | gauge =>
    rw [unreported_congr counter?_setGauge]
    simp only [Option.toList_some, List.map_cons, List.map_nil, List.sum_cons, List.sum_nil, Int.add_zero,
      share, Int.zero_add]

theorem Sweep.integral {found : Option (Text × Observation)} (sweep : t.Sweep found u)
    (integral : t.Integral) : u.Integral :=
  sweep.preserves Visit.integral integral

theorem Sweep.unreported {found : Option (Text × Observation)} (sweep : t.Sweep found u)
    (integral : t.Integral) :
    t.unreported k = (found.toList.map (u.share k)).sum + u.unreported k := by
  induction sweep with
  | stop => exact (Int.zero_add _).symm
  | pass visit _ ih =>
    have first := visit.unreported (k := k) integral
    rw [Option.toList_none, List.map_nil, List.sum_nil, Int.zero_add] at first
    rw [first, ih (visit.integral integral)]
  | @find t u seen visit =>
    have same : u.share k = t.share k := funext fun _ => share_congr visit.fullName?
    rw [same]
    exact visit.unreported integral

/-- No counter is reported with nothing. -/
theorem Sweep.found_nonzero {i name : Text} {tags : Tags} {delta : Number}
    (sweep : t.Sweep (some (i, .counter name tags delta)) u) (integral : t.Integral) :
    ∃ d, delta = .int d ∧ d ≠ 0 := by
  generalize same : some (i, Observation.counter name tags delta) = found at sweep
  induction sweep with
  | stop => cases same
  | pass visit _ ih => exact ih (visit.integral integral) same
  | find visit =>
    cases same
    cases visit with
    | counter _ found unreported nonzero =>
      obtain ⟨m, n, rfl⟩ := integral _ _ found
      cases unreported
      exact ⟨m - n, rfl, of_decide_eq_false nonzero⟩

theorem Change.integral {events : List Course.Event} (change : t.Change events u) (integral : t.Integral)
    (integers : ∀ k n, .added k n ∈ events → ∃ m, n = .int m) : u.Integral := by
  cases change with
  | none => exact integral
  | scope fresh => exact integral.congr fun _ => counter?_derive fresh
  | counter present _ => exact integral.setCounter present
  | gauge => exact integral.congr fun _ => counter?_setGauge
  | @added h c n total found sum =>
    obtain ⟨m, rfl⟩ := integers h n (List.mem_singleton.mpr rfl)
    obtain ⟨a, b, rfl⟩ := integral _ _ found
    cases sum
    exact integral.setCounter (scope?_isSome_of_counter? found)
  | updated => exact integral.congr fun _ => counter?_setGauge

end Tree

end MetricTree
