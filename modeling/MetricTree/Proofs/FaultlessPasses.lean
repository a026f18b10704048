import MetricTree.Proofs.IntegralTree

namespace MetricTree

/-- All that a pass is still to visit in its scope is there. -/
def Cursor.Within (t : Tree) : Cursor → Prop
  | .counters i names => ∀ name ∈ names, (t.counter? ⟨i, name⟩).isSome
  | .gauges i names => ∀ name ∈ names, (t.gauge? ⟨i, name⟩).isSome

def Activity.Within (t : Tree) : Activity → Prop
  | .observing _ p _ => p.cursor.Within t
  | _ => True

theorem Cursor.Within.extends {cursor : Cursor} {t u : Tree} (within : cursor.Within t) (extended : u.Extends t) :
    cursor.Within u := by
  cases cursor with
  | counters i names => exact fun name member => extended.counters (within name member)
  | gauges i names => exact fun name member => extended.gauges (within name member)

theorem Activity.Within.extends {a : Activity} {t u : Tree} (within : a.Within t) (extended : u.Extends t) :
    a.Within u := by
  cases a with
  | observing duty p o => exact Cursor.Within.extends within extended
  | flushing | leaving => trivial

namespace Tree

variable {t u : Tree} {i : Text}

theorem counterNames_within (t : Tree) (i : Text) : (Cursor.counters i (t.counterNames i)).Within t := by
  intro name member
  unfold counterNames at member
  cases atScope : t.scope? i with
  | none =>
    rw [atScope] at member
    cases member
  | some s =>
    rw [atScope] at member
    obtain ⟨c, found⟩ := Table.exists_get?_of_mem_keys member
    simp only [counter?, atScope, Option.bind_some, found, Option.isSome_some]

theorem gaugeNames_within (t : Tree) (i : Text) : (Cursor.gauges i (t.gaugeNames i)).Within t := by
  intro name member
  unfold gaugeNames at member
  cases atScope : t.scope? i with
  | none =>
    rw [atScope] at member
    cases member
  | some s =>
    rw [atScope] at member
    obtain ⟨g, found⟩ := Table.exists_get?_of_mem_keys member
    simp only [gauge?, atScope, Option.bind_some, found, Option.isSome_some]

theorem visitCounter_succeeds {name : Text} (integral : t.Integral) (there : (t.counter? ⟨i, name⟩).isSome) :
    ∃ r, t.visitCounter i name = .ok r := by
  obtain ⟨c, found⟩ := Option.isSome_iff_exists.mp there
  obtain ⟨s, atScope⟩ := Option.isSome_iff_exists.mp (scope?_isSome_of_counter? found)
  obtain ⟨m, n, rfl⟩ := integral _ _ found
  have consumed : t.consumeCounter ⟨i, name⟩ = .ok (.int (m - n), _) :=
    consumeCounter_eq_ok.mpr ⟨_, found, rfl, rfl⟩
  exact ⟨_, bind_eq_ok.mpr ⟨s, scope_eq_ok.mpr atScope, bind_eq_ok.mpr ⟨_, consumed, rfl⟩⟩⟩

theorem visitGauge_succeeds {name : Text} (there : (t.gauge? ⟨i, name⟩).isSome) :
    ∃ r, t.visitGauge i name = .ok r := by
  obtain ⟨g, found⟩ := Option.isSome_iff_exists.mp there
  obtain ⟨s, atScope⟩ := Option.isSome_iff_exists.mp (scope?_isSome_of_gauge? found)
  have consumed : t.consumeGauge ⟨i, name⟩ = .ok ((g.value, g.dirty), _) :=
    consumeGauge_eq_ok.mpr ⟨_, found, rfl, rfl, rfl⟩
  exact ⟨_, bind_eq_ok.mpr ⟨s, scope_eq_ok.mpr atScope, bind_eq_ok.mpr ⟨_, consumed, rfl⟩⟩⟩

/-- Visits succeed one after the other if each does, for no visit takes anything away. -/
theorem scan_succeeds {visit : Tree → Text → Except Fault (Option Observation × Tree)}
    {cursor : List Text → Cursor} {names : List Text}
    (visits : ∀ {t u name seen}, visit t name = .ok (seen, u) → Visit t (seen.map (i, ·)) u)
    (succeeds : ∀ {t : Tree} {name rest}, t.Integral → (cursor (name :: rest)).Within t → ∃ r, visit t name = .ok r)
    (later : ∀ {t : Tree} {name rest}, (cursor (name :: rest)).Within t → (cursor rest).Within t)
    (integral : t.Integral) (within : (cursor names).Within t) :
    ∃ found, (scan visit t names).1 = .ok found ∧
      ∀ o rest, found = some (o, rest) → (cursor rest).Within (scan visit t names).2 := by
  induction names generalizing t with
  | nil => exact ⟨none, rfl, fun o rest same => by cases same⟩
  | cons name rest ih =>
    obtain ⟨⟨seen, after⟩, run⟩ := succeeds integral within
    have visit := visits run
    have still := (later within).extends visit.extends
    cases seen with
    | none =>
      simp only [scan, run]
      exact ih (visit.integral integral) still
    | some o =>
      simp only [scan, run]
      exact ⟨_, rfl, fun o rest same => by cases same; exact still⟩

theorem scanCounters_succeeds {names : List Text} (integral : t.Integral)
    (within : (Cursor.counters i names).Within t) :
    ∃ found, (scan (visitCounter · i) t names).1 = .ok found ∧ ∀ o rest, found = some (o, rest) →
      (Cursor.counters i rest).Within (scan (visitCounter · i) t names).2 :=
  scan_succeeds visitCounter_visits
    (fun integral within => visitCounter_succeeds integral (within _ (List.mem_cons_self ..)))
    (fun within name member => within name (List.mem_cons_of_mem _ member)) integral within

theorem scanGauges_succeeds {names : List Text} (integral : t.Integral)
    (within : (Cursor.gauges i names).Within t) :
    ∃ found, (scan (visitGauge · i) t names).1 = .ok found ∧ ∀ o rest, found = some (o, rest) →
      (Cursor.gauges i rest).Within (scan (visitGauge · i) t names).2 :=
  scan_succeeds visitGauge_visits (fun _ within => visitGauge_succeeds (within _ (List.mem_cons_self ..)))
    (fun within name member => within name (List.mem_cons_of_mem _ member)) integral within

theorem nextWithin_gauges_succeeds {names : List Text} (integral : t.Integral)
    (within : (Cursor.gauges i names).Within t) :
    ∃ found, (t.nextWithin (.gauges i names)).1 = .ok found ∧
      ∀ o next, found = some (o, next) → next.Within (t.nextWithin (.gauges i names)).2 := by
  obtain ⟨found, run, still⟩ := scanGauges_succeeds integral within
  refine ⟨found.map fun r => (r.1, .gauges i r.2), by simp only [nextWithin, run]; rfl, ?_⟩
  intro o next same
  obtain ⟨⟨o, rest⟩, rfl, same⟩ := Option.map_eq_some_iff.mp same
  cases same
  exact still o rest rfl

theorem nextWithin_succeeds (integral : t.Integral) {cursor : Cursor} (within : cursor.Within t) :
    ∃ found, (t.nextWithin cursor).1 = .ok found ∧
      ∀ o next, found = some (o, next) → next.Within (t.nextWithin cursor).2 := by
  cases cursor with
  | gauges i names => exact nextWithin_gauges_succeeds integral within
  | counters i names =>
    obtain ⟨found, run, still⟩ := scanCounters_succeeds integral within
    have sweep := scan_sweeps (visitCounter · i) visitCounter_visits t names
    rcases whole : scan (visitCounter · i) t names with ⟨r, after⟩
    rw [whole] at run still sweep
    cases run
    cases found with
    | none =>
      rw [nextWithin_counters_of_scan whole]
      exact nextWithin_gauges_succeeds (sweep.integral integral) (after.gaugeNames_within i)
    | some found =>
      refine ⟨_, by simp only [nextWithin, whole]; rfl, ?_⟩
      intro o next same
      cases same
      simp only [nextWithin, whole]
      exact still _ _ rfl

theorem enter_succeeds (tally : Summary) (integral : t.Integral) (scopes : List Text) :
    ∃ found, (t.enter tally scopes).1 = .ok found ∧
      ∀ o p, found = some (o, p) → p.cursor.Within (t.enter tally scopes).2 := by
  induction scopes generalizing t with
  | nil => exact ⟨none, rfl, fun o p same => by cases same⟩
  | cons i waiting ih =>
    obtain ⟨found, run, still⟩ := nextWithin_succeeds integral (t.counterNames_within i)
    have sweep := nextWithin_sweeps t (.counters i (t.counterNames i))
    rcases whole : t.nextWithin (.counters i (t.counterNames i)) with ⟨r, after⟩
    rw [whole] at run still sweep
    cases run
    cases found with
    | none =>
      simp only [enter, whole]
      exact ih (sweep.integral integral)
    | some found =>
      simp only [enter, whole]
      exact ⟨_, rfl, fun o p same => by cases same; exact still _ _ rfl⟩

/-- With integers only, a pass finds its next metric or none, and never a fault. -/
theorem continuePass_succeeds (integral : t.Integral) {p : Pass} (within : p.cursor.Within t) :
    ∃ found, (t.continuePass p).1 = .ok found ∧
      ∀ o next, found = some (o, next) → next.cursor.Within (t.continuePass p).2 := by
  obtain ⟨found, run, still⟩ := nextWithin_succeeds integral within
  have sweep := nextWithin_sweeps t p.cursor
  rcases whole : t.nextWithin p.cursor with ⟨r, after⟩
  rw [whole] at run still sweep
  cases run
  cases found with
  | none =>
    simp only [continuePass, whole]
    exact enter_succeeds p.tally (sweep.integral integral) p.waiting
  | some found =>
    simp only [continuePass, whole]
    exact ⟨_, rfl, fun o p same => by cases same; exact still _ _ rfl⟩

end Tree

end MetricTree
