import MetricTree.Proofs.TreeChange

namespace MetricTree

namespace Tree

/-- What a pass can do with one metric. What it finds to report comes with the identity of the scope
that it is in. -/
inductive Visit (t : Tree) : Option (Text × Observation) → Tree → Prop
  | idleCounter {h : Handle} {c : Counter} {delta : Number} (found : t.counter? h = some c)
      (unreported : c.delta = .ok delta) (zero : delta.isZero = true) :
      Visit t none (t.setCounter h { c with reported := c.total })
  | counter {h : Handle} {s : Scope} {c : Counter} {delta : Number} (atScope : t.scope? h.scope = some s)
      (found : t.counter? h = some c) (unreported : c.delta = .ok delta) (nonzero : delta.isZero = false) :
      Visit t (some (h.scope, .counter (s.qualify t.separator h.name) s.tags delta))
        (t.setCounter h { c with reported := c.total })
  | cleanGauge {h : Handle} {g : Gauge} (found : t.gauge? h = some g) (clean : g.dirty = false) :
      Visit t none (t.setGauge h { g with dirty := false })
  | gauge {h : Handle} {s : Scope} {g : Gauge} (atScope : t.scope? h.scope = some s)
      (found : t.gauge? h = some g) (dirty : g.dirty = true) :
      Visit t (some (h.scope, .gauge (s.qualify t.separator h.name) s.tags g.value))
        (t.setGauge h { g with dirty := false })

/-- Visits up to the first metric that is to be reported, if there is one. -/
inductive Sweep : Tree → Option (Text × Observation) → Tree → Prop
  | stop {t : Tree} : Sweep t none t
  | pass {t u v : Tree} {found : Option (Text × Observation)} (visit : Visit t none u)
      (rest : Sweep u found v) : Sweep t found v
  | find {t u : Tree} {found : Text × Observation} (visit : Visit t (some found) u) :
      Sweep t (some found) u

variable {t u v : Tree} {h k : Handle}

theorem Sweep.trans {found : Option (Text × Observation)} (first : Sweep t none u)
    (rest : Sweep u found v) : Sweep t found v := by
  generalize same : (none : Option (Text × Observation)) = nothing at first
  induction first with
  | stop => exact rest
  | pass visit _ ih => exact .pass visit (ih rest same)
  | find => cases same

/-- What the visits keep, the whole sweep keeps. -/
theorem Sweep.preserves {P : Tree → Prop} {found : Option (Text × Observation)} (sweep : Sweep t found u)
    (visited : ∀ {t u : Tree} {found : Option (Text × Observation)}, Visit t found u → P t → P u) (before : P t) :
    P u := by
  induction sweep with
  | stop => exact before
  | pass visit _ ih => exact ih (visited visit before)
  | find visit => exact visited visit before

theorem Visit.fullName? {found : Option (Text × Observation)} (visit : t.Visit found u) :
    u.fullName? k = t.fullName? k := by
  cases visit with
  | idleCounter | counter => exact fullName?_setCounter
  | cleanGauge | gauge => exact fullName?_setGauge

theorem Visit.extends {found : Option (Text × Observation)} (visit : t.Visit found u) : u.Extends t := by
  cases visit with
  | idleCounter found => exact setCounter_extends (scope?_isSome_of_counter? found)
  | counter _ found => exact setCounter_extends (scope?_isSome_of_counter? found)
  | cleanGauge found => exact setGauge_extends (scope?_isSome_of_gauge? found)
  | gauge _ found => exact setGauge_extends (scope?_isSome_of_gauge? found)

theorem Sweep.extends {found : Option (Text × Observation)} (sweep : t.Sweep found u) : u.Extends t :=
  sweep.preserves (P := fun v => v.Extends t) (fun visit before => visit.extends.trans before) (.refl t)

/-- What a sweep finds is in a scope of the tree. -/
theorem Sweep.found_scope {seen : Text × Observation} (sweep : t.Sweep (some seen) u) :
    (u.scope? seen.1).isSome := by
  generalize same : some seen = found at sweep
  induction sweep with
  | stop => cases same
  | pass _ _ ih => exact ih same
  | find visit =>
    cases same
    cases visit with
    | counter atScope found =>
      exact (setCounter_extends (scope?_isSome_of_counter? found)).scope
        (Option.isSome_iff_exists.mpr ⟨_, atScope⟩)
    | gauge atScope found =>
      exact (setGauge_extends (scope?_isSome_of_gauge? found)).scope
        (Option.isSome_iff_exists.mpr ⟨_, atScope⟩)

theorem consumeCounter_eq_ok {delta : Number} :
    t.consumeCounter h = .ok (delta, u) ↔
      ∃ c, t.counter? h = some c ∧ c.delta = .ok delta ∧ u = t.setCounter h { c with reported := c.total } := by
  constructor
  · intro run
    obtain ⟨c, read, rest⟩ := bind_eq_ok.mp run
    obtain ⟨⟨d, settled⟩, consumed, rest⟩ := bind_eq_ok.mp rest
    obtain ⟨d, unreported, same⟩ := bind_eq_ok.mp consumed
    cases same
    obtain ⟨after, put, result⟩ := bind_eq_ok.mp rest
    cases result
    exact ⟨c, readCounter_eq_ok.mp read, unreported, (putCounter_eq_ok.mp put).2⟩
  · rintro ⟨c, found, unreported, rfl⟩
    have consumed : c.consume = .ok (delta, { c with reported := c.total }) :=
      bind_eq_ok.mpr ⟨delta, unreported, rfl⟩
    have put : t.putCounter h { c with reported := c.total } = .ok _ :=
      putCounter_eq_ok.mpr ⟨scope?_isSome_of_counter? found, rfl⟩
    exact bind_eq_ok.mpr ⟨c, readCounter_eq_ok.mpr found, bind_eq_ok.mpr ⟨_, consumed,
      bind_eq_ok.mpr ⟨_, put, rfl⟩⟩⟩

theorem consumeGauge_eq_ok {value : Binary64} {dirty : Bool} :
    t.consumeGauge h = .ok ((value, dirty), u) ↔
      ∃ g, t.gauge? h = some g ∧ g.value = value ∧ g.dirty = dirty ∧
        u = t.setGauge h { g with dirty := false } := by
  constructor
  · intro run
    obtain ⟨g, read, rest⟩ := bind_eq_ok.mp run
    obtain ⟨after, put, result⟩ := bind_eq_ok.mp rest
    cases result
    exact ⟨g, readGauge_eq_ok.mp read, rfl, rfl, (putGauge_eq_ok.mp put).2⟩
  · rintro ⟨g, found, rfl, rfl, rfl⟩
    have put : t.putGauge h { g with dirty := false } = .ok _ :=
      putGauge_eq_ok.mpr ⟨scope?_isSome_of_gauge? found, rfl⟩
    exact bind_eq_ok.mpr ⟨g, readGauge_eq_ok.mpr found, bind_eq_ok.mpr ⟨_, put, rfl⟩⟩

theorem visitCounter_visits {i name : Text} {seen : Option Observation}
    (run : t.visitCounter i name = .ok (seen, u)) : Visit t (seen.map (i, ·)) u := by
  obtain ⟨s, atScope, rest⟩ := bind_eq_ok.mp run
  obtain ⟨⟨delta, after⟩, consumed, result⟩ := bind_eq_ok.mp rest
  rw [scope_eq_ok] at atScope
  obtain ⟨c, found, unreported, rfl⟩ := consumeCounter_eq_ok.mp consumed
  cases zero : delta.isZero with
  | true =>
    simp only [zero, if_true] at result
    cases result
    exact .idleCounter found unreported zero
  | false =>
    simp only [zero, Bool.false_eq_true, if_false] at result
    cases result
    exact .counter (h := ⟨i, name⟩) atScope found unreported zero

theorem visitGauge_visits {i name : Text} {seen : Option Observation}
    (run : t.visitGauge i name = .ok (seen, u)) : Visit t (seen.map (i, ·)) u := by
  obtain ⟨s, atScope, rest⟩ := bind_eq_ok.mp run
  obtain ⟨⟨⟨value, dirty⟩, after⟩, consumed, result⟩ := bind_eq_ok.mp rest
  rw [scope_eq_ok] at atScope
  obtain ⟨g, found, rfl, rfl, rfl⟩ := consumeGauge_eq_ok.mp consumed
  cases dirty : g.dirty with
  | true =>
    simp only [dirty, if_true] at result
    cases result
    exact .gauge (h := ⟨i, name⟩) atScope found dirty
  | false =>
    simp only [dirty, Bool.false_eq_true, if_false] at result
    cases result
    exact .cleanGauge found dirty

theorem scan_sweeps (visit : Tree → Text → Except Fault (Option Observation × Tree)) {i : Text}
    (visits : ∀ {t u name seen}, visit t name = .ok (seen, u) → Visit t (seen.map (i, ·)) u)
    (t : Tree) (names : List Text) :
    Sweep t ((scan visit t names).1.toOption.join.map fun found => (i, found.1)) (scan visit t names).2 := by
  induction names generalizing t with
  | nil => exact .stop
  | cons name rest ih =>
    unfold scan
    split
    · exact .stop
    · next run => exact .pass (visits run) (ih _)
    · next run => exact .find (visits run)

theorem nextWithin_gauges_sweeps (t : Tree) (i : Text) (names : List Text) :
    Sweep t ((t.nextWithin (.gauges i names)).1.toOption.join.map fun found => (found.2.scope, found.1))
      (t.nextWithin (.gauges i names)).2 := by
  have gauges := scan_sweeps (visitGauge · i) visitGauge_visits t names
  simp only [nextWithin]
  rcases run : scan (visitGauge · i) t names with ⟨_ | _ | ⟨o, rest⟩, after⟩ <;>
    (rw [run] at gauges; exact gauges)

/-- Once no counter is left that is to be reported, the gauges of the scope are next. -/
theorem nextWithin_counters_of_scan {i : Text} {names : List Text}
    (run : scan (visitCounter · i) t names = (.ok none, u)) :
    t.nextWithin (.counters i names) = u.nextWithin (.gauges i (u.gaugeNames i)) := by
  simp only [nextWithin, run]

theorem nextWithin_sweeps (t : Tree) (cursor : Cursor) :
    Sweep t ((t.nextWithin cursor).1.toOption.join.map fun found => (found.2.scope, found.1))
      (t.nextWithin cursor).2 := by
  cases cursor with
  | gauges i names => exact nextWithin_gauges_sweeps t i names
  | counters i names =>
    have counters := scan_sweeps (visitCounter · i) visitCounter_visits t names
    rcases run : scan (visitCounter · i) t names with ⟨_ | _ | ⟨o, rest⟩, after⟩ <;> rw [run] at counters
    · simp only [nextWithin, run]
      exact counters
    · rw [nextWithin_counters_of_scan run]
      exact counters.trans (nextWithin_gauges_sweeps after i (after.gaugeNames i))
    · simp only [nextWithin, run]
      exact counters

theorem enter_sweeps (t : Tree) (tally : Summary) (scopes : List Text) :
    Sweep t ((t.enter tally scopes).1.toOption.join.map fun found => (found.2.cursor.scope, found.1))
      (t.enter tally scopes).2 := by
  induction scopes generalizing t with
  | nil => exact .stop
  | cons i waiting ih =>
    have within := nextWithin_sweeps t (.counters i (t.counterNames i))
    unfold enter
    rcases run : t.nextWithin (.counters i (t.counterNames i)) with ⟨_ | _ | ⟨o, cursor⟩, after⟩ <;>
      rw [run] at within
    · exact within
    · exact within.trans (ih after)
    · exact within

theorem continuePass_sweeps (t : Tree) (p : Pass) :
    Sweep t ((t.continuePass p).1.toOption.join.map fun found => (found.2.cursor.scope, found.1))
      (t.continuePass p).2 := by
  have within := nextWithin_sweeps t p.cursor
  unfold continuePass
  rcases run : t.nextWithin p.cursor with ⟨_ | _ | ⟨o, cursor⟩, after⟩ <;> rw [run] at within
  · exact within
  · exact within.trans (enter_sweeps after p.tally p.waiting)
  · exact within

end Tree

/-- What the reporter is told of a metric, with the identity of the metric's scope. -/
def Activity.observed? : Activity → Option (Text × Observation)
  | .observing _ p o => some (p.cursor.scope, o)
  | _ => none

def Move.observed? (m : Move) : Option (Text × Observation) :=
  match m.next with
  | .waits a => a.observed?
  | .ends _ => none

namespace Loop

variable (l : Loop)

theorem pass_sweeps {t : Tree} (duty : Duty) (tally : Summary)
    {found : Except Fault (Option (Observation × Pass)) × Tree}
    (sweep : t.Sweep (found.1.toOption.join.map fun found => (found.2.cursor.scope, found.1)) found.2) :
    t.Sweep (l.pass duty tally found).observed? (l.pass duty tally found).loop.tree := by
  rcases found with ⟨_ | _ | ⟨o, p⟩, after⟩ <;> exact sweep

theorem leave_sweeps (last : Summary) (answer : Option Summary) :
    l.tree.Sweep (l.leave last answer).observed? (l.leave last answer).loop.tree := by
  unfold leave
  simp only
  split <;> exact .stop

theorem follow_sweeps (plan : Plan) : l.tree.Sweep (l.follow plan).observed? (l.follow plan).loop.tree := by
  cases plan with
  | pass duty => exact l.pass_sweeps duty .empty (Tree.enter_sweeps _ _ _)
  | leave last answer => exact l.leave_sweeps last answer
  | answer answer => exact .stop

theorem report_sweeps : l.tree.Sweep l.report.observed? l.report.loop.tree := l.follow_sweeps _

theorem close_sweeps : l.tree.Sweep l.close.observed? l.close.loop.tree := by
  unfold close
  split
  · exact l.follow_sweeps _
  · exact follow_sweeps { l with phase := .closing } _

/-- Whatever the outcome, a loop that goes on does no more to its tree than to visit metrics. -/
theorem resume_sweeps (a : Activity) (outcome : Outcome) :
    l.tree.Sweep (l.resume a outcome).observed? (l.resume a outcome).loop.tree := by
  cases a with
  | observing duty p o =>
    cases outcome with
    | aborted message => exact .stop
    | returned => exact l.pass_sweeps duty _ (Tree.continuePass_sweeps _ _)
    | failed failure => exact l.pass_sweeps duty _ (Tree.continuePass_sweeps _ _)
  | flushing duty tally =>
    cases outcome with
    | aborted message => exact .stop
    | returned => exact follow_sweeps { l with passes := l.passes + 1, busy := false } _
    | failed failure => exact follow_sweeps { l with passes := l.passes + 1, busy := false } _
  | leaving answer => cases outcome <;> exact .stop

end Loop

end MetricTree
