import MetricTree.Proofs.IntegralTree
import MetricTree.Proofs.Openings
import MetricTree.Proofs.StepEffect

namespace MetricTree

namespace Course

/-- The sum of the amounts that were added to a counter. -/
def addedTo (h : Handle) (past : List Event) : Int :=
  (past.map fun
    | .added k (.int n) => if k = h then n else 0
    | _ => 0).sum

/-- The sum of the deltas that the reporter was handed for a counter, whatever came of it. -/
def handedFor (t : Tree) (h : Handle) (past : List Event) : Int :=
  ((past.filterMap Event.observed?).map (t.share h)).sum

theorem addedTo_append (h : Handle) (past events : List Event) :
    addedTo h (past ++ events) = addedTo h past + addedTo h events := by
  simp only [addedTo, List.map_append, List.sum_append]

theorem handedFor_append (t : Tree) (h : Handle) (past events : List Event) :
    handedFor t h (past ++ events) = handedFor t h past + handedFor t h events := by
  simp only [handedFor, List.filterMap_append, List.map_append, List.sum_append]

theorem addedTo_of_noWrite {h : Handle} {events : List Event} (noWrite : ∀ e ∈ events, e.isWrite = false) :
    addedTo h events = 0 := by
  induction events with
  | nil => rfl
  | cons e rest ih =>
    have first := noWrite e (List.mem_cons_self ..)
    have later := ih fun e' member => noWrite e' (List.mem_cons_of_mem _ member)
    rw [addedTo] at later
    rw [addedTo, List.map_cons, List.sum_cons, later]
    cases e with
    | added | updated => cases first
    | _ => rfl

/-- What a request adds to a counter is what the counter then has to report in addition. -/
theorem unreported_of_granted {t u : Tree} {k : Handle} {events : List Event} (change : t.Change events u)
    (integral : t.Integral) (integers : ∀ k n, .added k n ∈ events → ∃ m, n = .int m) :
    u.unreported k = t.unreported k + addedTo k events := by
  cases change with
  | none => exact (Int.add_zero _).symm
  | scope fresh => rw [Tree.unreported_congr (Tree.counter?_derive fresh)]; exact (Int.add_zero _).symm
  | @counter h present fresh =>
    rw [Counter.fresh, Tree.unreported_setCounter present]
    split
    · next same => rw [same, Tree.unreported_of_none fresh]; rfl
    · exact (Int.add_zero _).symm
  | gauge => rw [Tree.unreported_congr Tree.counter?_setGauge]; exact (Int.add_zero _).symm
  | @added h c n total found sum =>
    obtain ⟨m, rfl⟩ := integers h n (List.mem_singleton.mpr rfl)
    obtain ⟨a, b, rfl⟩ := integral _ _ found
    cases sum
    rw [Tree.unreported_setCounter (Tree.scope?_isSome_of_counter? found)]
    simp only [addedTo, List.map_cons, List.map_nil, List.sum_cons, List.sum_nil, Int.add_zero]
    by_cases same : k = h
    · subst same
      rw [if_pos rfl, if_pos rfl, Tree.unreported_of_counter? found]
      omega
    · rw [if_neg same, if_neg (Ne.symm same), Int.add_zero]
  | updated => rw [Tree.unreported_congr Tree.counter?_setGauge]; exact (Int.add_zero _).symm

theorem filterMap_granted {t u : Tree} {events : List Event} (change : t.Change events u) :
    events.filterMap Event.observed? = [] := by
  cases change <;> rfl

/-- Everything that was reported so far was reported in a scope that is known by now. -/
def Registered (c : Course) : Prop :=
  ∀ seen ∈ c.past.filterMap Event.observed?, (c.loop.tree.scope? seen.1).isSome

/-- Every counter is an integer, and what was added to it was handed out or is still to be reported. -/
structure Balanced (c : Course) : Prop where
  integral : c.loop.tree.Integral
  registered : c.Registered
  balance : ∀ h, addedTo h c.past = handedFor c.loop.tree h c.past + c.loop.tree.unreported h
  nonzero : ∀ i name tags delta, (i, Observation.counter name tags delta) ∈ c.past.filterMap Event.observed? →
    ∃ d, delta = .int d ∧ d ≠ 0

theorem handedFor_of_extends {c : Course} {u : Tree} {h : Handle} (registered : c.Registered)
    (extended : u.Extends c.loop.tree) : handedFor u h c.past = handedFor c.loop.tree h c.past := by
  have same : ∀ seen ∈ c.past.filterMap Event.observed?, u.share h seen = c.loop.tree.share h seen :=
    fun seen member => Tree.share_of_extends extended (registered seen member)
  simp only [handedFor, List.map_congr_left same]

theorem Balanced.granted {c d : Course} {events : List Event} (before : c.Balanced)
    (past : d.past = c.past ++ events) (change : c.loop.tree.Change events d.loop.tree)
    (integers : ∀ k n, .added k n ∈ events → ∃ m, n = .int m) : d.Balanced := by
  have calls : d.past.filterMap Event.observed? = c.past.filterMap Event.observed? := by
    rw [past, List.filterMap_append, filterMap_granted change, List.append_nil]
  refine ⟨change.integral before.integral integers, ?_, ?_, ?_⟩
  · intro seen member
    exact change.extends.scope (before.registered seen (calls ▸ member))
  · intro h
    have handed : handedFor d.loop.tree h d.past = handedFor c.loop.tree h c.past := by
      rw [← handedFor_of_extends before.registered change.extends]
      simp only [handedFor, calls]
    rw [handed, past, addedTo_append, before.balance, unreported_of_granted change before.integral integers]
    omega
  · intro i name tags delta member
    exact before.nonzero i name tags delta (calls ▸ member)

theorem Balanced.sweep {c d : Course} {events : List Event} {found : Option (Text × Observation)}
    (before : c.Balanced) (past : d.past = c.past ++ events) (sweep : c.loop.tree.Sweep found d.loop.tree)
    (calls : events.filterMap Event.observed? = found.toList) (noWrite : ∀ e ∈ events, e.isWrite = false) :
    d.Balanced := by
  have reported : d.past.filterMap Event.observed? = c.past.filterMap Event.observed? ++ found.toList := by
    rw [past, List.filterMap_append, calls]
  refine ⟨sweep.integral before.integral, ?_, ?_, ?_⟩
  · intro seen member
    rw [reported, List.mem_append] at member
    rcases member with old | new
    · exact sweep.extends.scope (before.registered seen old)
    · rw [Option.mem_toList] at new
      subst new
      exact sweep.found_scope
  · intro h
    have handed : handedFor d.loop.tree h d.past =
        handedFor c.loop.tree h c.past + (found.toList.map (d.loop.tree.share h)).sum := by
      rw [past, handedFor_append, handedFor_of_extends before.registered sweep.extends, handedFor, handedFor,
        calls]
    rw [handed, past, addedTo_append, addedTo_of_noWrite noWrite, before.balance,
      sweep.unreported before.integral]
    omega
  · intro i name tags delta member
    rw [reported, List.mem_append] at member
    rcases member with old | new
    · exact before.nonzero i name tags delta old
    · rw [Option.mem_toList] at new
      subst new
      exact sweep.found_nonzero before.integral

theorem Balanced.take {c : Course} {step : Step} (before : c.Balanced) (integral : step.isIntegral) :
    (c.take step).Balanced := by
  obtain ⟨events, past, effect⟩ := c.take_effect step
  cases effect with
  | sweep sweep calls noWrite => exact before.sweep past sweep calls noWrite
  | granted asked run =>
    subst asked
    exact before.granted past (Request.perform_change run) (Request.perform_integers run integral)

theorem Balanced.opened {o : Options} {interval : Interval} {opening : Opening}
    (opened : Opening.ofOptions o interval = .ok opening) : (Course.opened opening).Balanced := by
  have absent : ∀ h, (Course.opened opening).loop.tree.counter? h = none := Opening.counter?_eq_none opened
  have calls : (Course.opened opening).past.filterMap Event.observed? = [] := filterMap_told _
  refine ⟨fun h c found => ?_, fun seen member => ?_, fun h => ?_, fun i name tags delta member => ?_⟩
  · rw [absent] at found
    cases found
  · rw [calls] at member
    cases member
  · have noWrite : ∀ e ∈ (Course.opened opening).past, e.isWrite = false := fun e => noWrite_told
    rw [addedTo_of_noWrite noWrite, Tree.unreported_of_none (absent h), handedFor, calls]
    rfl
  · rw [calls] at member
    cases member

/-- Whatever callers and the reporter do, and at every moment of it: what was added to a counter is
what the reporter was handed for it, in calls of whatever outcome, and what it has still to report. The
reporter is never handed a zero. -/
theorem counter_conserved {o : Options} {interval : Interval} {opening : Opening} {steps : List Step}
    (opened : Opening.ofOptions o interval = .ok opening) (integral : ∀ step ∈ steps, step.isIntegral) :
    let c := (Course.opened opening).run steps
    (∀ h cell, c.loop.tree.readCounter h = .ok cell →
      ∃ delta, cell.delta = .ok (.int delta) ∧ addedTo h c.past = handedFor c.loop.tree h c.past + delta) ∧
    (∀ duty p name tags delta, .called (.observing duty p (.counter name tags delta)) ∈ c.past →
      ∃ d, delta = .int d ∧ d ≠ 0) := by
  intro c
  have balanced : c.Balanced := run_induction (.opened opened)
    fun c step member before => before.take (integral step member)
  constructor
  · intro h cell read
    rw [Tree.readCounter_eq_ok] at read
    obtain ⟨m, n, rfl⟩ := balanced.integral h cell read
    refine ⟨m - n, rfl, ?_⟩
    rw [balanced.balance, Tree.unreported_of_counter? read]
  · intro duty p name tags delta member
    exact balanced.nonzero p.cursor.scope name tags delta (List.mem_filterMap.mpr ⟨_, member, rfl⟩)

/-- A reporter that adds to the very counter it is told of, fails, and then breaks off the last pass. -/
theorem counter_conserved_reentrant :
    ∃ opening, Opening.ofOptions { Options.standard with reporter := some ⟨"Recorder", true, true⟩ }
        (.value .null) = .ok opening ∧
      let c := (Course.opened opening).run
        [.request (.counter "" (.text "a")), .request (.inc ⟨"", "a"⟩ (.int 3)), .report,
          .request (.inc ⟨"", "a"⟩ (.int (-5))), .close, .outcome (.failed ⟨"OSError", "gone"⟩),
          .outcome .returned, .outcome (.aborted "stop"), .request (.inc ⟨"", "a"⟩ (.int 7))]
      (∃ cell delta, c.loop.tree.readCounter ⟨"", "a"⟩ = .ok cell ∧ cell.delta = .ok (.int delta) ∧
        addedTo ⟨"", "a"⟩ c.past = handedFor c.loop.tree ⟨"", "a"⟩ c.past + delta) ∧
      addedTo ⟨"", "a"⟩ c.past = 5 ∧ handedFor c.loop.tree ⟨"", "a"⟩ c.past = -2 := by
  have opened : Opening.ofOptions { Options.standard with reporter := some ⟨"Recorder", true, true⟩ }
    (.value .null) = .ok _ := rfl
  refine ⟨_, opened, ?_⟩
  intro c
  have there : (c.loop.tree.counter? ⟨"", "a"⟩).isSome := by decide +kernel
  obtain ⟨cell, found⟩ := Option.isSome_iff_exists.mp there
  have read := Tree.readCounter_eq_ok.mpr found
  obtain ⟨delta, unreported, balance⟩ := (counter_conserved opened (by decide)).1 _ cell read
  exact ⟨⟨cell, delta, read, unreported, balance⟩, by decide +kernel, by decide +kernel⟩

end Course

end MetricTree
