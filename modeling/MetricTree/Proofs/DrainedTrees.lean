import MetricTree.Proofs.CellAccounts
import MetricTree.Proofs.GaugeUpdates
import MetricTree.Proofs.LatestPasses

namespace MetricTree

open Course

theorem Binary64.sub_self {x : Binary64} (finite : x.isFinite = true) : x.sub x = .zero := by
  cases x with
  | nan => cases finite
  | signed negative m =>
    have bounded : m ≠ .infinity := bne_iff_ne.mp finite
    have none : ofUnits 0 = .signed false .zero := by decide +kernel
    cases negative <;> simp [sub, neg, add, zero, bounded, none]

/-- A counter whose whole total is reported has nothing to report, unless its total is beyond all numbers. -/
theorem Counter.exists_delta_of_reported (c : Counter) (reported : c.reported = c.total)
    (finite : ∀ x, c.total = .float x → x.isFinite = true) : ∃ n, c.delta = .ok n ∧ n.isZero = true := by
  rw [delta, reported]
  cases total : c.total with
  | int n => exact ⟨.int (n - n), rfl, by rw [Int.sub_self]; rfl⟩
  | float x => exact ⟨.float (x.sub x), rfl, by rw [Binary64.sub_self (finite x total)]; rfl⟩

namespace Cell

variable {h : Handle} {events : List Event} {x y : Cell}

theorem Written.eq_of_noWrite (written : Written h events x y) (noWrite : ∀ e ∈ events, e.isWrite = false) : y = x := by
  cases x with
  | counter c => exact written.counter_eq (amounts_of_noWrite noWrite)
  | gauge g => exact written.gauge_eq (writes_of_noWrite noWrite)

theorem Written.exists_counter {c : Counter} (written : Written h events (.counter c) x) : ∃ k, x = .counter k := by
  cases written with
  | counter => exact ⟨_, rfl⟩

theorem Written.exists_gauge {g : Gauge} (written : Written h events (.gauge g) x) : ∃ k, x = .gauge k := by
  cases written with
  | gauge => exact ⟨_, rfl⟩

end Cell

namespace Tree

variable {t u : Tree} {since : List Event} {been : List Job} {job : Job}

theorem settled_cellAt_of_absent (absent : ¬t.Has job) :
    (t.cellAt job).settled = t.cellAt job ∧ (t.cellAt job).due = none := by
  cases job with
  | counter h =>
    rw [Has, Option.not_isSome_iff_eq_none] at absent
    rw [cellAt, counterAt, absent]
    exact ⟨rfl, rfl⟩
  | gauge h =>
    rw [Has, Option.not_isSome_iff_eq_none] at absent
    rw [cellAt, gaugeAt, absent]
    exact ⟨rfl, rfl⟩

/-- A pass that has come to its end has been to every metric that there was. One that there was not had nothing due. -/
theorem Toured.visited_all (toured : t.Toured since u been []) (job : Job) : t.Visited since u job := by
  by_cases visited : job ∈ been
  · exact toured.visited job visited
  · have absent : ¬t.Has job := fun there => visited (List.append_nil been ▸ toured.all job there)
    obtain ⟨settled, nothing⟩ := settled_cellAt_of_absent absent
    have spared := toured.spared job visited
    refine ⟨[], since, t.cellAt job, rfl, .of_noWrite (List.forall_mem_nil _) _, told_eq_nil rfl, ?_,
      fun some => ?_, ?_⟩
    · rw [spared.untold, nothing]
      rfl
    · rw [nothing] at some
      cases some
    · rw [settled]
      exact spared.cell

end Tree

namespace Course

variable {c d : Course} {duty : Duty} {first since : List Event} {been : List Job}

theorem extends_run (c : Course) (steps : List Step) : (c.run steps).loop.tree.Extends c.loop.tree := by
  refine tree_induction (P := fun u => u.Extends c.loop.tree) (.refl _) ?_ ?_
  · exact fun run before => (Request.perform_change run).extends.trans before
  · exact fun visit before => visit.extends.trans before

/-- When a pass over the tree of the course `d` has come to its end, every metric was settled at a moment since the pass
began, with all that had been written to it by then, and with all that the reporter was ever told of it. -/
structure Settled (c d : Course) (job : Job) (early late : List Event) (x : Cell) : Prop where
  untold : told c.loop.tree job early = []
  before : Cell.Written job.handle early (d.loop.tree.cellAt job) x
  after : Cell.Written job.handle late x.settled (c.loop.tree.cellAt job)
  accounts : x.settled.Accounts job.handle (d.past ++ early) (told c.loop.tree job c.past)

theorem Accounted.settled (accounted : d.Accounted) (extended : c.loop.tree.Extends d.loop.tree)
    (past : c.past = d.past ++ (first ++ .began duty :: since)) (calm : ∀ e ∈ first, e.observed? = none)
    (toured : d.loop.tree.Toured since c.loop.tree been []) (job : Job) :
    ∃ early late x, since = early ++ late ∧ c.Settled d job early late x := by
  obtain ⟨early, late, x, rfl, fate⟩ := toured.visited_all job
  refine ⟨early, late, x, rfl, fate.untold, fate.before, fate.after, ?_⟩
  have untold : told c.loop.tree job (first ++ [.began duty]) = [] :=
    told_eq_nil (List.filterMap_eq_nil_iff.mpr
      (List.forall_mem_append.mpr ⟨calm, List.forall_mem_singleton.mpr rfl⟩))
  have all : told c.loop.tree job c.past = told d.loop.tree job d.past ++ x.due.toList := by
    rw [past, told_append, told_of_extends accounted.registered extended, List.append_cons, told_append, untold,
      told_append, fate.untold, fate.told]
    rfl
  rw [all]
  exact ((accounted.cells job).write fate.before).settle

namespace Settled

variable {h : Handle} {early late : List Event} {x : Cell}

/-- If nobody wrote to a metric since the pass began, it is still settled. -/
theorem still (settled : c.Settled d job early late x) (calm : ∀ e ∈ early ++ late, e.isWrite = false) :
    c.loop.tree.cellAt job = x.settled :=
  settled.after.eq_of_noWrite (List.forall_mem_append.mp calm).2

/-- What was added to a counter until it was settled is what the reporter was handed for it. -/
theorem counter (settled : c.Settled d (.counter h) early late x)
    (integers : ∀ n ∈ amounts h (d.past ++ early), ∃ m, n = .int m) :
    handedFor c.loop.tree h c.past = addedTo h d.past + addedTo h early := by
  obtain ⟨k, rfl⟩ := settled.before.exists_counter
  obtain ⟨adds, tells, added, handed, same⟩ := settled.accounts integers
  obtain ⟨total, reported⟩ := Counter.mk.inj same
  rw [← addedTo_append, handedFor_eq, addedTo_eq, show amounts h (d.past ++ early) = _ from added, handed,
    Number.sum_whole, Number.sum_whole]
  exact (Number.int.inj (total.symm.trans reported)).symm

theorem reported (settled : c.Settled d (.counter h) early late x) (calm : ∀ e ∈ early ++ late, e.isWrite = false) :
    (c.loop.tree.counterAt h).reported = (c.loop.tree.counterAt h).total := by
  obtain ⟨k, rfl⟩ := settled.before.exists_counter
  have still : c.loop.tree.counterAt h = k.settled := Cell.counter.inj (settled.still calm)
  rw [still, Counter.settled]

/-- The last that was written to a gauge until it was settled is the last that the reporter was told of it. -/
theorem gauge (settled : c.Settled d (.gauge h) early late x) :
    (told c.loop.tree (.gauge h) c.past).getLast? = (writes h (d.past ++ early)).getLast?.map .float ∧
      (writes h late = [] → (c.loop.tree.gaugeAt h).dirty = false) := by
  obtain ⟨g, rfl⟩ := settled.before.exists_gauge
  refine ⟨Gauge.Accounts.clean settled.accounts rfl, fun calm => ?_⟩
  have still : c.loop.tree.gaugeAt h = g.settled := Cell.gauge.inj (settled.after.gauge_eq calm)
  rw [still, Gauge.settled]

end Settled

/-- All that was written to the metrics of the course `d` before a pass began was handed to the reporter since: the
whole of what was added to a counter, and every update of a gauge, unless another one took its place before the reporter
was told of it. What was written to a metric since, up to a moment of the pass, was handed to the reporter as well. If
nobody wrote since, nothing is left to be reported. -/
structure Drained (c d : Course) (since : List Event) : Prop where
  visits : ∀ job, d.loop.tree.Visited since c.loop.tree job
  counters : ∀ h, (∀ n ∈ amounts h c.past, ∃ m, n = .int m) → ∃ early late, since = early ++ late ∧
    told c.loop.tree (.counter h) early = [] ∧
    handedFor c.loop.tree h c.past = addedTo h d.past + addedTo h early
  gauges : ∀ h, ∃ early late, since = early ++ late ∧ told c.loop.tree (.gauge h) early = [] ∧
    (told c.loop.tree (.gauge h) c.past).getLast? = (writes h (d.past ++ early)).getLast?.map .float
  updates : ∀ h x sooner later, d.past = sooner ++ .updated h x :: later →
    ∃ events, c.past = d.past ++ events ∧ Delivered c.loop.tree h x (later ++ events)
  settled : (∀ e ∈ since, e.isWrite = false) →
    (∀ h k, c.loop.tree.counter? h = some k → k.reported = k.total ∧
      ((∀ x, k.total = .float x → x.isFinite = true) → ∃ n, k.delta = .ok n ∧ n.isZero = true)) ∧
    ∀ h g, c.loop.tree.gauge? h = some g → g.dirty = false

theorem Accounted.drained (accounted : d.Accounted) (lossless : c.Lossless) (extended : c.loop.tree.Extends d.loop.tree)
    (past : c.past = d.past ++ (first ++ .began duty :: since)) (calm : ∀ e ∈ first, e.observed? = none)
    (toured : d.loop.tree.Toured since c.loop.tree been []) : c.Drained d since := by
  have ends := accounted.settled extended past calm toured
  have among : ∀ {early late}, since = early ++ late → ∀ {h}, (∀ n ∈ amounts h c.past, ∃ m, n = .int m) →
      ∀ n ∈ amounts h (d.past ++ early), ∃ m, n = .int m := by
    rintro early late rfl h integers n member
    refine integers n (List.Sublist.subset (List.Sublist.filterMap _ ?_) member)
    rw [past]
    exact List.Sublist.append_left (((List.sublist_append_left early late).cons _).trans
      (List.sublist_append_right first _)) _
  refine ⟨toured.visited_all, fun h integers => ?_, fun h => ?_, fun h x sooner later made => ⟨_, past, ?_⟩,
    fun calm => ⟨fun h k found => ?_, fun h g found => ?_⟩⟩
  · obtain ⟨early, late, x, split, settled⟩ := ends (.counter h)
    exact ⟨early, late, split, settled.untold, settled.counter (among split integers)⟩
  · obtain ⟨early, late, x, split, settled⟩ := ends (.gauge h)
    exact ⟨early, late, split, settled.untold, settled.gauge.1⟩
  · have there : c.past = sooner ++ .updated h x :: (later ++ (first ++ .began duty :: since)) := by
      rw [past, made, List.append_assoc, List.cons_append]
    -- An update that is still owed would leave its gauge dirty, but the pass has settled it.
    refine (lossless.updates h x sooner _ there).resolve_right fun owed => ?_
    obtain ⟨early, late, _, rfl, settled⟩ := ends (.gauge h)
    have tail : late.Sublist (later ++ (first ++ .began duty :: (early ++ late))) :=
      (((List.sublist_append_right early late).cons _).trans (List.sublist_append_right first _)).trans
        (List.sublist_append_right later _)
    have unwritten : writes h late = [] := List.eq_nil_of_sublist_nil (owed.latest ▸ tail.filterMap _)
    have clean := settled.gauge.2 unwritten
    rw [owed.gauge] at clean
    cases clean
  · obtain ⟨early, late, x, rfl, settled⟩ := ends (.counter h)
    have reported := settled.reported calm
    rw [Tree.counterAt_of_counter? found] at reported
    exact ⟨reported, k.exists_delta_of_reported reported⟩
  · obtain ⟨early, late, x, rfl, settled⟩ := ends (.gauge h)
    rw [← Tree.gaugeAt_of_gauge? found]
    exact settled.gauge.2 (writes_of_noWrite (List.forall_mem_append.mp calm).2)

/-- A loop with a reporter that is closed has made a last pass, which drained the tree of all that was written before
the pass began. A close is brought to this end unless a pass is cut short, which with integers takes an interruption. -/
theorem closed_tree_drained {o : Options} {interval : Interval} {opening : Opening} {steps : List Step}
    (opened : Opening.ofOptions o interval = .ok opening) (attached : o.reporter.isSome) :
    let c := (Course.opened opening).run steps
    (c.loop.phase = .closed → ∃ sooner begin later duty first since, steps = sooner ++ begin :: later ∧
      Begun opening c sooner begin duty first since ∧ duty.isLast = true ∧
      c.Drained ((Course.opened opening).run sooner) since) ∧
    (.close ∈ steps → c.waiting = [] → (∀ fault, .cut fault ∉ sinceClose c.past) → c.loop.phase = .closed) ∧
    ((∀ step ∈ steps, step.isIntegral) → (∀ message, .outcome (.aborted message) ∉ steps) →
      ∀ fault, .cut fault ∉ sinceClose c.past) := by
  intro c
  obtain ⟨s, placed⟩ := placed_run opened steps
  refine ⟨fun closed => ?_, fun asked none uncut => ?_, fun integral calm fault cut => ?_⟩
  · cases standing_run opened steps with
    | resting _ unclosed => exact absurd closed unclosed
    | bare _ bare =>
      rw [← placed.reporter, bare] at attached
      cases attached
    | passing _ _ _ inPass => exact absurd closed (placed.here.unclosed_of_serves inPass.waits inPass.serves)
    | @parted sooner later begin duty first since been _ split begun last toured =>
      have extended : c.loop.tree.Extends ((Course.opened opening).run sooner).loop.tree := by
        simp only [c, split, run_append]
        exact extends_run _ _
      exact ⟨sooner, begin, later, duty, first, since, split, begun, last,
        (accounted_run opened sooner).drained (lossless_run opening steps) extended begun.past
          (fun e member => (begun.calm e member).2) toured⟩
  · have effective := closing_mem_of_close opened asked
    obtain ⟨here, fits, _⟩ := placed
    cases fits with
    | ready unasked | reporting unasked => exact absurd effective unasked
    | asked | last => cases here with | passing one => cases one.symm.trans none
    | stuck _ _ _ cut =>
      obtain ⟨fault, member⟩ := cut
      exact absurd member (uncut fault)
    | finished => cases here with | finished _ _ closed => exact closed
  · obtain ⟨a, message, _, broken⟩ := (faultless_run opened integral).cut.mp ⟨fault, cut⟩
    exact calm message ((faultless_run opened integral).came a _ (sinceClose_subset _ broken))

/-- A reporter that, told of a counter, adds to it once more, asks for a close, and makes a gauge in a new scope. -/
theorem closed_tree_drained_put_off :
    ∃ opening, Opening.ofOptions { Options.standard with reporter := some ⟨"Recorder", true, true⟩ }
        (.value .null) = .ok opening ∧
      let steps : List Step := [.request (.counter "" (.text "a")), .request (.inc ⟨"", "a"⟩ (.int 3)), .report,
        .request (.inc ⟨"", "a"⟩ (.int 4)), .close, .request (.subScope "" (.text "s")),
        .request (.gauge "s+" (.text "g")), .request (.update ⟨"s+", "g"⟩ (.float .zero)), .outcome .returned,
        .outcome .returned, .outcome .returned, .outcome (.failed ⟨"OSError", "gone"⟩), .outcome .returned,
        .outcome .returned]
      let c := (Course.opened opening).run steps
      c.waiting = [] ∧ c.loop.phase = .closed ∧ handedFor c.loop.tree ⟨"", "a"⟩ c.past = 7 ∧
        (told c.loop.tree (.gauge ⟨"s+", "g"⟩) c.past).length = 1 ∧
        ∃ sooner early, handedFor c.loop.tree ⟨"", "a"⟩ c.past =
          addedTo ⟨"", "a"⟩ ((Course.opened opening).run sooner).past + addedTo ⟨"", "a"⟩ early := by
  have opened : Opening.ofOptions { Options.standard with reporter := some ⟨"Recorder", true, true⟩ }
    (.value .null) = .ok _ := rfl
  refine ⟨_, opened, ?_⟩
  intro steps c
  have none : c.waiting = [] := List.isEmpty_iff.mp (by decide +kernel)
  have integers : ∀ n ∈ amounts ⟨"", "a"⟩ c.past, ∃ m, n = .int m := by
    have added : amounts ⟨"", "a"⟩ c.past = [.int 3, .int 4] := by decide +kernel
    rw [added]
    rintro n (_ | ⟨_, _ | ⟨_, ⟨⟩⟩⟩) <;> exact ⟨_, rfl⟩
  obtain ⟨drained, ends, uncut⟩ := @closed_tree_drained _ _ _ steps opened rfl
  have closed : c.loop.phase = .closed := ends (by simp [steps]) none (uncut (by decide) (by simp [steps]))
  obtain ⟨sooner, _, _, _, _, _, _, _, _, drained⟩ := drained closed
  obtain ⟨early, _, _, _, handed⟩ := drained.counters ⟨"", "a"⟩ integers
  exact ⟨none, closed, by decide +kernel, by decide +kernel, sooner, early, handed⟩

/-- A delta that is too large for its kind cuts the last pass short, and the counter after it is not reported. -/
theorem closed_tree_drained_overflow :
    ∃ opening, Opening.ofOptions { Options.standard with reporter := some ⟨"Recorder", true, true⟩ }
        (.value .null) = .ok opening ∧
      let half := Binary64.signed false (.ofRank (1022 * Nat.pow 2 52))
      let steps : List Step := [.request (.counter "" (.text "a")), .request (.counter "" (.text "z")),
        .request (.inc ⟨"", "a"⟩ (.int (Nat.pow 10 200 * Nat.pow 10 200))), .report, .outcome .returned,
        .outcome .returned, .request (.inc ⟨"", "a"⟩ (.int (-(Nat.pow 10 200 * Nat.pow 10 200)))),
        .request (.inc ⟨"", "a"⟩ (.float half)), .request (.inc ⟨"", "z"⟩ (.int 1)), .close]
      let c := (Course.opened opening).run steps
      (∀ message, .outcome (.aborted message) ∉ steps) ∧ c.waiting = [] ∧ c.past.countP Event.begins = 2 ∧
        addedTo ⟨"", "z"⟩ c.past = 1 ∧ handedFor c.loop.tree ⟨"", "z"⟩ c.past = 0 := by
  have opened : Opening.ofOptions { Options.standard with reporter := some ⟨"Recorder", true, true⟩ }
    (.value .null) = .ok _ := rfl
  refine ⟨_, opened, ?_⟩
  intro half steps c
  have none : c.waiting = [] := List.isEmpty_iff.mp (by decide +kernel)
  exact ⟨by simp [steps], none, by decide +kernel, by decide +kernel, by decide +kernel⟩

end Course

end MetricTree
