import MetricTree.Proofs.CallAnswers
import MetricTree.Proofs.CellAccounts
import MetricTree.Proofs.SnapshotAgreement
import MetricTree.Proofs.SnapshotFailures

namespace MetricTree

namespace Number

variable {m n : Number} {ns : List Number}

theorem add_eq_int {k : Int} (sum : m.add n = .ok (.int k)) : (∃ i, m = .int i) ∧ ∃ j, n = .int j := by
  cases m with
  | int i =>
    cases n with
    | int j => exact ⟨⟨i, rfl⟩, j, rfl⟩
    | float y =>
      obtain ⟨_, _, sum⟩ := bind_eq_ok.mp sum
      obtain ⟨_, _, sum⟩ := bind_eq_ok.mp sum
      cases sum
  | float x =>
    obtain ⟨_, _, sum⟩ := bind_eq_ok.mp sum
    obtain ⟨_, _, sum⟩ := bind_eq_ok.mp sum
    cases sum

/-- What was once a float does not become an integer any more. -/
theorem exists_int_of_foldlM_add {k : Int} (sum : ns.foldlM add m = .ok (.int k)) :
    (∃ i, m = .int i) ∧ ∀ n ∈ ns, ∃ j, n = .int j := by
  induction ns generalizing m with
  | nil =>
    cases sum
    exact ⟨⟨k, rfl⟩, List.forall_mem_nil _⟩
  | cons n rest ih =>
    obtain ⟨next, first, later⟩ := bind_eq_ok.mp ((List.foldlM_cons ..).symm.trans sum)
    obtain ⟨⟨i, rfl⟩, others⟩ := ih later
    obtain ⟨start, one⟩ := add_eq_int first
    exact ⟨start, List.forall_mem_cons.mpr ⟨one, others⟩⟩

theorem toBinary64_fails {fault : Fault} (fails : m.toBinary64 = .error fault) :
    fault = .integerTooLarge ∧ ∃ i, m = .int i ∧ Binary64.ofInt? i = none := by
  cases m with
  | float x => cases fails
  | int i =>
    rw [toBinary64] at fails
    cases rounded : Binary64.ofInt? i with
    | none =>
      rw [rounded] at fails
      cases fails
      exact ⟨rfl, i, rfl, rounded⟩
    | some x =>
      rw [rounded] at fails
      cases fails

end Number

namespace Counter

/-- Of the amounts that were added to it, a counter has the sum, and of some that came first it has reported it. -/
structure Sums (c : Counter) (added : List Number) : Prop where
  total : added.foldlM Number.add (.int 0) = .ok c.total
  reported : ∃ sooner, sooner <+: added ∧ sooner.foldlM Number.add (.int 0) = .ok c.reported

/-- It has become a float, and the integer that was last reported of it is too large for one. -/
def Overflows (c : Counter) : Prop := ∃ x m, c.total = .float x ∧ c.reported = .int m ∧ Binary64.ofInt? m = none

variable {c : Counter} {added : List Number} {fault : Fault}

theorem Sums.fresh : fresh.Sums [] := ⟨rfl, [], List.prefix_refl _, rfl⟩

theorem Sums.add {more : List Number} {total : Number} (sums : c.Sums added)
    (sum : more.foldlM Number.add c.total = .ok total) : Sums { c with total := total } (added ++ more) := by
  obtain ⟨sooner, first, reported⟩ := sums.reported
  refine ⟨?_, sooner, first.trans (List.prefix_append _ _), reported⟩
  rw [List.foldlM_append, sums.total]
  exact sum

theorem Sums.settled (sums : c.Sums added) : c.settled.Sums added :=
  ⟨sums.total, added, List.prefix_refl _, sums.total⟩

theorem Sums.integers (sums : c.Sums added) (integers : ∀ n ∈ added, ∃ m, n = .int m) :
    ∃ m n, c = ⟨.int m, .int n⟩ := by
  obtain ⟨sooner, first, reported⟩ := sums.reported
  obtain ⟨all, same⟩ := Number.exists_ints integers
  obtain ⟨some, alike⟩ := Number.exists_ints fun n member => integers n (first.subset member)
  have total := sums.total
  rw [same, Number.foldlM_add_ints] at total
  rw [alike, Number.foldlM_add_ints] at reported
  obtain ⟨total', reported'⟩ := c
  cases total
  cases reported
  exact ⟨_, _, rfl⟩

theorem settled_delta (c : Counter) : ∃ n, c.settled.delta = .ok n := by
  obtain ⟨total, reported⟩ := c
  cases total <;> exact ⟨_, rfl⟩

/-- A delta fails only between a float and an integer that is too large. As floats do not become integers, it is the
integer that was reported. -/
theorem Sums.delta_fails (sums : c.Sums added) (fails : c.delta = .error fault) :
    fault = .integerTooLarge ∧ c.Overflows ∧ ∃ x, .float x ∈ added := by
  have float : ∃ x, .float x ∈ added := by
    by_contra none
    obtain ⟨m, n, rfl⟩ := sums.integers fun n member => by
      cases n with
      | int m => exact ⟨m, rfl⟩
      | float x => exact absurd ⟨x, member⟩ none
    cases fails
  obtain ⟨total, reported⟩ := c
  cases total with
  | int m =>
    obtain ⟨x, member⟩ := float
    cases (Number.exists_int_of_foldlM_add sums.total).2 _ member with | intro _ same => cases same
  | float x =>
    cases reported with
    | float y => cases fails
    | int n =>
      obtain unread | ⟨_, _, fails⟩ := bind_eq_error.mp fails
      · cases unread
      obtain unread | ⟨_, _, fails⟩ := bind_eq_error.mp fails
      · obtain ⟨large, _, same, unrounded⟩ := Number.toBinary64_fails unread
        cases same
        exact ⟨large, ⟨x, n, rfl, rfl, unrounded⟩, float⟩
      · cases fails

end Counter

namespace Tree

variable {t u : Tree} {h : Handle} {job : Job} {jobs : List Job} {fault : Fault}

/-- A metric that is there cannot be visited if it is a counter that has no delta, and otherwise can. -/
theorem visit_fails (there : t.Has job) (fails : t.visit job = .error fault) :
    ∃ h c, job = .counter h ∧ t.counter? h = some c ∧ c.delta = .error fault := by
  cases job with
  | gauge h =>
    obtain ⟨g, found⟩ := Option.isSome_iff_exists.mp there
    obtain ⟨s, atScope⟩ := Option.isSome_iff_exists.mp (scope?_isSome_of_gauge? found)
    cases (visit_gauge atScope found).symm.trans fails
  | counter h =>
    obtain ⟨c, found⟩ := Option.isSome_iff_exists.mp there
    obtain ⟨s, atScope⟩ := Option.isSome_iff_exists.mp (scope?_isSome_of_counter? found)
    refine ⟨h, c, rfl, found, ?_⟩
    cases unreported : c.delta with
    | ok delta => cases (visit_counter atScope found unreported).symm.trans fails
    | error other =>
      have consumed : t.consumeCounter h = .error other :=
        bind_eq_error.mpr (.inr ⟨c, readCounter_eq_ok.mpr found,
          bind_eq_error.mpr (.inl (bind_eq_error.mpr (.inl unreported)))⟩)
      have visit : t.visit (.counter h) = .error other :=
        bind_eq_error.mpr (.inr ⟨s, scope_eq_ok.mpr atScope, bind_eq_error.mpr (.inl consumed)⟩)
      cases visit.symm.trans fails
      rfl

/-- What cannot be collected is the delta of a counter that was without one from the beginning: a visit leaves its own
counter with a delta, and all others as they are. -/
theorem collect_fails (there : ∀ job ∈ jobs, t.Has job) (fails : t.collect jobs = .error fault) :
    ∃ h c, t.counter? h = some c ∧ c.delta = .error fault := by
  induction jobs generalizing t with
  | nil => cases fails
  | cons job rest ih =>
    obtain ⟨first, others⟩ := List.forall_mem_cons.mp there
    obtain failed | ⟨⟨found, after⟩, run, later⟩ := bind_eq_error.mp fails
    · obtain ⟨h, c, _, known, delta⟩ := visit_fails first failed
      exact ⟨h, c, known, delta⟩
    · obtain ⟨_, _, rfl⟩ := visit_eq_ok run
      obtain later | ⟨_, _, later⟩ := bind_eq_error.mp later
      · obtain ⟨h, c, known, delta⟩ := ih (fun job member => (others job member).extends settle_extends) later
        rw [counter?_settle] at known
        split at known
        · obtain ⟨old, _, rfl⟩ := Option.map_eq_some_iff.mp known
          obtain ⟨n, settled⟩ := old.settled_delta
          cases settled.symm.trans delta
        · exact ⟨h, c, known, delta⟩
      · cases later

theorem beginPass_fails (fails : t.beginPass.1 = .error fault) :
    ∃ h c, t.counter? h = some c ∧ c.delta = .error fault := by
  have all := t.collect_of_enter .empty t.identities
  rw [show (t.enter .empty t.identities).1 = _ from fails] at all
  exact collect_fails (fun _ => has_of_mem_jobs) all

theorem continuePass_fails {p : Pass} (there : ∀ job ∈ p.jobs t, t.Has job)
    (fails : (t.continuePass p).1 = .error fault) : ∃ h c, t.counter? h = some c ∧ c.delta = .error fault := by
  have all := t.collect_of_continuePass p
  rw [fails] at all
  exact collect_fails there all

theorem mem_amounts {n : Number} {past : List Course.Event} : n ∈ Course.amounts h past ↔ .added h n ∈ past := by
  simp only [Course.amounts, List.mem_filterMap]
  constructor
  · rintro ⟨e, member, found⟩
    cases e with
    | added k m =>
      simp only at found
      split at found
      · next same =>
        cases found
        exact same ▸ member
      · cases found
    | _ => cases found
  · intro member
    exact ⟨_, member, if_pos rfl⟩

/-- Every counter of the tree has the sum of what was added to it. -/
def Sums (t : Tree) (past : List Course.Event) : Prop := ∀ h, (t.counterAt h).Sums (Course.amounts h past)

variable {past events : List Course.Event} {found : Option (Text × Observation)}

theorem Sums.change (sums : t.Sums past) (change : t.Change events u) : u.Sums (past ++ events) := by
  intro h
  have before := sums h
  have written := change.written (.counter h)
  rw [cellAt] at written
  generalize same : u.cellAt (.counter h) = after at written
  cases written with
  | counter sum =>
    rw [Course.amounts_append, Cell.counter.inj same]
    exact before.add sum

theorem Sums.visit (sums : t.Sums past) (visit : t.Visit found u) : u.Sums past := by
  obtain ⟨job, there, _, rfl⟩ := visit.exists_job
  intro h
  have cell : (t.settle job).cellAt (.counter h) = _ := cellAt_settle there
  split at cell
  · next same =>
    subst same
    rw [Cell.counter.inj cell]
    exact (sums h).settled
  · rw [Cell.counter.inj cell]
    exact sums h

theorem Sums.integral (sums : t.Sums past) (integers : ∀ h n, .added h n ∈ past → ∃ m, n = .int m) : t.Integral := by
  intro h c found
  have account := sums h
  rw [counterAt_of_counter? found] at account
  exact account.integers fun n member => integers h n (mem_amounts.mp member)

end Tree

namespace Loop

variable {l : Loop} {fault : Fault}

theorem pass_fails {duty : Duty} {tally : Summary} {found : Except Fault (Option (Observation × Pass)) × Tree}
    (fails : (l.pass duty tally found).next = .ends (.error fault)) : found.1 = .error fault := by
  rcases found with ⟨other | _ | ⟨o, p⟩, tree⟩
  · cases fails
    rfl
  · cases fails
  · cases fails

theorem follow_fails {plan : Plan} (fails : (l.follow plan).next = .ends (.error fault)) :
    ∃ h c, l.tree.counter? h = some c ∧ c.delta = .error fault := by
  cases plan with
  | pass duty => exact Tree.beginPass_fails (pass_fails fails)
  | answer answer => cases fails
  | leave last answer =>
    simp only [follow, leave] at fails
    split at fails <;> cases fails

theorem close_fails (fails : l.close.next = .ends (.error fault)) :
    ∃ h c, l.tree.counter? h = some c ∧ c.delta = .error fault := by
  unfold close at fails
  split at fails
  · exact follow_fails fails
  · exact follow_fails (l := { l with phase := .closing }) fails

/-- What a call leads to fails because the call is broken off, because the reporter fails to close, or for want of a
delta. -/
theorem resume_fails {a : Activity} {o : Outcome} (there : ∀ job ∈ a.left l.tree, l.tree.Has job)
    (fails : (l.resume a o).next = .ends (.error fault)) :
    (∃ message, o = .aborted message ∧ fault = .aborted message) ∨
      (∃ failure, o = .failed failure ∧ fault = .closeFailed) ∨
      ∃ h c, l.tree.counter? h = some c ∧ c.delta = .error fault := by
  cases o with
  | aborted message =>
    refine .inl ⟨message, rfl, ?_⟩
    cases a <;> cases fails <;> rfl
  | returned =>
    refine .inr (.inr ?_)
    cases a with
    | observing duty p seen =>
      exact Tree.continuePass_fails (p := { p with tally := tallied p.tally seen .returned }) there (pass_fails fails)
    | flushing duty tally => exact follow_fails (l := { l with passes := l.passes + 1, busy := false }) fails
    | leaving answer => cases fails
  | failed failure =>
    refine .inr ?_
    cases a with
    | observing duty p seen =>
      exact .inr (Tree.continuePass_fails (p := { p with tally := tallied p.tally seen (.failed failure) }) there
        (pass_fails fails))
    | flushing duty tally =>
      exact .inr (follow_fails (l := { l with passes := l.passes + 1, busy := false }) fails)
    | leaving answer =>
      cases fails
      exact .inl ⟨failure, rfl, rfl⟩

end Loop

namespace Course

variable {c : Course} {o : Options} {interval : Interval} {opening : Opening} {steps : List Step}

/-- An error that a move answers with is the one that it ends with. -/
theorem next_of_answered {plan : Option Plan} {m : Move} {fault : Fault}
    (member : .answered (.error fault) ∈ own plan m) : m.next = .ends (.error fault) := by
  have untold : .answered (.error fault) ∉ m.notices.map Event.told := by simp
  have unplanned : .answered (.error fault) ∉ (plan.map Plan.events).getD [] := by
    rcases plan with _ | _ | _ | _ <;> simp [Plan.events]
  simp only [own, List.mem_append, untold, unplanned, false_or] at member
  unfold Move.ending at member
  rcases next : m.next with a | other | answer <;> rw [next] at member
  · cases List.mem_singleton.mp member
  · have last : .answered (.error fault) ∈ [Event.cut other, .answered (.error other)] := by
      simp only at member
      split at member
      · exact List.mem_cons_of_mem _ member
      · exact member
    rcases List.mem_pair.mp last with cut | same
    · cases cut
    · cases same
      rfl
  · cases List.mem_singleton.mp member

theorem sums_run (opened : Opening.ofOptions o interval = .ok opening) (steps : List Step) :
    let c := (Course.opened opening).run steps
    c.loop.tree.Sums c.past := by
  refine run_induction (P := fun c => c.loop.tree.Sums c.past) (fun h => ?_) fun c step _ before => ?_
  · have absent : (Course.opened opening).loop.tree.counter? h = none := Opening.counter?_eq_none opened h
    have noWrite : ∀ e ∈ (Course.opened opening).past, e.isWrite = false := fun e => noWrite_told
    rw [Tree.counterAt, absent, amounts_of_noWrite noWrite]
    exact .fresh
  · obtain ⟨events, past, effect⟩ := c.take_effect step
    rw [past]
    cases effect with
    | granted _ run => exact before.change (Request.perform_change run)
    | sweep sweep _ noWrite =>
      intro h
      rw [amounts_append, amounts_of_noWrite noWrite, List.append_nil]
      exact sweep.preserves (P := fun u => u.Sums c.past) (fun visit sums => sums.visit visit) before h

theorem integers_run (opening : Opening) (integral : ∀ step ∈ steps, step.isIntegral) :
    ∀ h n, .added h n ∈ ((Course.opened opening).run steps).past → ∃ m, n = .int m := by
  refine run_induction (P := fun c => ∀ h n, .added h n ∈ c.past → ∃ m, n = .int m) ?_ ?_
  · intro h n member
    cases noWrite_told member
  · intro c step member before h n added
    obtain ⟨events, past, effect⟩ := c.take_effect step
    rw [past, List.mem_append] at added
    rcases added with old | new
    · exact before h n old
    · cases effect with
      | granted asked run =>
        subst asked
        exact Request.perform_integers run (integral _ member) h n new
      | sweep _ _ noWrite => cases noWrite _ new

/-- All that the pass that waits for a call has still to visit is there. -/
theorem left_there (opened : Opening.ofOptions o interval = .ok opening) (same : c = (Course.opened opening).run steps)
    {a : Activity} {outer : List Activity} (waits : c.waiting = a :: outer) :
    ∀ job ∈ a.left c.loop.tree, c.loop.tree.Has job := by
  cases serves : a.duty? with
  | none =>
    cases a with
    | observing | flushing => cases serves
    | leaving => exact fun _ member => by cases member
  | some duty =>
    obtain ⟨s, here, _⟩ := placed_run opened steps
    rw [← same] at here
    have one : c.waiting = [a] := by
      cases here with
      | passing one => rw [waits, ← (List.cons.inj (one.symm.trans waits)).2]
      | ready none | stuck none => cases none.symm.trans waits
      | finished parting =>
        cases (parting a (waits ▸ List.mem_cons_self ..)).symm.trans serves
    obtain ⟨_, _, _, _, _, been, _, _, _, inPass, _⟩ := exists_inPass opened same one serves
    exact fun job member => inPass.toured.there job (List.mem_append_right been member)

/-- What a step fails with, unless it comes from the reporter, comes from a counter without a delta. -/
theorem take_fails (opened : Opening.ofOptions o interval = .ok opening) (same : c = (Course.opened opening).run steps)
    (step : Step) : ∃ events, (c.take step).past = c.past ++ events ∧ ∀ fault, .answered (.error fault) ∈ events →
      (∃ message, step = .outcome (.aborted message) ∧ fault = .aborted message) ∨
        (∃ failure, step = .outcome (.failed failure) ∧ fault = .closeFailed) ∨
        ∃ h k, c.loop.tree.counter? h = some k ∧ k.delta = .error fault := by
  have moves : ∀ {plan : Option Plan} {m : Move} {before : List Event} {fault : Fault},
      (∀ e ∈ before, e.isOwn = false) → .answered (.error fault) ∈ before ++ own plan m →
        m.next = .ends (.error fault) :=
    fun foreign member => next_of_answered
      ((List.mem_append.mp member).resolve_left fun early => by cases foreign _ early)
  cases step with
  | request r =>
    cases run : r.perform c.loop.tree with
    | error other =>
      exact ⟨[], by simp only [take, run, List.append_nil], fun _ member => by cases member⟩
    | ok done =>
      obtain ⟨granted, after⟩ := done
      refine ⟨granted, by simp only [take, run], fun fault member => ?_⟩
      cases r.perform_change run with
      | none | scope | counter | gauge => cases member
      | added | updated => cases List.mem_singleton.mp member
  | start => exact ⟨_, rfl, fun fault member => by simp at member⟩
  | report =>
    refine ⟨_, c.past_move _ _ _, fun fault member => .inr (.inr ?_)⟩
    exact Loop.follow_fails (moves (List.forall_mem_nil _) member)
  | close =>
    refine ⟨_, c.past_move _ _ _, fun fault member => .inr (.inr ?_)⟩
    refine Loop.close_fails (moves (fun e member => ?_) member)
    split at member
    · cases member
    · rw [List.mem_singleton.mp member]
      rfl
  | outcome o =>
    cases waits : c.waiting with
    | nil => exact ⟨[], by simp only [take, waits, List.append_nil], fun _ member => by cases member⟩
    | cons a outer =>
      refine ⟨[.came a o] ++ own (a.plan? c.loop o) (c.loop.resume a o), ?_, fun fault member => ?_⟩
      · simp only [take, waits]
        exact past_move _ _ _ _
      · have next := moves (List.forall_mem_singleton.mpr rfl) member
        rcases Loop.resume_fails (left_there opened same waits) next with
          ⟨message, rfl, broken⟩ | ⟨failure, rfl, unclosed⟩ | delta
        · exact .inl ⟨message, rfl, broken⟩
        · exact .inr (.inl ⟨failure, rfl, unclosed⟩)
        · exact .inr (.inr delta)

/-- A snapshot succeeds exactly if the deltas under each identity add up to integers, and always if nothing but integers
was added; what was written to gauges never stands against it. A pass or a close fails because the reporter breaks off a
call or fails to close, and by itself only if a counter that was given a float has no delta. -/
theorem failure_causes (opened : Opening.ofOptions o interval = .ok opening) :
    let c := (Course.opened opening).run steps
    ((∃ s, c.loop.tree.snapshot = .ok s) ↔
      ∀ key, ∃ shown, (c.loop.tree.deltas.filter (·.key = key)).foldlM Snapshot.addTo none = .ok shown) ∧
    ((∀ h n, .added h n ∈ c.past → ∃ m, n = .int m) → ∃ s, c.loop.tree.snapshot = .ok s) ∧
    ∀ step, ∃ events, (c.take step).past = c.past ++ events ∧ ∀ fault, .answered (.error fault) ∈ events →
      (∃ message, step = .outcome (.aborted message) ∧ fault = .aborted message) ∨
      (∃ failure, step = .outcome (.failed failure) ∧ fault = .closeFailed) ∨
      fault = .integerTooLarge ∧
        ∃ h k x, c.loop.tree.counter? h = some k ∧ k.Overflows ∧ .added h (.float x) ∈ c.past := by
  intro c
  have sums : c.loop.tree.Sums c.past := sums_run opened steps
  refine ⟨Tree.snapshot_succeeds_iff, fun integers => ?_, fun step => ?_⟩
  · obtain ⟨gauges, shown⟩ := Tree.snapshot_eq (sums.integral integers) (distinct_run opened steps)
    exact ⟨_, shown⟩
  · obtain ⟨events, past, fails⟩ := take_fails opened (show c = _ from rfl) step
    refine ⟨events, past, fun fault member => ?_⟩
    rcases fails fault member with broken | unclosed | ⟨h, k, found, delta⟩
    · exact .inl broken
    · exact .inr (.inl unclosed)
    · have account := sums h
      rw [Tree.counterAt_of_counter? found] at account
      obtain ⟨large, overflows, x, added⟩ := account.delta_fails delta
      exact .inr (.inr ⟨large, h, k, x, found, overflows, Tree.mem_amounts.mp added⟩)

/-- Infinities and undefined values in gauges, and integers of any size, do no harm. -/
theorem failure_causes_extreme :
    ∃ opening, Opening.ofOptions { Options.standard with reporter := some ⟨"Recorder", true, true⟩ }
        (.value .null) = .ok opening ∧
      let steps : List Step := [.request (.gauge "" (.text "g")), .request (.update ⟨"", "g"⟩ (.text "-inf")),
        .request (.update ⟨"", "g"⟩ (.float .nan)), .request (.counter "" (.text "a")),
        .request (.inc ⟨"", "a"⟩ (.int (Nat.pow 10 200 * Nat.pow 10 200))), .request (.inc ⟨"", "a"⟩ (.bool true)),
        .request (.inc ⟨"", "a"⟩ (.text "1")), .report]
      let c := (Course.opened opening).run steps
      (writes ⟨"", "g"⟩ c.past).length = 2 ∧ (amounts ⟨"", "a"⟩ c.past).length = 2 ∧
        (∃ s, c.loop.tree.snapshot = .ok s) ∧
        ∀ step, ∃ events, (c.take step).past = c.past ++ events ∧ ∀ fault, .answered (.error fault) ∈ events →
          ∃ outcome, step = .outcome outcome := by
  have opened : Opening.ofOptions { Options.standard with reporter := some ⟨"Recorder", true, true⟩ }
    (.value .null) = .ok _ := rfl
  refine ⟨_, opened, ?_⟩
  intro steps c
  have integers : ∀ h n, .added h n ∈ c.past → ∃ m, n = .int m := integers_run _ (by decide)
  obtain ⟨_, shown, fails⟩ := failure_causes opened
  refine ⟨by decide +kernel, by decide +kernel, shown integers, fun step => ?_⟩
  obtain ⟨events, past, causes⟩ := fails step
  refine ⟨events, past, fun fault member => ?_⟩
  rcases causes fault member with ⟨_, same, _⟩ | ⟨_, same, _⟩ | ⟨_, h, _, x, _, _, added⟩
  · exact ⟨_, same⟩
  · exact ⟨_, same⟩
  · obtain ⟨_, same⟩ := integers h _ added
    cases same

/-- Is it the answer that an integer was too large? -/
def Event.isOverflow : Event → Bool
  | .answered (.error .integerTooLarge) => true
  | _ => false

theorem Event.eq_of_isOverflow {e : Event} (overflow : e.isOverflow = true) :
    e = .answered (.error .integerTooLarge) := by
  unfold isOverflow at overflow
  split at overflow
  · rfl
  · cases overflow

/-- A float that is added to a counter after an integer that is too large for one leaves the tree without a snapshot and
fails the next pass. -/
theorem failure_causes_overflow :
    ∃ opening, Opening.ofOptions { Options.standard with reporter := some ⟨"Recorder", true, true⟩ }
        (.value .null) = .ok opening ∧
      let half := Binary64.signed false (.ofRank (1022 * Nat.pow 2 52))
      let large : Int := Nat.pow 10 200 * Nat.pow 10 200
      let c := (Course.opened opening).run
        [.request (.counter "" (.text "a")), .request (.inc ⟨"", "a"⟩ (.int large)), .report, .outcome .returned,
          .outcome .returned, .request (.inc ⟨"", "a"⟩ (.int (-large))), .request (.inc ⟨"", "a"⟩ (.float half))]
      amounts ⟨"", "a"⟩ c.past = [.int large, .int (-large), .float half] ∧ (¬∃ s, c.loop.tree.snapshot = .ok s) ∧
        .answered (.error .integerTooLarge) ∈ (c.take .report).past := by
  have opened : Opening.ofOptions { Options.standard with reporter := some ⟨"Recorder", true, true⟩ }
    (.value .null) = .ok _ := rfl
  refine ⟨_, opened, ?_⟩
  intro half large c
  have unshown : c.loop.tree.snapshot.isOk = false := by decide +kernel
  have failed : (c.take .report).past.any Event.isOverflow = true := by decide +kernel
  refine ⟨by decide +kernel, ?_, ?_⟩
  · rintro ⟨s, shown⟩
    rw [shown] at unshown
    cases unshown
  · obtain ⟨e, member, overflow⟩ := List.any_eq_true.mp failed
    rwa [Event.eq_of_isOverflow overflow] at member

end Course

end MetricTree
