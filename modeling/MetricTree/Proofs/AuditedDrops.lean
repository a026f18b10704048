import MetricTree.Proofs.CallOutcomes
import MetricTree.Proofs.Cells
import MetricTree.Proofs.ProperRuns

namespace MetricTree

namespace Tree

/-- What a sweep finds is told of a metric of the tree. -/
theorem Sweep.found_isOf {t u : Tree} {seen : Text × Observation} (sweep : t.Sweep (some seen) u) :
    ∃ job, u.Has job ∧ u.isOf job seen = true := by
  generalize same : some seen = found at sweep
  induction sweep with
  | stop => cases same
  | pass _ _ ih => exact ih same
  | @find t u found visit =>
    cases same
    obtain ⟨job, there, found, rfl⟩ := visit.exists_job
    obtain ⟨o, due, rfl⟩ := Option.map_eq_some_iff.mp found.symm
    refine ⟨job, there.extends settle_extends, ?_⟩
    rw [isOf_congr fun _ => fullName?_settle]
    exact isOf_due there due

theorem isOf_extends {t u : Tree} {job : Job} {seen : Text × Observation} (extended : u.Extends t) (there : t.Has job)
    (isOf : t.isOf job seen = true) : u.Has job ∧ u.isOf job seen = true := by
  obtain ⟨s, atScope⟩ := exists_scope?_of_has there
  refine ⟨there.extends extended, ?_⟩
  rw [isOf_of_extends extended, isOf]
  rw [(isOf_iff.mp isOf).1, atScope]
  rfl

/-- The identity of a scope and a full name tell which metric of its kind it is. -/
theorem Proper.named {t : Tree} {job : Job} {scope : Text} {o : Observation} (proper : t.Proper) (there : t.Has job)
    (isOf : t.isOf job (scope, o) = true) : o.isCounter = job.isCounter ∧ ∃ s, t.scope? scope = some s ∧
      s.identity = scope ∧ job.handle.scope = scope ∧ o.name = s.qualify t.separator job.handle.name ∧
      ∀ k : Handle, k.scope = scope → t.fullName? k = some o.name → k = job.handle := by
  obtain ⟨s, atScope⟩ := exists_scope?_of_has there
  obtain ⟨rfl, named, kind⟩ := isOf_iff.mp isOf
  rw [fullName?, Job.handle_scope, atScope, Option.map_some, Option.some.injEq] at named
  refine ⟨kind, s, atScope, (proper.identity atScope).symm, Job.handle_scope, named.symm, fun k inScope same => ?_⟩
  rw [fullName?, inScope, atScope, Option.map_some, Option.some.injEq, ← named] at same
  exact Handle.eq_of_parts (inScope.trans Job.handle_scope.symm) (Scope.qualify_injective same)

end Tree

namespace Course

/-- The lines that a course leaves in a log. Each notice is told at a moment of its own. -/
def lines (config : Log.Config) (clock : Nat → Log.Origin) (past : List Event) : List Json :=
  past.zipIdx.flatMap fun x => x.1.notice?.elim [] fun n => config.tell (clock x.2) [n]

/-- What the reporter was told of in a call that returned. -/
def Event.taken? : Event → Option (Text × Observation)
  | .came a .returned => a.observed?
  | _ => none

/-- The sum of the deltas that the reporter took for a counter. -/
def takenFor (t : Tree) (h : Handle) (past : List Event) : Int :=
  ((past.filterMap Event.taken?).map (t.share h)).sum

/-- The sum of the deltas that were dropped under the name of a counter in its scope. -/
def droppedFor (t : Tree) (h : Handle) (drops : List Drop) : Int :=
  (drops.map fun
    | .counter scope metric (.int delta) => if scope = h.scope ∧ t.fullName? h = some metric then delta else 0
    | _ => 0).sum

variable {c : Course} {t : Tree} {h : Handle} {config : Log.Config} {clock : Nat → Log.Origin}

/-- Read back, the lines of a course tell what the log was told that was dropped and can be told in a line. -/
theorem drop?_lines (warns : config.Warns) (timed : ∀ i, ∃ time, (clock i).Timed time) (past : List Event) :
    (lines config clock past).filterMap Json.drop? = (dropsTold past).filter Drop.isBrief ∧
      ∀ line ∈ lines config clock past, line.warnsOfDrop = line.drop?.isSome := by
  constructor
  · have read : ∀ x : Event × Nat, (x.1.notice?.elim [] fun n => config.tell (clock x.2) [n]).filterMap Json.drop? =
        (x.1.notice?.bind Notice.drop?).toList.filter Drop.isBrief := by
      rintro ⟨e, i⟩
      obtain ⟨time, timed⟩ := timed i
      cases e.notice? with
      | none => rfl
      | some n => exact (Log.drops_tell warns timed n).1
    calc (lines config clock past).filterMap Json.drop?
      _ = past.zipIdx.flatMap fun x => (x.1.notice?.bind Notice.drop?).toList.filter Drop.isBrief := by
        rw [lines, List.filterMap_flatMap]
        exact List.flatMap_congr fun x _ => read x
      _ = ((past.zipIdx.map Prod.fst).flatMap fun e => (e.notice?.bind Notice.drop?).toList).filter Drop.isBrief := by
        rw [List.flatMap_map, List.filter_flatMap]
      _ = (dropsTold past).filter Drop.isBrief := by
        rw [List.zipIdx_map_fst, dropsTold, List.filterMap_filterMap, List.filterMap_eq_flatMap_toList]
  · intro line member
    obtain ⟨x, _, here⟩ := List.mem_flatMap.mp member
    obtain ⟨time, timed⟩ := timed x.2
    cases notice : x.1.notice? with
    | none =>
      rw [notice] at here
      cases here
    | some n =>
      rw [notice] at here
      exact (Log.drops_tell warns timed n).2 line here

theorem droppedFor_append (drops more : List Drop) :
    droppedFor t h (drops ++ more) = droppedFor t h drops + droppedFor t h more := by
  rw [droppedFor, List.map_append, List.sum_append]
  rfl

/-- The drops of two kinds are all drops. -/
theorem droppedFor_filter (p : Drop → Bool) (drops : List Drop) :
    droppedFor t h drops = droppedFor t h (drops.filter p) + droppedFor t h (drops.filter fun drop => !p drop) := by
  induction drops with
  | nil => rfl
  | cons drop rest ih =>
    rw [← List.singleton_append, droppedFor_append, ih, List.filter_append, List.filter_append, droppedFor_append,
      droppedFor_append]
    cases told : p drop with
    | true =>
      have first : [drop].filter p = [drop] ∧ [drop].filter (fun drop => !p drop) = [] := by simp [told]
      rw [first.1, first.2, show droppedFor t h [] = 0 from rfl]
      omega
    | false =>
      have first : [drop].filter p = [] ∧ [drop].filter (fun drop => !p drop) = [drop] := by simp [told]
      rw [first.1, first.2, show droppedFor t h [] = 0 from rfl]
      omega

theorem takenFor_append (past events : List Event) :
    takenFor t h (past ++ events) = takenFor t h past + takenFor t h events := by
  rw [takenFor, List.filterMap_append, List.map_append, List.sum_append]
  rfl

/-- A call that comes out without an interruption was taken, or what it told is dropped. -/
theorem share_of_outcomes {events : List Event} (calm : ∀ a message, .came a (.aborted message) ∉ events) :
    (((outcomes events).filterMap (·.1.observed?)).map (t.share h)).sum =
      takenFor t h events + droppedFor t h (events.filterMap Event.dropped?) := by
  induction events with
  | nil => rfl
  | cons e rest ih =>
    have later := ih fun a message member => calm a message (List.mem_cons_of_mem _ member)
    have first : (((outcomes [e]).filterMap (·.1.observed?)).map (t.share h)).sum =
        takenFor t h [e] + droppedFor t h ([e].filterMap Event.dropped?) := by
      cases e with
      | came a o =>
        cases o with
        | aborted message => exact absurd (List.mem_cons_self ..) (calm a message)
        | returned =>
          cases a with
          | observing duty p seen => cases seen <;> exact (Int.add_zero _).symm
          | flushing | leaving => rfl
        | failed failure =>
          cases a with
          | observing duty p seen =>
            cases seen with
            | counter name tags delta => cases delta <;> exact (Int.zero_add _).symm
            | gauge => rfl
          | flushing | leaving => rfl
      | _ => rfl
    rw [← List.singleton_append, outcomes_append, List.filterMap_append, List.map_append, List.sum_append, first, later,
      takenFor_append, List.filterMap_append, droppedFor_append]
    omega

theorem filterMap_observed? (events : List Event) :
    events.filterMap Event.observed? = (made events).filterMap Activity.observed? := by
  rw [made, List.filterMap_filterMap]
  refine List.filterMap_congr fun e _ => ?_
  cases e <;> rfl

/-- What the reporter was handed for a counter it took or dropped, between its calls and without interruptions. -/
theorem handedFor_eq_add (matched : c.Matched) (parting : ∀ a ∈ c.waiting, a.duty? = none)
    (calm : ∀ a message, .came a (.aborted message) ∉ c.past) :
    handedFor t h c.past = takenFor t h c.past + droppedFor t h (c.past.filterMap Event.dropped?) := by
  have idle : c.waiting.filterMap Activity.observed? = [] := by
    refine List.filterMap_eq_nil_iff.mpr fun a member => ?_
    cases a with
    | leaving => rfl
    | observing | flushing => cases parting _ member
  rw [← share_of_outcomes calm, handedFor, filterMap_observed?, matched.calls, List.filterMap_append, idle,
    List.append_nil, List.filterMap_map]
  rfl

/-- The reporter was told of nothing but metrics of the tree. -/
theorem told_isOf (o : Opening) (steps : List Step) :
    let c := (Course.opened o).run steps
    ∀ seen ∈ c.past.filterMap Event.observed?, ∃ job, c.loop.tree.Has job ∧ c.loop.tree.isOf job seen = true := by
  refine run_induction (P := fun c => ∀ seen ∈ c.past.filterMap Event.observed?,
    ∃ job, c.loop.tree.Has job ∧ c.loop.tree.isOf job seen = true) ?_ ?_
  · rw [show (Course.opened o).past.filterMap Event.observed? = [] from filterMap_told _]
    exact List.forall_mem_nil _
  · intro c step _ before seen member
    obtain ⟨events, past, effect⟩ := c.take_effect step
    rw [past, List.filterMap_append, List.mem_append] at member
    cases effect with
    | granted asked run =>
      have change := Request.perform_change run
      rw [filterMap_granted change] at member
      obtain ⟨job, there, isOf⟩ := before seen (member.resolve_right List.not_mem_nil)
      exact ⟨job, Tree.isOf_extends change.extends there isOf⟩
    | sweep sweep calls _ =>
      rw [calls, Option.mem_toList] at member
      rcases member with old | rfl
      · obtain ⟨job, there, isOf⟩ := before seen old
        exact ⟨job, Tree.isOf_extends sweep.extends there isOf⟩
      · exact sweep.found_isOf

/-- A call that failed had told of a metric of the tree, of the kind and under the name that are dropped. -/
theorem Matched.exists_job (matched : c.Matched)
    (told : ∀ seen ∈ c.past.filterMap Event.observed?,
      ∃ job, c.loop.tree.Has job ∧ c.loop.tree.isOf job seen = true)
    (drop : Drop) (member : drop ∈ c.past.filterMap Event.dropped?) (metric : ∀ tally, drop ≠ .ofTally tally) :
    ∃ scope o job, drop = .ofObservation scope o ∧ c.loop.tree.Has job ∧ c.loop.tree.isOf job (scope, o) = true := by
  obtain ⟨e, happened, dropped⟩ := List.mem_filterMap.mp member
  have observed : ∀ {duty p seen failure}, e = .came (.observing duty p seen) (.failed failure) →
      (p.cursor.scope, seen) ∈ c.past.filterMap Event.observed? := by
    rintro duty p seen failure rfl
    rw [filterMap_observed?, matched.calls]
    refine List.mem_filterMap.mpr ⟨.observing duty p seen, List.mem_append_left _ ?_, rfl⟩
    exact List.mem_map.mpr ⟨_, List.mem_filterMap.mpr ⟨_, happened, rfl⟩, rfl⟩
  cases e with
  | came a out =>
    cases a with
    | observing duty p seen =>
      cases out with
      | failed failure =>
        obtain ⟨job, there, isOf⟩ := told _ (observed rfl)
        exact ⟨_, seen, job, (Option.some.inj dropped).symm, there, isOf⟩
      | returned | aborted => cases dropped
    | flushing =>
      cases out with
      | failed failure => exact absurd (Option.some.inj dropped).symm (metric _)
      | returned | aborted => cases dropped
    | leaving => cases dropped
  | _ => cases dropped

/-- Between the passes of a run without interruptions, the reporter took or dropped what was added to a counter, but for
the delta that it has. -/
theorem added_of_rest {o : Options} {interval : Interval} {opening : Opening} {steps : List Step} {h : Handle}
    {cell : Counter} (opened : Opening.ofOptions o interval = .ok opening) :
    let c := (Course.opened opening).run steps
    let t := c.loop.tree
    (∀ step ∈ steps, step.isIntegral) → (∀ message, .outcome (.aborted message) ∉ steps) → c.loop.busy = false →
      t.readCounter h = .ok cell → ∃ delta, cell.delta = .ok (.int delta) ∧
        addedTo h c.past = takenFor t h c.past + droppedFor t h (c.past.filterMap Event.dropped?) + delta := by
  intro c t integral calm rest found
  have balanced : c.Balanced := run_induction (.opened opened)
    fun c step member before => before.take (integral step member)
  have parting : ∀ a ∈ c.waiting, a.duty? = none := by
    obtain ⟨s, here, _⟩ := placed_run opened steps
    cases here with
    | ready none | stuck none => exact none ▸ List.forall_mem_nil _
    | passing _ _ busy => cases rest.symm.trans busy
    | finished parting => exact parting
  have uninterrupted : ∀ a message, .came a (.aborted message) ∉ c.past :=
    fun a message came => calm message ((faultless_run opened integral).came a _ came)
  have handed : handedFor t h c.past = takenFor t h c.past + droppedFor t h (c.past.filterMap Event.dropped?) :=
    handedFor_eq_add (matched_run opened steps) parting uninterrupted
  rw [Tree.readCounter_eq_ok] at found
  obtain ⟨m, n, rfl⟩ := balanced.integral h cell found
  refine ⟨m - n, rfl, ?_⟩
  rw [balanced.balance, handed, Tree.unreported_of_counter? found]

/-- Every drop whose numbers can be written is told in a log that writes warnings: the lines that warn of drops are those
of the reporter's calls that failed, one for one and in the order in which they failed, with what the call was handed,
but for the calls that were handed an integer of more digits than are written. The scope and the full name in a line
tell which metric it is. Of all that was added to a counter, the reporter took a part in calls that returned, the lines
of the counter tell of another part, the drops without a line are a third, and the rest is still to be reported. -/
theorem drops_audited {o : Options} {interval : Interval} {opening : Opening} {steps : List Step}
    (opened : Opening.ofOptions o interval = .ok opening) (distinct : o.tags.keys.Nodup) (warns : config.Warns)
    (timed : ∀ i, ∃ time, (clock i).Timed time) :
    let c := (Course.opened opening).run steps
    let t := c.loop.tree
    let log := lines config clock c.past
    let drops := c.past.filterMap Event.dropped?
    log.filterMap Json.drop? = drops.filter Drop.isBrief ∧
    (∀ line ∈ log, line.warnsOfDrop = line.drop?.isSome) ∧
    made c.past = (outcomes c.past).map (·.1) ++ c.waiting ∧
    (∀ scope metric delta, .counter scope metric delta ∈ drops → ∃ h s, (t.counter? h).isSome ∧
      t.scope? scope = some s ∧ s.identity = scope ∧ h.scope = scope ∧ metric = s.qualify t.separator h.name ∧
      ∀ k : Handle, k.scope = scope → t.fullName? k = some metric → k = h) ∧
    (∀ scope metric value, .gauge scope metric value ∈ drops → ∃ h s, (t.gauge? h).isSome ∧
      t.scope? scope = some s ∧ s.identity = scope ∧ h.scope = scope ∧ metric = s.qualify t.separator h.name ∧
      ∀ k : Handle, k.scope = scope → t.fullName? k = some metric → k = h) ∧
    ((∀ step ∈ steps, step.isIntegral) → (∀ message, .outcome (.aborted message) ∉ steps) → c.loop.busy = false →
      ∀ h cell, t.readCounter h = .ok cell → ∃ delta, cell.delta = .ok (.int delta) ∧
        addedTo h c.past = takenFor t h c.past + droppedFor t h (log.filterMap Json.drop?) +
          droppedFor t h (drops.filter fun drop => !drop.isBrief) + delta) := by
  intro c t log drops
  obtain ⟨read, warned⟩ := drop?_lines warns timed c.past
  have told : log.filterMap Json.drop? = drops.filter Drop.isBrief := by
    rw [read, drops_run opened steps]
  have matched : c.Matched := matched_run opened steps
  have proper : t.Proper := proper_run (Opening.proper opened distinct) steps
  have named := matched.exists_job (told_isOf opening steps)
  refine ⟨told, warned, matched.calls, fun scope metric delta member => ?_, fun scope metric value member => ?_,
    fun integral calm rest h cell found => ?_⟩
  · obtain ⟨_, seen, job, same, there, isOf⟩ := named (.counter scope metric delta) member nofun
    obtain ⟨kind, s, cell⟩ := proper.named there isOf
    cases seen with
    | gauge => cases same
    | counter =>
      cases same
      cases job with
      | gauge => cases kind
      | counter h => exact ⟨h, s, there, cell⟩
  · obtain ⟨_, seen, job, same, there, isOf⟩ := named (.gauge scope metric value) member nofun
    obtain ⟨kind, s, cell⟩ := proper.named there isOf
    cases seen with
    | counter => cases same
    | gauge =>
      cases same
      cases job with
      | counter => cases kind
      | gauge h => exact ⟨h, s, there, cell⟩
  · obtain ⟨delta, unreported, total⟩ := added_of_rest opened integral calm rest found
    refine ⟨delta, unreported, ?_⟩
    rw [total, droppedFor_filter Drop.isBrief, ← told]
    exact congrArg (· + delta) (add_assoc ..).symm

/-- A reporter that fails at every call, and adds to the counter that it is told of: more digits than are written. -/
theorem drops_audited_failing :
    ∃ opening, Opening.ofOptions { Options.standard with reporter := some ⟨"Recorder", true, true⟩ }
        (.value .null) = .ok opening ∧
      let config : Log.Config := ⟨Log.warning, true⟩
      let clock : Nat → Log.Origin := fun _ => ⟨.float .zero, "MainThread"⟩
      let c := (Course.opened opening).run
        [.request (.counter "" (.text "a")), .request (.inc ⟨"", "a"⟩ (.int 3)), .request (.gauge "" (.text "g")),
          .request (.update ⟨"", "g"⟩ (.float .zero)), .report, .request (.inc ⟨"", "a"⟩ (.int Text.leastTooLong)),
          .outcome (.failed ⟨"OSError", "gone"⟩), .outcome (.failed ⟨"OSError", ""⟩),
          .outcome (.failed ⟨"OSError", "gone"⟩), .report, .outcome (.failed ⟨"OSError", "gone"⟩),
          .outcome (.failed ⟨"OSError", "gone"⟩)]
      let log := lines config clock c.past
      let drops := c.past.filterMap Event.dropped?
      drops.length = 5 ∧ log.length = 4 ∧ (log.filterMap Json.drop?).length = 4 ∧
        ∃ cell delta, c.loop.tree.readCounter ⟨"", "a"⟩ = .ok cell ∧ cell.delta = .ok (.int delta) ∧
          addedTo ⟨"", "a"⟩ c.past = takenFor c.loop.tree ⟨"", "a"⟩ c.past +
            droppedFor c.loop.tree ⟨"", "a"⟩ (log.filterMap Json.drop?) +
            droppedFor c.loop.tree ⟨"", "a"⟩ (drops.filter fun drop => !drop.isBrief) + delta := by
  have opened : Opening.ofOptions { Options.standard with reporter := some ⟨"Recorder", true, true⟩ }
    (.value .null) = .ok _ := rfl
  refine ⟨_, opened, ?_⟩
  intro config clock c log drops
  have timed : ∀ i, ∃ time, (clock i).Timed time := by
    have moment : (Log.Timestamp.ofSeconds (.float .zero)).toOption = some ⟨0⟩ := by decide +kernel
    cases seconds : Log.Timestamp.ofSeconds (.float .zero) with
    | error fault => rw [seconds] at moment; cases moment
    | ok start =>
      rw [seconds] at moment
      cases moment
      exact fun _ => ⟨_, ⟨0⟩, seconds, rfl⟩
  have there : (c.loop.tree.counter? ⟨"", "a"⟩).isSome := by decide +kernel
  obtain ⟨cell, found⟩ := Option.isSome_iff_exists.mp there
  have read := Tree.readCounter_eq_ok.mpr found
  have warns : config.Warns := ⟨rfl, by decide⟩
  obtain ⟨_, _, _, _, _, balance⟩ := drops_audited opened List.nodup_nil warns timed
  obtain ⟨delta, unreported, total⟩ := balance (by decide) (by simp) (by decide +kernel) _ cell read
  exact ⟨by decide +kernel, by decide +kernel, by decide +kernel, cell, delta, read, unreported, total⟩

/-- A call fails, and no line of the log warns of it: the integer that was dropped has more digits than are written. -/
theorem drops_audited_untold :
    ∃ opening, Opening.ofOptions { Options.standard with reporter := some ⟨"Recorder", true, true⟩ }
        (.value .null) = .ok opening ∧
      let config : Log.Config := ⟨Log.warning, true⟩
      let clock : Nat → Log.Origin := fun _ => ⟨.float .zero, "MainThread"⟩
      let c := (Course.opened opening).run
        [.request (.counter "" (.text "a")), .request (.inc ⟨"", "a"⟩ (.int Text.leastTooLong)), .report,
          .outcome (.failed ⟨"OSError", "gone"⟩), .outcome .returned]
      (c.past.filterMap Event.dropped?).length = 1 ∧ lines config clock c.past = [] :=
  ⟨_, rfl, by decide +kernel, List.eq_nil_of_length_eq_zero (by decide +kernel)⟩

end Course

end MetricTree
