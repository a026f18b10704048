import MetricTree.Proofs.Handover
import MetricTree.Proofs.ProperRuns
import MetricTree.Proofs.ReportPass

namespace MetricTree

open Identity

/-- What it adds to the total of the deltas for a name and tags. -/
def Observation.deltaFor (name : Text) (tags : Tags) : Observation → Int
  | .counter other others (.int d) => if other = name ∧ others.Agrees tags then d else 0
  | _ => 0

namespace Tree

/-- The counters that a snapshot shows. -/
def shown (t : Tree) : Table Text (Reading Int) := t.readings.foldl Snapshot.deposit .empty

variable {t u : Tree} {h k : Handle} {key name other : Text} {tags others : Tags} {r : Reading Int}

theorem reading_of_label (label : t.label? h = some (name, tags)) : t.reading h = ⟨name, tags, t.unreported h⟩ := by
  rw [reading, label, Option.getD_some]

theorem label?_isSome_of_counter? (there : (t.counter? h).isSome) : ∃ name tags, t.label? h = some (name, tags) := by
  obtain ⟨c, found⟩ := Option.isSome_iff_exists.mp there
  obtain ⟨s, atScope⟩ := Option.isSome_iff_exists.mp (scope?_isSome_of_counter? found)
  exact ⟨_, _, by rw [label?, atScope]; rfl⟩

theorem mem_readings (integral : t.Integral) (distinct : t.Distinct) :
    r ∈ t.readings ↔ ∃ h, (t.counter? h).isSome ∧ t.reading h = r := by
  simp only [readings_eq integral distinct, List.mem_map, mem_counterHandles]

theorem map_label_shown : t.shown.map Reading.label =
    Table.empty.overlay ⟨t.readings.map fun r => (r.key, r.label)⟩ :=
  Snapshot.map_label_foldl_deposit .empty t.readings

/-- A snapshot shows the identities of all counters, and no others. -/
theorem mem_keys_shown (integral : t.Integral) (distinct : t.Distinct) :
    key ∈ t.shown.keys ↔ ∃ h name tags, (t.counter? h).isSome ∧ t.label? h = some (name, tags) ∧
      key = encode name tags := by
  have keys : key ∈ t.shown.keys ↔ ∃ r ∈ t.readings, r.key = key := by
    have nothing : key ∉ (Table.empty : Table Text (Text × Tags)).keys := List.not_mem_nil
    rw [← Table.keys_map Reading.label, map_label_shown, Table.mem_keys_overlay, or_iff_right nothing]
    simp only [Table.keys, List.map_map, List.mem_map, Function.comp_apply]
  rw [keys]
  constructor
  · rintro ⟨r, member, rfl⟩
    obtain ⟨h, there, rfl⟩ := (mem_readings integral distinct).mp member
    obtain ⟨name, tags, label⟩ := label?_isSome_of_counter? there
    refine ⟨h, name, tags, there, label, ?_⟩
    rw [reading_of_label label]
    rfl
  · rintro ⟨h, name, tags, there, label, rfl⟩
    refine ⟨t.reading h, (mem_readings integral distinct).mpr ⟨h, there, rfl⟩, ?_⟩
    rw [reading_of_label label]
    rfl

/-- What is shown under an identity has the name and the tags of a counter of this identity, and the sum of what
such counters have to report. -/
theorem get?_shown (integral : t.Integral) (distinct : t.Distinct) (found : t.shown.get? key = some r) :
    key = encode r.name r.tags ∧ r.value = t.owed key ∧
      ∃ h, (t.counter? h).isSome ∧ t.label? h = some (r.name, r.tags) := by
  have sum := Snapshot.valueAt_foldl_deposit .empty t.readings key
  rw [Snapshot.valueAt, show (t.readings.foldl Snapshot.deposit .empty).get? key = some r from found] at sum
  have value : r.value = t.owed key := sum.trans (Int.add_zero _)
  have label : (t.shown.map Reading.label).get? key = some r.label := by
    rw [Table.get?_map, found, Option.map_some]
  rw [map_label_shown] at label
  have entry := (Table.mem_entries_overlay (Table.mem_entries_of_get? label)).resolve_left List.not_mem_nil
  obtain ⟨q, member, same⟩ := List.mem_map.mp entry
  obtain ⟨h, there, rfl⟩ := (mem_readings integral distinct).mp member
  obtain ⟨name, tags, known⟩ := label?_isSome_of_counter? there
  rw [reading_of_label known] at same
  obtain ⟨rfl, named⟩ := Prod.mk.inj same
  obtain ⟨rfl, rfl⟩ := Prod.mk.inj named
  exact ⟨rfl, value, h, there, known⟩

theorem Proper.plain_label (proper : t.Proper) (there : (t.counter? h).isSome)
    (label : t.label? h = some (name, tags)) : Plain name ∧ PlainTags tags ∧ tags.keys.Nodup := by
  obtain ⟨c, found⟩ := Option.isSome_iff_exists.mp there
  obtain ⟨s, atScope, same⟩ := Option.map_eq_some_iff.mp label
  obtain ⟨rfl, rfl⟩ := Prod.mk.inj same
  have inTree := proper.scopes atScope
  exact ⟨inTree.qualify proper.separator.2 (proper.counterName found).2, inTree.tags, inTree.distinct⟩

/-- Names and tags of counters have the same identity only if they are the same. -/
theorem Proper.encode_label_iff (proper : t.Proper) (there : (t.counter? h).isSome)
    (label : t.label? h = some (name, tags)) (present : (t.counter? k).isSome)
    (labelled : t.label? k = some (other, others)) :
    encode name tags = encode other others ↔ name = other ∧ tags.Agrees others := by
  obtain ⟨plain, plains, distinct⟩ := proper.plain_label there label
  obtain ⟨plain', plains', distinct'⟩ := proper.plain_label present labelled
  exact encode_eq_encode_iff plain plain' plains plains' distinct distinct'

/-- As long as counters are only reported, a snapshot goes on to show the same of them but for the values. -/
theorem HandsOver.map_label_shown {told : List (Text × Observation)} (handsOver : t.HandsOver told u)
    (integral : t.Integral) (distinct : t.Distinct) (still : u.Integral) (apart : u.Distinct) :
    u.shown.map Reading.label = t.shown.map Reading.label := by
  have labels : ∀ h, ((u.reading h).key, (u.reading h).label) = ((t.reading h).key, (t.reading h).label) := by
    intro h
    simp only [reading, handsOver.labels h]
    rfl
  rw [Tree.map_label_shown, Tree.map_label_shown, readings_eq still apart, readings_eq integral distinct,
    handsOver.handles, List.map_map, List.map_map]
  exact congrArg (fun entries => Table.empty.overlay ⟨entries⟩) (List.map_congr_left fun h _ => labels h)

/-- Telling by identity is telling by name and tags. -/
theorem HandsOver.sum_deltaUnder {told : List (Text × Observation)} (handsOver : t.HandsOver told u)
    (proper : t.Proper) (there : (t.counter? h).isSome) (label : t.label? h = some (name, tags)) :
    (told.map fun seen => seen.2.deltaUnder (encode name tags)).sum =
      (told.map fun seen => seen.2.deltaFor name tags).sum := by
  refine congrArg List.sum (List.map_congr_left fun seen member => ?_)
  obtain ⟨i, ⟨other, others, delta⟩ | ⟨other, others, x⟩⟩ := seen
  · obtain ⟨d, k, rfl, present, labelled⟩ := handsOver.known member
    simp only [Observation.deltaUnder, Observation.deltaFor,
      proper.encode_label_iff present labelled there label]
  · rfl

/-- What was shown before is shown after, with what was told in between taken off. -/
theorem HandsOver.get?_shown {told : List (Text × Observation)} (handsOver : t.HandsOver told u)
    (proper : t.Proper) (integral : t.Integral) (distinct : t.Distinct) (still : u.Integral) (apart : u.Distinct)
    (found : t.shown.get? key = some r) :
    ∃ q, u.shown.get? key = some q ∧ q.name = r.name ∧ q.tags = r.tags ∧
      r.value = (told.map fun seen => seen.2.deltaFor r.name r.tags).sum + q.value ∧ q.value = u.owed key := by
  obtain ⟨rfl, value, h, there, label⟩ := Tree.get?_shown integral distinct found
  have after : (u.shown.map Reading.label).get? (encode r.name r.tags) = some r.label := by
    rw [handsOver.map_label_shown integral distinct still apart, Table.get?_map, found, Option.map_some]
  rw [Table.get?_map] at after
  obtain ⟨q, present, same⟩ := Option.map_eq_some_iff.mp after
  obtain ⟨named, tagged⟩ := Prod.mk.inj same
  have left : q.value = u.owed (encode r.name r.tags) := (Tree.get?_shown still apart present).2.1
  refine ⟨q, present, named, tagged, ?_, left⟩
  rw [value, handsOver.owed, handsOver.sum_deltaUnder proper there label, left]

theorem owed_settled (integral : t.Integral) (still : t.settled.Integral) (apart : t.settled.Distinct) (key : Text) :
    t.settled.owed key = 0 := by
  have nothing : ∀ h, t.settled.unreported h = 0 := by
    intro h
    cases found : t.settled.counter? h with
    | none => exact unreported_of_none found
    | some c =>
      obtain ⟨m, n, rfl⟩ := still h c found
      rw [unreported_of_counter? found]
      exact Number.int.inj (Except.ok.inj ((settled_drains integral).deltas h _ found))
  rw [owed_eq still apart]
  refine List.sum_eq_zero fun x member => ?_
  obtain ⟨h, _, rfl⟩ := List.mem_map.mp member
  rw [Reading.under, reading, nothing h, ite_self]

end Tree

namespace Course

/-- What the reporter was told of counters of this name and these tags, in total. -/
def reportedFor (name : Text) (tags : Tags) (events : List Event) : Int :=
  ((events.filterMap Event.observed?).map fun seen => seen.2.deltaFor name tags).sum

/-- A snapshot shows, by name and tags, what a report would now tell of the counters, and nothing else. Whatever
becomes of the report's pass, what was shown is what it told and what a snapshot shows after it; and unless the pass
was broken off, that is nothing. -/
theorem snapshot_matches_report {o : Options} {interval : Interval} {opening : Opening} {steps : List Step}
    (opened : Opening.ofOptions o interval = .ok opening) (distinct : o.tags.keys.Nodup)
    (integral : ∀ step ∈ steps, step.isIntegral) (attached : o.reporter.isSome) :
    let c := (Course.opened opening).run steps
    let t := c.loop.tree
    c.waiting = [] → c.loop.phase.isOver = false → ∃ seen, t.snapshot = .ok seen ∧
      (∀ key, key ∈ seen.counters.keys ↔
        ∃ h name tags, (t.counter? h).isSome ∧ t.label? h = some (name, tags) ∧ key = encode name tags) ∧
      (∀ key r, seen.counters.get? key = some r → key = encode r.name r.tags) ∧
      (∀ h name tags, (t.counter? h).isSome → t.label? h = some (name, tags) →
        ∃ r, seen.counters.get? (encode name tags) = some r ∧ r.name = name ∧ r.tags.Agrees tags) ∧
      ∀ outcomes : List Outcome,
        let d := c.run (.report :: outcomes.map .outcome)
        (t.pending.length < outcomes.length → d.waiting = []) ∧
        (d.waiting = [] → ∃ events after, d.past = c.past ++ events ∧ d.loop.tree.snapshot = .ok after ∧
          after.counters.keys = seen.counters.keys ∧
          (∀ duty p name tags delta, .called (.observing duty p (.counter name tags delta)) ∈ events →
            (∃ n, delta = .int n) ∧ encode name tags ∈ seen.counters.keys) ∧
          ∀ key r, seen.counters.get? key = some r → ∃ q, after.counters.get? key = some q ∧
            q.name = r.name ∧ q.tags = r.tags ∧ r.value = reportedFor r.name r.tags events + q.value ∧
            ((∀ o ∈ outcomes, o.aborts = false) → r.value = reportedFor r.name r.tags events ∧ q.value = 0)) := by
  intro c t none unclosed
  have poised := poised_run opened integral attached none unclosed
  have proper : t.Proper := proper_run (Opening.proper opened distinct) steps
  obtain ⟨gauges, shown⟩ := Tree.snapshot_eq poised.integral poised.distinct
  have keys : ∀ key, key ∈ t.shown.keys ↔ _ := fun _ => Tree.mem_keys_shown poised.integral poised.distinct
  refine ⟨⟨t.shown, gauges⟩, shown, keys, ?_, ?_, fun outcomes => ?_⟩
  · exact fun key r found => (Tree.get?_shown poised.integral poised.distinct found).1
  · intro h name tags there label
    obtain ⟨r, found⟩ := Table.exists_get?_of_mem_keys ((keys _).mpr ⟨h, name, tags, there, label, rfl⟩)
    obtain ⟨same, _, k, present, labelled⟩ := Tree.get?_shown poised.integral poised.distinct found
    obtain ⟨named, agree⟩ := (proper.encode_label_iff there label present labelled).mp same
    exact ⟨r, found, named.symm, agree.symm⟩
  intro d
  obtain ⟨ends, leaves⟩ := poised.underWay.run outcomes
  refine ⟨ends, fun ended => ?_⟩
  obtain ⟨still, apart, events, past, handsOver⟩ :=
    handsOver_run (.report :: outcomes.map .outcome) poised.integral poised.distinct (by simp)
  obtain ⟨others, after⟩ := Tree.snapshot_eq still apart
  have labels := handsOver.map_label_shown poised.integral poised.distinct still apart
  refine ⟨events, ⟨d.loop.tree.shown, others⟩, past, after, ?_, ?_, ?_⟩
  · exact (Table.keys_map _ _).symm.trans ((congrArg Table.keys labels).trans (Table.keys_map _ _))
  · intro duty p name tags delta member
    obtain ⟨n, h, integer, there, label⟩ := handsOver.known (List.mem_filterMap.mpr ⟨_, member, rfl⟩)
    exact ⟨⟨n, integer⟩, (keys _).mpr ⟨h, name, tags, there, label, rfl⟩⟩
  · intro key r found
    obtain ⟨q, present, named, tagged, balance, left⟩ :=
      handsOver.get?_shown proper poised.integral poised.distinct still apart found
    refine ⟨q, present, named, tagged, balance, fun unbroken => ?_⟩
    have settled : d.loop.tree = t.settled := leaves ended unbroken
    have nothing : q.value = 0 := by
      rw [left, settled]
      exact Tree.owed_settled poised.integral (settled ▸ still) (settled ▸ apart) _
    exact ⟨balance.trans (by rw [nothing, Int.add_zero]; rfl), nothing⟩

/-- Two scopes reach one name, with amounts that partly cancel, and the first of the two calls for it fails. -/
theorem snapshot_matches_report_shared :
    ∃ opening, Opening.ofOptions { Options.standard with reporter := some ⟨"Recorder", true, true⟩ }
        (.value .null) = .ok opening ∧
      let c := (Course.opened opening).run
        [.request (.subScope "" (.text "a")), .request (.counter "" (.text "a.b")),
          .request (.counter "a+" (.text "b")), .request (.counter "a+" (.text "idle")),
          .request (.inc ⟨"", "a.b"⟩ (.int 5)), .request (.inc ⟨"a+", "b"⟩ (.int (-3)))]
      let d := c.run [.report, .outcome (.failed ⟨"OSError", "gone"⟩), .outcome .returned, .outcome .returned]
      ∃ events after q, d.past = c.past ++ events ∧ reportedFor "a.b" .empty events = 2 ∧
        d.loop.tree.snapshot = .ok after ∧ after.counters.get? "a.b+" = some q ∧ q.value = 0 := by
  have opened : Opening.ofOptions { Options.standard with reporter := some ⟨"Recorder", true, true⟩ }
    (.value .null) = .ok _ := rfl
  refine ⟨_, opened, ?_⟩
  intro c d
  have none : c.waiting = [] := List.isEmpty_iff.mp (by decide +kernel)
  have ended : d.waiting = [] := List.isEmpty_iff.mp (by decide +kernel)
  have computed : (c.loop.tree.snapshot.toOption.bind (·.counters.get? "a.b+")).map
      (fun r => (r.name, r.tags.entries, r.value)) = some (↑"a.b", [], 2) := by decide +kernel
  obtain ⟨seen, shown, _, _, _, passes⟩ :=
    snapshot_matches_report opened List.nodup_nil (by simp [Step.isIntegral]) rfl none (by decide +kernel)
  obtain ⟨events, after, past, shownAfter, _, _, entries⟩ :=
    (passes [.failed ⟨"OSError", "gone"⟩, .returned, .returned]).2 ended
  rw [show c.loop.tree.snapshot = .ok seen from shown] at computed
  obtain ⟨⟨name, ⟨pairs⟩, value⟩, found, parts⟩ := Option.map_eq_some_iff.mp computed
  cases parts
  obtain ⟨q, present, _, _, _, whole⟩ := entries "a.b+" _ found
  obtain ⟨balance, nothing⟩ := whole (by decide)
  exact ⟨events, after, q, past, balance.symm, shownAfter, present, nothing⟩

/-- A pass that is broken off after its first call leaves the second counter as it was shown, untold. -/
theorem snapshot_matches_report_broken_off :
    ∃ opening, Opening.ofOptions { Options.standard with reporter := some ⟨"Recorder", true, true⟩ }
        (.value .null) = .ok opening ∧
      let c := (Course.opened opening).run
        [.request (.counter "" (.text "a")), .request (.inc ⟨"", "a"⟩ (.int 1)),
          .request (.counter "" (.text "b")), .request (.inc ⟨"", "b"⟩ (.int 2))]
      let d := c.run [.report, .outcome (.aborted "stop")]
      c.waiting = [] ∧ c.loop.phase.isOver = false ∧ d.waiting = [] ∧ ∃ events seen r after q,
        d.past = c.past ++ events ∧ c.loop.tree.snapshot = .ok seen ∧ seen.counters.get? "b+" = some r ∧
        r.value ≠ reportedFor r.name r.tags events ∧
        d.loop.tree.snapshot = .ok after ∧ after.counters.get? "b+" = some q ∧ q.value ≠ 0 := by
  have opened : Opening.ofOptions { Options.standard with reporter := some ⟨"Recorder", true, true⟩ }
    (.value .null) = .ok _ := rfl
  refine ⟨_, opened, ?_⟩
  intro c d
  have read : ∀ e : Course, (e.loop.tree.snapshot.toOption.bind (·.counters.get? "b+")).map
      (fun r => (r.name, r.tags.entries, r.value)) = some (↑"b", [], 2) → ∃ seen r, e.loop.tree.snapshot = .ok seen ∧
        seen.counters.get? "b+" = some r ∧ r.name = "b" ∧ r.tags = .empty ∧ r.value = 2 := by
    intro e computed
    cases shown : e.loop.tree.snapshot with
    | error fault => rw [shown] at computed; cases computed
    | ok seen =>
      rw [shown] at computed
      obtain ⟨⟨name, ⟨pairs⟩, value⟩, found, parts⟩ := Option.map_eq_some_iff.mp computed
      cases parts
      exact ⟨seen, _, rfl, found, rfl, rfl, rfl⟩
  obtain ⟨seen, r, shown, found, named, tagged, value⟩ := read c (by decide +kernel)
  obtain ⟨after, q, shownAfter, present, _, _, left⟩ := read d (by decide +kernel)
  obtain ⟨events, past⟩ := past_prefix_run c [.report, .outcome (.aborted "stop")]
  have untold : reportedFor "b" .empty (d.past.drop c.past.length) = 0 := by decide +kernel
  rw [show d.past = c.past ++ events from past.symm, List.drop_left] at untold
  refine ⟨List.isEmpty_iff.mp (by decide +kernel), by decide +kernel, List.isEmpty_iff.mp (by decide +kernel),
    events, seen, r, after, q, past.symm, shown, found, ?_, shownAfter, present, ?_⟩
  · rw [named, tagged, value, untold]
    decide
  · rw [left]
    decide

end Course

end MetricTree
