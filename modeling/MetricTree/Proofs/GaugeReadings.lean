import MetricTree.Proofs.CellAccounts
import MetricTree.Proofs.CounterReadings
import MetricTree.Proofs.ProperRuns

namespace MetricTree

open Identity

def Job.gauge? : Job → Option Handle
  | .counter _ => none
  | .gauge h => some h

namespace Tree

/-- All gauges, in the order in which a pass visits them. -/
def gaugeHandles (t : Tree) : List Handle := t.jobs.filterMap Job.gauge?

/-- A gauge as a snapshot reads it. -/
def gaugeReading (t : Tree) (h : Handle) : Reading Binary64 :=
  let label := (t.label? h).getD ("", .empty)
  ⟨label.1, label.2, (t.gaugeAt h).value⟩

/-- The gauges that a snapshot shows under an identity, in the order of a pass. -/
def gaugesUnder (t : Tree) (key : Text) : List Handle :=
  t.gaugeHandles.filter fun h => (t.gaugeReading h).key == key

variable {t : Tree} {h k : Handle} {key name other : Text} {tags others : Tags} {r : Reading Binary64}

theorem mem_gaugeHandles : h ∈ t.gaugeHandles ↔ (t.gauge? h).isSome := by
  rw [gaugeHandles, List.mem_filterMap]
  constructor
  · rintro ⟨job, member, found⟩
    cases job with
    | counter k => cases found
    | gauge k => cases found; exact has_of_mem_jobs member
  · intro there
    exact ⟨.gauge h, mem_jobs_of_has there, rfl⟩

theorem label?_isSome_of_gauge? (there : (t.gauge? h).isSome) : ∃ name tags, t.label? h = some (name, tags) := by
  obtain ⟨g, found⟩ := Option.isSome_iff_exists.mp there
  obtain ⟨s, atScope⟩ := Option.isSome_iff_exists.mp (scope?_isSome_of_gauge? found)
  exact ⟨_, _, by rw [label?, atScope]; rfl⟩

theorem gaugeReading_of_label (label : t.label? h = some (name, tags)) :
    t.gaugeReading h = ⟨name, tags, (t.gaugeAt h).value⟩ := by
  rw [gaugeReading, label, Option.getD_some]

theorem mem_gaugesUnder : h ∈ t.gaugesUnder key ↔
    ∃ name tags, (t.gauge? h).isSome ∧ t.label? h = some (name, tags) ∧ key = encode name tags := by
  rw [gaugesUnder, List.mem_filter, mem_gaugeHandles, beq_iff_eq, eq_comm (b := key)]
  constructor
  · rintro ⟨there, under⟩
    obtain ⟨name, tags, label⟩ := label?_isSome_of_gauge? there
    rw [gaugeReading_of_label label] at under
    exact ⟨name, tags, there, label, under⟩
  · rintro ⟨name, tags, there, label, under⟩
    rw [gaugeReading_of_label label]
    exact ⟨there, under⟩

theorem gauge?_of_mem_entries {i : Text} {s : Scope} {e : Text × Gauge} (distinct : t.Distinct)
    (atScope : t.scope? i = some s) (member : e ∈ s.gauges.entries) : t.gauge? ⟨i, e.1⟩ = some e.2 := by
  simp only [gauge?, atScope, Option.bind_some]
  exact Table.get?_of_mem_entries (distinct.gauges atScope) member

/-- A snapshot reads every gauge once, in the order of a pass. -/
theorem gaugeReadings_eq (distinct : t.Distinct) : Snapshot.gaugeReadings t.separator t.scopes =
    .ofList (t.gaugeHandles.map fun h => ((t.gaugeReading h).key, t.gaugeReading h)) := by
  -- Scope by scope, the counters drop out, and every gauge is read under its label.
  have within : ∀ i s, t.scope? i = some s →
      (t.scopeJobs i).filterMap (fun job => job.gauge?.map fun h => ((t.gaugeReading h).key, t.gaugeReading h)) =
        s.gauges.entries.map fun e =>
          (encode (s.qualify t.separator e.1) s.tags, ⟨s.qualify t.separator e.1, s.tags, e.2.value⟩) := by
    intro i s atScope
    have names : t.gaugeNames i = s.gauges.entries.map (·.1) := by
      rw [gaugeNames, atScope]
      rfl
    have counters : ((t.counterNames i).map fun name => Job.counter ⟨i, name⟩).filterMap
        (fun job => job.gauge?.map fun h => ((t.gaugeReading h).key, t.gaugeReading h)) = [] := by
      rw [List.filterMap_map]
      exact List.filterMap_eq_nil_iff.mpr fun _ _ => rfl
    rw [scopeJobs, names, List.filterMap_append, counters, List.nil_append, List.map_map, List.filterMap_map,
      ← List.filterMap_eq_map]
    refine List.filterMap_congr fun e member => ?_
    have label : t.label? ⟨i, e.1⟩ = some (s.qualify t.separator e.1, s.tags) := by
      rw [label?, atScope, Option.map_some]
    simp only [Function.comp_apply, Job.gauge?, Option.map_some, gaugeReading_of_label label,
      gaugeAt_of_gauge? (gauge?_of_mem_entries distinct atScope member), Reading.key]
  rw [Snapshot.gaugeReadings, ← filterMap_jobs_of distinct within, gaugeHandles, List.map_filterMap]

/-- Of the gauges under an identity, a snapshot shows the last one. -/
theorem get?_gaugeReadings (distinct : t.Distinct) (key : Text) :
    (Snapshot.gaugeReadings t.separator t.scopes).get? key = (t.gaugesUnder key).getLast?.map t.gaugeReading := by
  rw [gaugeReadings_eq distinct, Table.get?_ofList, List.filter_map, List.getLast?_map, Option.map_map]
  rfl

theorem Proper.plain_label_gauge (proper : t.Proper) (there : (t.gauge? h).isSome)
    (label : t.label? h = some (name, tags)) : Plain name ∧ PlainTags tags ∧ tags.keys.Nodup := by
  obtain ⟨g, found⟩ := Option.isSome_iff_exists.mp there
  obtain ⟨s, atScope, same⟩ := Option.map_eq_some_iff.mp label
  obtain ⟨rfl, rfl⟩ := Prod.mk.inj same
  have inTree := proper.scopes atScope
  exact ⟨inTree.qualify proper.separator.2 (proper.gaugeName found).2, inTree.tags, inTree.distinct⟩

/-- The gauges under the identity of one of them are all that have its name and its tags. -/
theorem Proper.mem_gaugesUnder (proper : t.Proper) (there : (t.gauge? k).isSome)
    (label : t.label? k = some (name, tags)) : h ∈ t.gaugesUnder (encode name tags) ↔
      (t.gauge? h).isSome ∧ ∃ others, t.label? h = some (name, others) ∧ others.Agrees tags := by
  obtain ⟨plain, plains, distinct⟩ := proper.plain_label_gauge there label
  rw [Tree.mem_gaugesUnder]
  constructor
  · rintro ⟨other, others, present, labelled, same⟩
    obtain ⟨plain', plains', distinct'⟩ := proper.plain_label_gauge present labelled
    obtain ⟨rfl, agree⟩ := (encode_eq_encode_iff plain' plain plains' plains distinct' distinct).mp same.symm
    exact ⟨present, others, labelled, agree⟩
  · rintro ⟨present, others, labelled, agree⟩
    obtain ⟨plain', plains', distinct'⟩ := proper.plain_label_gauge present labelled
    exact ⟨name, others, present, labelled,
      ((encode_eq_encode_iff plain' plain plains' plains distinct' distinct).mpr ⟨rfl, agree⟩).symm⟩

end Tree

namespace Course

/-- The updates that were made through some gauges, one after the other. -/
def updates (hs : List Handle) (events : List Event) : List (Handle × Binary64) :=
  events.filterMap fun
    | .updated k x => if k ∈ hs then some (k, x) else none
    | _ => none

variable {hs : List Handle} {h : Handle} {events : List Event}

theorem writes_eq (member : h ∈ hs) :
    writes h events = (updates hs events).filterMap fun update => if update.1 = h then some update.2 else none := by
  rw [writes, updates, List.filterMap_filterMap]
  refine List.filterMap_congr fun e _ => ?_
  cases e with
  | updated k x =>
    by_cases same : k = h
    · subst same
      simp only [member, if_true, Option.bind_some]
    · simp only [same, if_false]
      split <;> simp only [Option.bind_some, same, if_false, Option.bind_none]
  | _ => rfl

/-- If the last of the updates through some gauges is one through this gauge, it is the last one of this gauge. -/
theorem getLast?_writes (member : h ∈ hs)
    (latest : ∀ k x, (updates hs events).getLast? = some (k, x) → k = h) :
    (writes h events).getLast? = (updates hs events).getLast?.map (·.2) := by
  rw [writes_eq member]
  rcases List.eq_nil_or_concat (updates hs events) with nothing | ⟨sooner, ⟨k, x⟩, last⟩
  · rw [nothing]
    rfl
  · rw [List.concat_eq_append] at last
    rw [last, List.getLast?_concat] at latest
    cases latest k x rfl
    rw [last, List.filterMap_append, List.getLast?_concat, List.filterMap_cons, if_pos rfl, List.filterMap_nil,
      List.getLast?_concat]
    rfl

/-- A snapshot shows the identities of all gauges. Under each of them it has the value last written to one gauge:
of those that have this name and these tags, the one that was made last in the scope that was registered last. The
most recent value that was written to any of them is what it shows if that was written to this gauge. -/
theorem gauge_snapshot {o : Options} {interval : Interval} {opening : Opening} {steps : List Step} {seen : Snapshot}
    (opened : Opening.ofOptions o interval = .ok opening) (distinct : o.tags.keys.Nodup) :
    let c := (Course.opened opening).run steps
    let t := c.loop.tree
    t.snapshot = .ok seen →
      (∀ key, (seen.gauges.get? key).isSome ↔
        ∃ h name tags, (t.gauge? h).isSome ∧ t.label? h = some (name, tags) ∧ key = encode name tags) ∧
      ∀ key r, seen.gauges.get? key = some r → key = encode r.name r.tags ∧
        (∀ h, h ∈ t.gaugesUnder key ↔
          (t.gauge? h).isSome ∧ ∃ tags, t.label? h = some (r.name, tags) ∧ tags.Agrees r.tags) ∧
        ∃ last, (t.gaugesUnder key).getLast? = some last ∧
          r.value = (writes last c.past).getLast?.getD .zero ∧
          ((∀ k x, (updates (t.gaugesUnder key) c.past).getLast? = some (k, x) → k = last) →
            r.value = ((updates (t.gaugesUnder key) c.past).getLast?.map (·.2)).getD .zero) := by
  intro c t shown
  have proper : t.Proper := proper_run (Opening.proper opened distinct) steps
  have accounted : c.Accounted := accounted_run opened steps
  obtain ⟨counters, _, same⟩ := bind_eq_ok.mp shown
  cases same
  have entry := t.get?_gaugeReadings (distinct_run opened steps)
  refine ⟨fun key => ?_, fun key r found => ?_⟩
  · rw [entry, Option.isSome_map, List.getLast?_isSome]
    constructor
    · intro some
      obtain ⟨h, member⟩ := List.exists_mem_of_ne_nil _ some
      exact ⟨h, Tree.mem_gaugesUnder.mp member⟩
    · rintro ⟨h, under⟩
      exact List.ne_nil_of_mem (Tree.mem_gaugesUnder.mpr under)
  · rw [entry] at found
    obtain ⟨last, isLast, rfl⟩ := Option.map_eq_some_iff.mp found
    have member : last ∈ t.gaugesUnder key := List.mem_of_getLast? isLast
    obtain ⟨name, tags, there, label, rfl⟩ := Tree.mem_gaugesUnder.mp member
    have value : (t.gaugeAt last).value = (writes last c.past).getLast?.getD .zero :=
      Gauge.Accounts.value (accounted.cells (.gauge last))
    rw [Tree.gaugeReading_of_label label]
    refine ⟨rfl, fun h => proper.mem_gaugesUnder there label, last, isLast, value, fun latest => ?_⟩
    exact value.trans (by rw [getLast?_writes member latest])

/-- Two scopes reach one name, and the gauge that was updated last is the one that was made last. -/
theorem gauge_snapshot_shared :
    ∃ opening, Opening.ofOptions Options.standard (.value .null) = .ok opening ∧
      let c := (Course.opened opening).run
        [.request (.gauge "" (.text "a.b")), .request (.subScope "" (.text "a")), .request (.gauge "a+" (.text "b")),
          .request (.update ⟨"", "a.b"⟩ (.float (.ofBits 0x3ff0000000000000))),
          .request (.update ⟨"a+", "b"⟩ (.float (.ofBits 0x4000000000000000)))]
      ∃ seen r, c.loop.tree.snapshot = .ok seen ∧ seen.gauges.get? "a.b+" = some r ∧
        r.value = .ofBits 0x4000000000000000 := by
  have opened : Opening.ofOptions Options.standard (.value .null) = .ok _ := rfl
  refine ⟨_, opened, ?_⟩
  intro c
  have present : (c.loop.tree.snapshot.toOption.bind (·.gauges.get? "a.b+")).isSome := by decide +kernel
  have under : (c.loop.tree.gaugesUnder "a.b+").getLast? = some ⟨"a+", "b"⟩ := by decide +kernel
  have latest : (updates (c.loop.tree.gaugesUnder "a.b+") c.past).getLast? =
      some (⟨"a+", "b"⟩, .ofBits 0x4000000000000000) := by decide +kernel
  cases shown : c.loop.tree.snapshot with
  | error fault => rw [shown] at present; cases present
  | ok seen =>
    rw [shown] at present
    obtain ⟨r, found⟩ := Option.isSome_iff_exists.mp present
    obtain ⟨_, _, last, isLast, _, recent⟩ := (gauge_snapshot opened List.nodup_nil shown).2 "a.b+" r found
    refine ⟨seen, r, rfl, found, (recent fun k x newest => ?_).trans (by rw [latest]; rfl)⟩
    rw [latest] at newest
    cases newest
    exact Option.some.inj (under.symm.trans isLast)

/-- The same two gauges updated the other way round: what is shown is not the most recent value. -/
theorem gauge_snapshot_overwritten :
    ∃ opening, Opening.ofOptions Options.standard (.value .null) = .ok opening ∧
      let c := (Course.opened opening).run
        [.request (.gauge "" (.text "a.b")), .request (.subScope "" (.text "a")), .request (.gauge "a+" (.text "b")),
          .request (.update ⟨"a+", "b"⟩ (.float (.ofBits 0x3ff0000000000000))),
          .request (.update ⟨"", "a.b"⟩ (.float (.ofBits 0x4000000000000000)))]
      ∃ seen r, c.loop.tree.snapshot = .ok seen ∧ seen.gauges.get? "a.b+" = some r ∧
        (updates (c.loop.tree.gaugesUnder "a.b+") c.past).getLast? =
          some (⟨"", "a.b"⟩, .ofBits 0x4000000000000000) ∧
        r.value = .ofBits 0x3ff0000000000000 := by
  have opened : Opening.ofOptions Options.standard (.value .null) = .ok _ := rfl
  refine ⟨_, opened, ?_⟩
  intro c
  have computed : (c.loop.tree.snapshot.toOption.bind (·.gauges.get? "a.b+")).map (·.value) =
      some (.ofBits 0x3ff0000000000000) := by decide +kernel
  have latest : (updates (c.loop.tree.gaugesUnder "a.b+") c.past).getLast? =
      some (⟨"", "a.b"⟩, .ofBits 0x4000000000000000) := by decide +kernel
  cases shown : c.loop.tree.snapshot with
  | error fault => rw [shown] at computed; cases computed
  | ok seen =>
    rw [shown] at computed
    obtain ⟨r, found, value⟩ := Option.map_eq_some_iff.mp computed
    exact ⟨seen, r, rfl, found, latest, value⟩

end Course

end MetricTree
