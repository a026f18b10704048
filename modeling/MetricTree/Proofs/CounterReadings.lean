import Mathlib.Algebra.BigOperators.Group.List.Basic
import MetricTree.Proofs.SnapshotSums
import MetricTree.Proofs.WholePass

namespace MetricTree

def Job.counter? : Job → Option Handle
  | .counter h => some h
  | .gauge _ => none

namespace Tree

/-- All counters, in the order in which a pass visits them. -/
def counterHandles (t : Tree) : List Handle := t.jobs.filterMap Job.counter?

/-- A counter as a snapshot reads it. -/
def reading (t : Tree) (h : Handle) : Reading Int :=
  let label := (t.label? h).getD ("", .empty)
  ⟨label.1, label.2, t.unreported h⟩

/-- What the counters under an identity have to report together. -/
def owed (t : Tree) (key : Text) : Int := (t.readings.map (Reading.under key)).sum

variable {t u : Tree} {h : Handle} {c : Counter}

theorem mem_counterHandles : h ∈ t.counterHandles ↔ (t.counter? h).isSome := by
  rw [counterHandles, List.mem_filterMap]
  constructor
  · rintro ⟨job, member, found⟩
    cases job with
    | counter k => cases found; exact has_of_mem_jobs member
    | gauge k => cases found
  · intro there
    exact ⟨.counter h, mem_jobs_of_has there, rfl⟩

theorem nodup_counterHandles (distinct : t.Distinct) : t.counterHandles.Nodup := by
  refine (nodup_jobs distinct).filterMap fun job other h first second => ?_
  cases job with
  | gauge => cases first
  | counter =>
    cases other with
    | gauge => cases second
    | counter => cases first; cases second; rfl

theorem unreported_eq (integral : t.Integral) (found : t.counter? h = some c) : t.unreported h = c.unreported := by
  obtain ⟨m, n, rfl⟩ := integral h c found
  exact unreported_of_counter? found

theorem counter?_of_mem_entries {i : Text} {s : Scope} {e : Text × Counter} (distinct : t.Distinct)
    (atScope : t.scope? i = some s) (member : e ∈ s.counters.entries) : t.counter? ⟨i, e.1⟩ = some e.2 := by
  simp only [counter?, atScope, Option.bind_some]
  exact Table.get?_of_mem_entries (distinct.counters atScope) member

/-- A snapshot reads every counter once, in the order of a pass. -/
theorem readings_eq (integral : t.Integral) (distinct : t.Distinct) :
    t.readings = t.counterHandles.map t.reading := by
  have within : ∀ i s, t.scope? i = some s → (t.scopeJobs i).filterMap (fun job => job.counter?.map t.reading) =
      s.readings t.separator := by
    intro i s atScope
    have names : t.counterNames i = s.counters.entries.map (·.1) := by
      rw [counterNames, atScope]
      rfl
    have gauges : ((t.gaugeNames i).map fun name => Job.gauge ⟨i, name⟩).filterMap
        (fun job => job.counter?.map t.reading) = [] := by
      rw [List.filterMap_map]
      exact List.filterMap_eq_nil_iff.mpr fun _ _ => rfl
    rw [scopeJobs, names, List.filterMap_append, gauges, List.append_nil, List.map_map, List.filterMap_map,
      Scope.readings, ← List.filterMap_eq_map]
    refine List.filterMap_congr fun e member => ?_
    have found := counter?_of_mem_entries distinct atScope member
    simp only [Function.comp_apply, Job.counter?, Option.map_some, reading, label?, atScope, Option.getD_some,
      unreported_eq integral found]
  rw [readings, ← filterMap_jobs_of distinct within, counterHandles, List.map_filterMap]

theorem exists_scope?_of_mem_scopes {s : Scope} (distinct : t.Distinct) (member : s ∈ t.scopes) :
    ∃ i, t.scope? i = some s := by
  obtain ⟨slot, inside, held⟩ := List.mem_filterMap.mp member
  obtain ⟨⟨i, value⟩, entry, rfl⟩ := List.mem_map.mp inside
  have found : t.registry.slots.get? i = some value := Table.get?_of_mem_entries distinct.identities entry
  exact ⟨i, by rw [scope?, Registry.get?, found]; exact held⟩

/-- A snapshot of integer counters succeeds, and shows the sums of its readings. -/
theorem snapshot_eq (integral : t.Integral) (distinct : t.Distinct) :
    ∃ gauges, t.snapshot = .ok ⟨t.readings.foldl Snapshot.deposit .empty, gauges⟩ := by
  refine ⟨_, bind_eq_ok.mpr ⟨_, Snapshot.counterReadings_eq fun s inTree e member => ?_, rfl⟩⟩
  obtain ⟨i, atScope⟩ := exists_scope?_of_mem_scopes distinct inTree
  exact integral _ e.2 (counter?_of_mem_entries distinct atScope member)

end Tree

end MetricTree
