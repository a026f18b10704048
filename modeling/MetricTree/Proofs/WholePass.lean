import MetricTree.Proofs.PendingReports

namespace MetricTree

/-- The scope that a job is done in. -/
def Job.scope : Job → Text
  | .counter h => h.scope
  | .gauge h => h.scope

/-- The names that a cursor has at hand. -/
def Cursor.names : Cursor → List Text
  | .counters _ names => names
  | .gauges _ names => names

namespace Tree

variable {t : Tree} {job : Job}

/-- All that a pass over the tree visits. -/
def jobs (t : Tree) : List Job := t.identities.flatMap t.scopeJobs

theorem has_of_mem_scopeJobs {i : Text} (member : job ∈ t.scopeJobs i) : t.Has job := by
  rcases List.mem_append.mp member with counter | gauge
  · obtain ⟨name, known, rfl⟩ := List.mem_map.mp counter
    exact t.counterNames_within i name known
  · obtain ⟨name, known, rfl⟩ := List.mem_map.mp gauge
    exact t.gaugeNames_within i name known

theorem mem_counterNames_of_counter? {h : Handle} (there : (t.counter? h).isSome) :
    h.name ∈ t.counterNames h.scope := by
  obtain ⟨c, found⟩ := Option.isSome_iff_exists.mp there
  obtain ⟨s, atScope⟩ := Option.isSome_iff_exists.mp (scope?_isSome_of_counter? found)
  rw [counterNames, atScope]
  exact mem_keys_of_counter? found atScope

theorem mem_gaugeNames_of_gauge? {h : Handle} (there : (t.gauge? h).isSome) : h.name ∈ t.gaugeNames h.scope := by
  obtain ⟨g, found⟩ := Option.isSome_iff_exists.mp there
  obtain ⟨s, atScope⟩ := Option.isSome_iff_exists.mp (scope?_isSome_of_gauge? found)
  rw [gaugeNames, atScope]
  exact mem_keys_of_gauge? found atScope

theorem mem_scopeJobs_of_has (there : t.Has job) : job ∈ t.scopeJobs job.scope := by
  cases job with
  | counter h =>
    exact List.mem_append_left _ (List.mem_map.mpr ⟨h.name, mem_counterNames_of_counter? there, rfl⟩)
  | gauge h => exact List.mem_append_right _ (List.mem_map.mpr ⟨h.name, mem_gaugeNames_of_gauge? there, rfl⟩)

theorem exists_scope?_of_has (there : t.Has job) : ∃ s, t.scope? job.scope = some s := by
  cases job with
  | counter h =>
    obtain ⟨c, known⟩ := Option.isSome_iff_exists.mp there
    exact Option.isSome_iff_exists.mp (scope?_isSome_of_counter? known)
  | gauge h =>
    obtain ⟨g, known⟩ := Option.isSome_iff_exists.mp there
    exact Option.isSome_iff_exists.mp (scope?_isSome_of_gauge? known)

theorem has_of_mem_jobs (member : job ∈ t.jobs) : t.Has job := by
  obtain ⟨i, _, inScope⟩ := List.mem_flatMap.mp member
  exact has_of_mem_scopeJobs inScope

theorem mem_jobs_of_has (there : t.Has job) : job ∈ t.jobs := by
  obtain ⟨s, atScope⟩ := exists_scope?_of_has there
  exact List.mem_flatMap.mpr ⟨_, mem_identities_of_scope? atScope, mem_scopeJobs_of_has there⟩

theorem scope_of_mem_scopeJobs {i : Text} (member : job ∈ t.scopeJobs i) : job.scope = i := by
  rcases List.mem_append.mp member with counter | gauge
  · obtain ⟨name, _, rfl⟩ := List.mem_map.mp counter
    rfl
  · obtain ⟨name, _, rfl⟩ := List.mem_map.mp gauge
    rfl

theorem nodup_cursorJobs (distinct : t.Distinct) (cursor : Cursor) (names : cursor.names.Nodup) :
    (cursor.jobs t).Nodup := by
  have gauges : ∀ {i : Text} {names : List Text}, names.Nodup → (names.map fun name => Job.gauge ⟨i, name⟩).Nodup :=
    fun apart => apart.map fun name other same => (Handle.mk.inj (Job.gauge.inj same)).2
  cases cursor with
  | gauges i names => exact gauges ‹_›
  | counters i names =>
    have known : (t.gaugeNames i).Nodup := by
      unfold gaugeNames
      cases atScope : t.scope? i with
      | none => exact List.nodup_nil
      | some s => exact distinct.gauges atScope
    refine List.nodup_append.mpr ⟨List.Nodup.map ?_ ‹_›, gauges known, ?_⟩
    · exact fun name other same => (Handle.mk.inj (Job.counter.inj same)).2
    · intro first counter second gauge
      obtain ⟨name, _, rfl⟩ := List.mem_map.mp counter
      obtain ⟨other, _, rfl⟩ := List.mem_map.mp gauge
      exact nofun

theorem nodup_counterNames (distinct : t.Distinct) (i : Text) : (t.counterNames i).Nodup := by
  rw [counterNames]
  cases atScope : t.scope? i with
  | none => exact List.nodup_nil
  | some s => exact distinct.counters atScope

theorem nodup_scopeJobs (distinct : t.Distinct) (i : Text) : (t.scopeJobs i).Nodup :=
  nodup_cursorJobs distinct (.counters i (t.counterNames i)) (nodup_counterNames distinct i)

theorem nodup_flatMap_scopeJobs {scopes : List Text} (distinct : t.Distinct) (apart : scopes.Nodup) :
    (scopes.flatMap t.scopeJobs).Nodup := by
  refine List.nodup_flatMap.mpr ⟨fun i _ => nodup_scopeJobs distinct i, apart.imp fun {i j} different => ?_⟩
  exact fun job first second => different ((scope_of_mem_scopeJobs first).symm.trans (scope_of_mem_scopeJobs second))

/-- A pass visits no metric twice. -/
theorem nodup_jobs (distinct : t.Distinct) : t.jobs.Nodup := nodup_flatMap_scopeJobs distinct distinct.identities

theorem filterMap_scopeJobs {i : Text} {s : Scope} (distinct : t.Distinct) (atScope : t.scope? i = some s) :
    (t.scopeJobs i).filterMap t.due = s.reports t.separator := by
  have counters : t.counterNames i = s.counters.entries.map (·.1) := by
    rw [counterNames, atScope]
    rfl
  have gauges : t.gaugeNames i = s.gauges.entries.map (·.1) := by
    rw [gaugeNames, atScope]
    rfl
  rw [scopeJobs, counters, gauges, List.filterMap_append, List.map_map, List.map_map, List.filterMap_map,
    List.filterMap_map, Scope.reports]
  congr 1
  · refine List.filterMap_congr fun e member => ?_
    have found : s.counters.get? e.1 = some e.2 := Table.get?_of_mem_entries (distinct.counters atScope) member
    simp only [Function.comp_apply, due, label?, counter?, atScope, Option.map_some, Option.bind_some, found]
  · refine List.filterMap_congr fun e member => ?_
    have found : s.gauges.get? e.1 = some e.2 := Table.get?_of_mem_entries (distinct.gauges atScope) member
    simp only [Function.comp_apply, due, label?, gauge?, atScope, Option.map_some, Option.bind_some, found]

theorem filterMap_scopeJobs_of_slot {β : Type} {e : Text × Option Scope} {f : Job → Option β} {g : Scope → List β}
    (distinct : t.Distinct) (member : e ∈ t.registry.slots.entries)
    (within : ∀ i s, t.scope? i = some s → (t.scopeJobs i).filterMap f = g s) :
    (t.scopeJobs e.1).filterMap f = e.2.toList.flatMap g := by
  have slot : t.registry.slots.get? e.1 = some e.2 := Table.get?_of_mem_entries distinct.identities member
  have found : t.scope? e.1 = e.2 := by
    rw [scope?, Registry.get?, slot, Option.join_some]
  cases known : e.2 with
  | some s =>
    rw [within e.1 s (found.trans known), Option.toList_some, List.flatMap_singleton]
  | none =>
    rw [scopeJobs, counterNames, gaugeNames, found, known]
    rfl

/-- What is found job by job in every scope is found, in the same order, scope by scope. -/
theorem filterMap_jobs_of {β : Type} {f : Job → Option β} {g : Scope → List β} (distinct : t.Distinct)
    (within : ∀ i s, t.scope? i = some s → (t.scopeJobs i).filterMap f = g s) :
    t.jobs.filterMap f = t.scopes.flatMap g := by
  have scopes : t.scopes = t.registry.slots.entries.flatMap (·.2.toList) := by
    simp only [Tree.scopes, Registry.values, Table.values, List.filterMap_eq_flatMap_toList, List.flatMap_map, id_eq]
  rw [jobs, identities, Table.keys, List.flatMap_map, List.filterMap_flatMap, scopes, List.flatMap_assoc]
  exact List.flatMap_congr fun e member => filterMap_scopeJobs_of_slot distinct member within

/-- The visits of a whole pass find all that there is to report, in order. -/
theorem filterMap_jobs (distinct : t.Distinct) : t.jobs.filterMap t.due = t.pending :=
  filterMap_jobs_of distinct fun _ _ => filterMap_scopeJobs distinct

/-- The tree with nothing left to report. -/
def settled (t : Tree) : Tree := t.jobs.foldl settle t

theorem collect_jobs (integral : t.Integral) (distinct : t.Distinct) :
    t.collect t.jobs = .ok (t.pending, t.settled) := by
  rw [collect_eq integral (fun _ => has_of_mem_jobs) (nodup_jobs distinct), filterMap_jobs distinct]
  rfl

theorem counter?_settled {h : Handle} : t.settled.counter? h = (t.counter? h).map Counter.settled := by
  rw [settled, counter?_settleAll]
  cases found : t.counter? h with
  | none => exact ite_self _
  | some c =>
    have there : t.Has (.counter h) := by
      rw [Has, found]
      rfl
    rw [if_pos (mem_jobs_of_has there)]

theorem gauge?_settled {h : Handle} : t.settled.gauge? h = (t.gauge? h).map Gauge.settled := by
  rw [settled, gauge?_settleAll]
  cases found : t.gauge? h with
  | none => exact ite_self _
  | some g =>
    have there : t.Has (.gauge h) := by
      rw [Has, found]
      rfl
    rw [if_pos (mem_jobs_of_has there)]

end Tree

end MetricTree
