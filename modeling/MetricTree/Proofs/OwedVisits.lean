import MetricTree.Proofs.PassTours

namespace MetricTree

/-- Is it a metric that a pass will visit in the scope that it is in? Gauges that are made until the counters are done
are among them. -/
def Cursor.Owes : Cursor → Job → Prop
  | .counters i names, .counter h => h.scope = i ∧ h.name ∈ names
  | .counters i _, .gauge h => h.scope = i
  | .gauges _ _, .counter _ => False
  | .gauges i names, .gauge h => h.scope = i ∧ h.name ∈ names

/-- Is it a metric that a pass will visit, if it is there by then? -/
def Pass.Owes (p : Pass) (job : Job) : Prop := p.cursor.Owes job ∨ job.scope ∈ p.waiting

theorem Cursor.Owes.scope {cursor : Cursor} {job : Job} (owes : cursor.Owes job) : job.scope = cursor.scope := by
  cases cursor with
  | counters i names => cases job with | counter h => exact owes.1 | gauge h => exact owes
  | gauges i names => cases job with | counter h => cases owes | gauge h => exact owes.1

namespace Tree

variable {t u : Tree} {p : Pass} {job : Job} {i : Text}

theorem owes_of_mem_cursorJobs {cursor : Cursor} (member : job ∈ cursor.jobs t) : cursor.Owes job := by
  cases cursor with
  | counters i names =>
    rcases List.mem_append.mp member with counter | gauge
    · obtain ⟨name, known, rfl⟩ := List.mem_map.mp counter
      exact ⟨rfl, known⟩
    · obtain ⟨name, known, rfl⟩ := List.mem_map.mp gauge
      exact (rfl : i = i)
  | gauges i names =>
    obtain ⟨name, known, rfl⟩ := List.mem_map.mp member
    exact ⟨rfl, known⟩

theorem owes_of_mem_jobs (member : job ∈ p.jobs t) : p.Owes job := by
  rcases List.mem_append.mp member with here | later
  · exact .inl (owes_of_mem_cursorJobs here)
  · obtain ⟨i, awaits, inScope⟩ := List.mem_flatMap.mp later
    exact .inr (scope_of_mem_scopeJobs inScope ▸ awaits)

theorem mem_jobs_of_owes (owes : p.Owes job) (there : t.Has job) : job ∈ p.jobs t := by
  obtain ⟨waiting, cursor, tally⟩ := p
  rcases owes with here | later
  · refine List.mem_append_left _ ?_
    cases cursor with
    | counters i names =>
      cases job with
      | counter h =>
        obtain ⟨rfl, known⟩ := here
        exact List.mem_append_left _ (List.mem_map.mpr ⟨h.name, known, rfl⟩)
      | gauge h =>
        cases here
        exact List.mem_append_right _ (List.mem_map.mpr ⟨h.name, mem_gaugeNames_of_gauge? there, rfl⟩)
    | gauges i names =>
      cases job with
      | counter h => cases here
      | gauge h =>
        obtain ⟨rfl, known⟩ := here
        exact List.mem_map.mpr ⟨h.name, known, rfl⟩
  · exact List.mem_append_right _ (List.mem_flatMap.mpr ⟨_, later, mem_scopeJobs_of_has there⟩)

theorem scope_mem_of_mem_jobs (member : job ∈ p.jobs t) : job.scope ∈ p.scopes := by
  rcases owes_of_mem_jobs member with here | later
  · exact List.mem_cons.mpr (.inl here.scope)
  · exact List.mem_cons_of_mem _ later

/-- A pass goes on to visit what it was to visit, while callers make new metrics and scopes. -/
theorem mem_jobs_iff_of_has (extended : u.Extends t) (there : t.Has job) : job ∈ p.jobs u ↔ job ∈ p.jobs t := by
  exact ⟨fun member => mem_jobs_of_owes (owes_of_mem_jobs member) there,
    fun member => mem_jobs_of_owes (owes_of_mem_jobs member) (there.extends extended)⟩

theorem has_of_mem_passJobs (within : ∀ job ∈ p.jobs t, t.Has job) (extended : u.Extends t)
    (member : job ∈ p.jobs u) : u.Has job := by
  obtain ⟨waiting, cursor, tally⟩ := p
  rcases List.mem_append.mp member with here | later
  · cases cursor with
    | counters i names =>
      rcases List.mem_append.mp here with counter | gauge
      · obtain ⟨name, known, rfl⟩ := List.mem_map.mp counter
        exact extended.counters (within _ (List.mem_append_left _ (List.mem_append_left _ counter)))
      · obtain ⟨name, known, rfl⟩ := List.mem_map.mp gauge
        exact u.gaugeNames_within i name known
    | gauges i names =>
      obtain ⟨name, known, rfl⟩ := List.mem_map.mp here
      exact extended.gauges (within _ (List.mem_append_left _ here))
  · obtain ⟨i, _, inScope⟩ := List.mem_flatMap.mp later
    exact has_of_mem_scopeJobs inScope

theorem nodup_passJobs (distinct : u.Distinct) (scopes : p.scopes.Nodup) (apart : (p.jobs t).Nodup) :
    (p.jobs u).Nodup := by
  obtain ⟨waiting, cursor, tally⟩ := p
  obtain ⟨elsewhere, others⟩ := List.nodup_cons.mp scopes
  have names : cursor.names.Nodup := by
    cases cursor with
    | counters i names => exact (apart.of_append_left.of_append_left).of_map
    | gauges i names => exact apart.of_append_left.of_map
  refine List.nodup_append.mpr ⟨nodup_cursorJobs distinct _ names, nodup_flatMap_scopeJobs distinct others, ?_⟩
  rintro job here _ later rfl
  obtain ⟨i, awaits, inScope⟩ := List.mem_flatMap.mp later
  exact elsewhere ((owes_of_mem_cursorJobs here).scope ▸ scope_of_mem_scopeJobs inScope ▸ awaits)

end Tree

end MetricTree
