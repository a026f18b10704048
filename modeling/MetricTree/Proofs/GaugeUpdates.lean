import MetricTree.Proofs.Cells

namespace MetricTree

open Course

namespace Tree

variable {t u : Tree} {h : Handle} {x : Binary64} {found : Option (Text × Observation)}

/-- A visit leaves a gauge that is still to be told as it is, or tells its value. -/
theorem Visit.owed_gauge (visit : t.Visit found u) (owed : t.gaugeAt h = ⟨x, true⟩) :
    u.gaugeAt h = ⟨x, true⟩ ∧ u.amountsOf (.gauge h) found.toList = [] ∨
      u.amountsOf (.gauge h) found.toList = [.float x] := by
  obtain ⟨job, there, rfl, rfl⟩ := visit.exists_job
  have told := amountsOf_due there (.gauge h)
  have names : ∀ k, (t.settle job).fullName? k = t.fullName? k := fun _ => fullName?_settle
  rw [← amountsOf_congr names] at told
  by_cases same : Job.gauge h = job
  · subst same
    rw [if_pos rfl, cellAt, owed] at told
    exact .inr told
  · have still : (t.settle job).cellAt (.gauge h) = t.cellAt (.gauge h) := by
      rw [cellAt_settle there, if_neg same]
    rw [if_neg same] at told
    exact .inl ⟨(Cell.gauge.inj still).trans owed, told⟩

theorem Sweep.owed_gauge (sweep : t.Sweep found u) (owed : t.gaugeAt h = ⟨x, true⟩) :
    u.gaugeAt h = ⟨x, true⟩ ∧ u.amountsOf (.gauge h) found.toList = [] ∨
      u.amountsOf (.gauge h) found.toList = [.float x] := by
  induction sweep with
  | stop => exact .inl ⟨owed, rfl⟩
  | pass visit _ ih =>
    rcases visit.owed_gauge owed with ⟨still, _⟩ | told
    · exact ih still
    · cases told
  | find visit => exact visit.owed_gauge owed

end Tree

namespace Course

/-- What became of an update of a gauge by what happened later: the reporter was told of it, or another update took its
place before. -/
inductive Delivered (t : Tree) (h : Handle) (x : Binary64) (later : List Event) : Prop
  | told {soon rest : List Event} (split : later = soon ++ rest) (latest : writes h soon = [])
      (told : told t (.gauge h) soon = [.float x])
  | replaced {soon rest : List Event} {y : Binary64} (split : later = soon ++ .updated h y :: rest)
      (latest : writes h soon = []) (untold : told t (.gauge h) soon = [])

/-- An update of a gauge that was the last one, and that the reporter is still to be told of. -/
structure Owed (t : Tree) (h : Handle) (x : Binary64) (later : List Event) : Prop where
  gauge : t.gaugeAt h = ⟨x, true⟩
  latest : writes h later = []
  untold : told t (.gauge h) later = []

/-- No update of a gauge is lost. -/
structure Lossless (c : Course) : Prop where
  registered : c.Registered
  updates : ∀ h x sooner later, c.past = sooner ++ .updated h x :: later →
    Delivered c.loop.tree h x later ∨ Owed c.loop.tree h x later

variable {c : Course} {t u : Tree} {h : Handle} {x : Binary64} {sooner later events : List Event}

theorem Delivered.append (delivered : Delivered t h x later)
    (names : ∀ seen ∈ later.filterMap Event.observed?, u.isOf (.gauge h) seen = t.isOf (.gauge h) seen)
    (events : List Event) : Delivered u h x (later ++ events) := by
  cases delivered with
  | @told soon rest split latest told =>
    subst split
    rw [List.filterMap_append, List.forall_mem_append] at names
    exact .told (List.append_assoc ..) latest ((told_congr names.1).trans told)
  | @replaced soon rest y split latest untold =>
    subst split
    rw [List.filterMap_append, List.forall_mem_append] at names
    exact .replaced (List.append_assoc ..) latest ((told_congr names.1).trans untold)

/-- What callers are granted leaves an update to be told, or is another one of the same gauge. -/
theorem Owed.granted (owed : Owed t h x later) (change : t.Change events u)
    (names : ∀ seen ∈ later.filterMap Event.observed?, u.isOf (.gauge h) seen = t.isOf (.gauge h) seen) :
    Delivered u h x (later ++ events) ∨ Owed u h x (later ++ events) := by
  have untold : told u (.gauge h) later = [] := (told_congr names).trans owed.untold
  have written := change.written (.gauge h)
  by_cases unwritten : writes h events = []
  · refine .inr ⟨?_, ?_, ?_⟩
    · rw [Tree.cellAt, owed.gauge] at written
      exact Cell.gauge.inj (written.gauge_eq unwritten)
    · rw [writes_append, owed.latest, unwritten, List.nil_append]
    · rw [told_append, untold, told_eq_nil (filterMap_granted change), List.nil_append]
  · cases change with
    | @updated k g y =>
      by_cases same : k = h
      · subst same
        exact .inl (.replaced rfl owed.latest untold)
      · exact absurd (writes_updated_other (Ne.symm same)) unwritten
    | _ => exact absurd rfl unwritten

/-- An update that was just granted is still to be told. -/
theorem Owed.of_change (change : t.Change events u) (split : events = sooner ++ .updated h x :: later) :
    Owed u h x later := by
  cases change with
  | updated found =>
    rcases List.singleton_eq_append_iff.mp split with ⟨_, one⟩ | ⟨_, none⟩
    · cases one
      refine ⟨?_, rfl, rfl⟩
      rw [Tree.gaugeAt, Tree.gauge?_setGauge (Tree.scope?_isSome_of_gauge? found), if_pos rfl, Option.getD_some]
    · cases none
  | added =>
    rcases List.singleton_eq_append_iff.mp split with ⟨_, one⟩ | ⟨_, none⟩
    · cases one
    · cases none
  | _ => cases (List.append_eq_nil_iff.mp split.symm).2

theorem Owed.sweep {found : Option (Text × Observation)} (owed : Owed t h x later) (sweep : t.Sweep found u)
    (calls : events.filterMap Event.observed? = found.toList) (noWrite : ∀ e ∈ events, e.isWrite = false)
    (names : ∀ seen ∈ later.filterMap Event.observed?, u.isOf (.gauge h) seen = t.isOf (.gauge h) seen) :
    Delivered u h x (later ++ events) ∨ Owed u h x (later ++ events) := by
  have latest : writes h (later ++ events) = [] := by
    rw [writes_append, owed.latest, writes_of_noWrite noWrite, List.nil_append]
  have all : told u (.gauge h) (later ++ events) = u.amountsOf (.gauge h) found.toList := by
    rw [told_append, told_congr names, owed.untold, List.nil_append, told.eq_1 _ _ events, calls]
  rcases sweep.owed_gauge owed.gauge with ⟨still, untold⟩ | told
  · exact .inr ⟨still, latest, all.trans untold⟩
  · exact .inl (.told (List.append_nil _).symm latest (all.trans told))

theorem Lossless.take {step : Step} (before : c.Lossless) : (c.take step).Lossless := by
  refine ⟨before.registered.take, fun h x sooner later split => ?_⟩
  obtain ⟨events, past, effect⟩ := c.take_effect step
  have extended : (c.take step).loop.tree.Extends c.loop.tree := by
    cases effect with
    | granted asked run => exact (Request.perform_change run).extends
    | sweep sweep => exact sweep.extends
  have now : ∀ first, events = first ++ .updated h x :: later →
      Delivered (c.take step).loop.tree h x later ∨ Owed (c.take step).loop.tree h x later := by
    intro first here
    cases effect with
    | granted asked run => exact .inr (.of_change (Request.perform_change run) here)
    | sweep _ _ noWrite => cases noWrite (.updated h x) (here ▸ List.mem_append_right _ (List.mem_cons_self ..))
  -- The update was made in this step, or had been made before it.
  rcases List.append_eq_append_iff.mp (past.symm.trans split) with ⟨first, _, here⟩ | ⟨rest, old, grown⟩
  · exact now first here
  · rcases List.cons_eq_append_iff.mp grown with ⟨_, here⟩ | ⟨rest, rfl, rfl⟩
    · exact now [] here
    · have names : ∀ seen ∈ rest.filterMap Event.observed?,
          (c.take step).loop.tree.isOf (.gauge h) seen = c.loop.tree.isOf (.gauge h) seen := by
        intro seen member
        refine Tree.isOf_of_extends extended (before.registered seen ?_)
        rw [old, List.filterMap_append]
        exact List.mem_append_right _ member
      rcases before.updates h x sooner rest old with delivered | owed
      · exact .inl (delivered.append names events)
      · cases effect with
        | granted asked run => exact owed.granted (Request.perform_change run) names
        | sweep sweep calls noWrite => exact owed.sweep sweep calls noWrite names

theorem lossless_run (o : Opening) (steps : List Step) : ((Course.opened o).run steps).Lossless := by
  refine run_induction (P := Lossless) ⟨registered_opened o, fun h x sooner later split => ?_⟩
    fun c step _ before => before.take
  have member : .updated h x ∈ (Course.opened o).past := split ▸ List.mem_append_right _ (List.mem_cons_self ..)
  cases noWrite_told member

end Course

end MetricTree
