import MetricTree.Proofs.OwedVisits

namespace MetricTree

open Course

namespace Tree

/-- A metric that a pass has not come to since: only what callers did to it has changed it. -/
structure Spared (t : Tree) (since : List Event) (u : Tree) (job : Job) : Prop where
  cell : Cell.Written job.handle since (t.cellAt job) (u.cellAt job)
  untold : told u job since = []

/-- A metric that a pass has come to once, with all that had happened before. What was due of it is told in a call right
then, and nothing else was told of it. -/
structure VisitedAt (t : Tree) (sooner later : List Event) (u : Tree) (job : Job) (x : Cell) : Prop where
  before : Cell.Written job.handle sooner (t.cellAt job) x
  untold : told u job sooner = []
  told : told u job later = x.due.toList
  called : x.due.isSome → ∃ a rest, later = .called a :: rest ∧ Course.told u job rest = []
  after : Cell.Written job.handle later x.settled (u.cellAt job)

def Visited (t : Tree) (since : List Event) (u : Tree) (job : Job) : Prop :=
  ∃ sooner later x, since = sooner ++ later ∧ t.VisitedAt sooner later u job x

variable {t u v : Tree} {since more : List Event} {job : Job} {been left jobs : List Job}

theorem filterMap_called (a : Activity) : [Event.called a].filterMap Event.observed? = a.observed?.toList := by
  rw [List.filterMap_cons, List.filterMap_nil]
  cases seen : a.observed? with
  | none => simp only [Event.observed?, seen, Option.toList_none]
  | some o => simp only [Event.observed?, seen, Option.toList_some]

theorem Spared.goOn (spared : t.Spared since u job)
    (names : ∀ seen ∈ since.filterMap Event.observed?, v.isOf job seen = u.isOf job seen)
    (written : Cell.Written job.handle more (u.cellAt job) (v.cellAt job)) (untold : Course.told v job more = []) :
    t.Spared (since ++ more) v job :=
  ⟨spared.cell.trans written, by rw [told_append, told_congr names, spared.untold, untold]; rfl⟩

/-- A pass does not come back to a metric. -/
theorem Visited.goOn (visited : t.Visited since u job)
    (names : ∀ seen ∈ since.filterMap Event.observed?, v.isOf job seen = u.isOf job seen)
    (written : Cell.Written job.handle more (u.cellAt job) (v.cellAt job)) (untold : Course.told v job more = []) :
    t.Visited (since ++ more) v job := by
  obtain ⟨sooner, later, x, rfl, fate⟩ := visited
  rw [List.filterMap_append, List.forall_mem_append] at names
  have still : Course.told v job (later ++ more) = Course.told u job later := by
    rw [told_append, told_congr names.2, untold, List.append_nil]
  refine ⟨sooner, later ++ more, x, List.append_assoc .., fate.before, ?_, still.trans fate.told, fun some => ?_,
    fate.after.trans written⟩
  · rw [told_congr names.1, fate.untold]
  · obtain ⟨a, rest, rfl, once⟩ := fate.called some
    refine ⟨a, rest ++ more, rfl, ?_⟩
    rw [told_append, told_congr fun seen member => names.2 seen (List.mem_filterMap.mpr ?_), once, untold]
    · rfl
    · obtain ⟨e, inRest, same⟩ := List.mem_filterMap.mp member
      exact ⟨e, List.mem_cons_of_mem _ inRest, same⟩

/-- A pass comes to a metric, and in the same breath calls the reporter. -/
theorem Spared.visited {a : Activity} {pre : List Event} (spared : t.Spared since u job)
    (names : ∀ seen ∈ since.filterMap Event.observed?, v.isOf job seen = u.isOf job seen)
    (noWrite : ∀ e ∈ pre, e.isWrite = false) (uncalled : pre.filterMap Event.observed? = [])
    (told : v.amountsOf job a.observed?.toList = (u.cellAt job).due.toList)
    (settled : v.cellAt job = (u.cellAt job).settled) : t.Visited (since ++ (pre ++ [Event.called a])) v job := by
  refine ⟨since ++ pre, [.called a], u.cellAt job, (List.append_assoc ..).symm, ?_, ?_, ?_, fun _ => ?_, ?_⟩
  · exact spared.cell.trans (.of_noWrite noWrite _)
  · rw [told_append, told_congr names, spared.untold, told_eq_nil uncalled]
    rfl
  · exact (congrArg (v.amountsOf job) (filterMap_called a)).trans told
  · exact ⟨a, [], rfl, rfl⟩
  · rw [settled]
    exact .of_noWrite (List.forall_mem_singleton.mpr rfl) _

/-- A pass that began over the tree `t` and has come to the tree `u` by what has happened since, with the metrics that
it has been to, and those that are left to it. -/
structure Toured (t : Tree) (since : List Event) (u : Tree) (been left : List Job) : Prop where
  apart : (been ++ left).Nodup
  there : ∀ job ∈ been ++ left, u.Has job
  all : ∀ job, t.Has job → job ∈ been ++ left
  known : ∀ seen ∈ since.filterMap Event.observed?, (u.scope? seen.1).isSome
  calls : ∀ seen ∈ since.filterMap Event.observed?, ∃ job ∈ been, u.isOf job seen = true
  spared : ∀ job, job ∉ been → t.Spared since u job
  visited : ∀ job ∈ been, t.Visited since u job

theorem Toured.begin (distinct : t.Distinct) : t.Toured [] t [] t.jobs where
  apart := nodup_jobs distinct
  there _ member := has_of_mem_jobs member
  all _ there := mem_jobs_of_has there
  known := nofun
  calls := nofun
  spared _ _ := ⟨.of_noWrite (List.forall_mem_nil _) _, rfl⟩
  visited := nofun

/-- What callers do meanwhile brings new metrics to visit, but does not take any away. -/
theorem Toured.meanwhile {others : List Job} (toured : t.Toured since u been left) (extended : v.Extends u)
    (written : ∀ job, Cell.Written job.handle more (u.cellAt job) (v.cellAt job))
    (uncalled : more.filterMap Event.observed? = []) (apart : others.Nodup) (there : ∀ job ∈ others, v.Has job)
    (keeps : ∀ job, u.Has job → (job ∈ others ↔ job ∈ left)) : t.Toured (since ++ more) v been others := by
  have calls : (since ++ more).filterMap Event.observed? = since.filterMap Event.observed? := by
    rw [List.filterMap_append, uncalled, List.append_nil]
  have names : ∀ job, ∀ seen ∈ since.filterMap Event.observed?, v.isOf job seen = u.isOf job seen :=
    fun job seen member => isOf_of_extends extended (toured.known seen member)
  obtain ⟨first, _, disjoint⟩ := List.nodup_append.mp toured.apart
  obtain ⟨beenThere, leftThere⟩ := List.forall_mem_append.mp toured.there
  refine ⟨List.nodup_append.mpr ⟨first, apart, ?_⟩, List.forall_mem_append.mpr ⟨?_, there⟩, fun job old => ?_, ?_, ?_,
    fun job spared => ?_, fun job visited => ?_⟩
  · rintro job visited _ later rfl
    exact disjoint job visited job ((keeps job (beenThere job visited)).mp later) rfl
  · exact fun job visited => (beenThere job visited).extends extended
  · rcases List.mem_append.mp (toured.all job old) with visited | later
    · exact List.mem_append_left _ visited
    · exact List.mem_append_right _ ((keeps job (leftThere job later)).mpr later)
  · rw [calls]
    exact fun seen member => extended.scope (toured.known seen member)
  · rw [calls]
    intro seen member
    obtain ⟨job, visited, isOf⟩ := toured.calls seen member
    exact ⟨job, visited, (names job seen member).trans isOf⟩
  · exact (toured.spared job spared).goOn (names job) (written job) (told_eq_nil uncalled)
  · exact (toured.visited job visited).goOn (names job) (written job) (told_eq_nil uncalled)

/-- What a tour finds is one of the metrics that it is to. -/
theorem Tour.found_isOf {seen : Text × Observation} (tour : u.Tour jobs (some seen) v) :
    ∃ job ∈ jobs, v.isOf job seen = true := by
  generalize same : some seen = found at tour
  induction tour with
  | done => cases same
  | idle _ _ ih =>
    obtain ⟨job, later, isOf⟩ := ih same
    exact ⟨job, List.mem_cons_of_mem _ later, isOf⟩
  | @find t u job o run =>
    cases same
    obtain ⟨there, due, rfl⟩ := visit_eq_ok run
    refine ⟨job, List.mem_singleton.mpr rfl, ?_⟩
    rw [isOf_congr fun _ => fullName?_settle]
    exact isOf_due there due.symm

/-- The pass goes on to its next find, or to its end, and calls the reporter. -/
theorem Toured.tour {a : Activity} {pre : List Event} (toured : t.Toured since u been (jobs ++ left))
    (tour : u.Tour jobs a.observed? v) (noWrite : ∀ e ∈ pre, e.isWrite = false)
    (uncalled : pre.filterMap Event.observed? = []) :
    t.Toured (since ++ (pre ++ [Event.called a])) v (been ++ jobs) left := by
  have extended := tour.extends
  have names : ∀ job, ∀ seen ∈ since.filterMap Event.observed?, v.isOf job seen = u.isOf job seen :=
    fun job seen member => isOf_of_extends extended (toured.known seen member)
  have apart : ((been ++ jobs) ++ left).Nodup := List.append_assoc been jobs left ▸ toured.apart
  have calls : (since ++ (pre ++ [Event.called a])).filterMap Event.observed? =
      since.filterMap Event.observed? ++ a.observed?.toList := by
    rw [List.filterMap_append, List.filterMap_append, uncalled, List.nil_append, filterMap_called]
  obtain ⟨_, others, disjoint⟩ := List.nodup_append.mp apart.of_append_left
  -- A metric that the tour does not come to is neither told of nor changed.
  have silent : ∀ job, job ∉ jobs → Course.told v job (pre ++ [Event.called a]) = [] := by
    intro job elsewhere
    rw [told_append, told_eq_nil uncalled, Course.told, filterMap_called, tour.amountsOf others, if_neg elsewhere]
    rfl
  have still : ∀ job, job ∉ jobs → Cell.Written job.handle (pre ++ [Event.called a]) (u.cellAt job) (v.cellAt job) := by
    intro job elsewhere
    rw [tour.cellAt others, if_neg elsewhere]
    exact .of_noWrite (List.forall_mem_append.mpr ⟨noWrite, List.forall_mem_singleton.mpr rfl⟩) _
  refine ⟨apart, ?_, ?_, ?_, ?_, fun job spared => ?_, fun job visited => ?_⟩
  · rw [List.append_assoc]
    exact fun job member => (toured.there job member).extends extended
  · rw [List.append_assoc]
    exact toured.all
  · rw [calls]
    refine List.forall_mem_append.mpr
      ⟨fun seen member => extended.scope (toured.known seen member), fun seen found => ?_⟩
    rw [Option.mem_toList] at found
    rw [found] at tour
    obtain ⟨job, here, isOf⟩ := tour.found_isOf
    have before : u.Has job := toured.there job (List.mem_append_right _ (List.mem_append_left _ here))
    have there : v.Has job := before.extends extended
    rw [(isOf_iff.mp isOf).1]
    exact Option.isSome_iff_exists.mpr (exists_scope?_of_has there)
  · rw [calls]
    refine List.forall_mem_append.mpr ⟨fun seen member => ?_, fun seen found => ?_⟩
    · obtain ⟨job, visited, isOf⟩ := toured.calls seen member
      exact ⟨job, List.mem_append_left _ visited, (names job seen member).trans isOf⟩
    · rw [Option.mem_toList] at found
      rw [found] at tour
      obtain ⟨job, here, isOf⟩ := tour.found_isOf
      exact ⟨job, List.mem_append_right _ here, isOf⟩
  · rw [List.mem_append, not_or] at spared
    exact (toured.spared job spared.1).goOn (names job) (still job spared.2) (silent job spared.2)
  · by_cases here : job ∈ jobs
    · have fresh : job ∉ been := fun old => disjoint job old job here rfl
      refine (toured.spared job fresh).visited (names job) noWrite uncalled ?_ ?_
      · rw [tour.amountsOf others, if_pos here]
      · rw [tour.cellAt others, if_pos here]
    · have old := (List.mem_append.mp visited).resolve_right here
      exact (toured.visited job old).goOn (names job) (still job here) (silent job here)

end Tree

end MetricTree
