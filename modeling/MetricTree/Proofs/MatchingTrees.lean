import Mathlib.Data.List.Perm.Basic
import Mathlib.Data.List.TakeWhile
import MetricTree.Proofs.GentleReporters
import MetricTree.Proofs.ProperRuns

namespace MetricTree

open Identity

/-- Of two lists that go through the same in the same order, each with something of its own in between that is let
through, the same is left up to the first that is not let through, if the one has the same in between as the other. -/
theorem filterMap_takeWhile_perm {ι α β : Type} {p : α → Bool} {f : α → Option β} {kept left right : ι → List α}
    {ends others : List α} (order : List ι)
    (within : ∀ i ∈ order, ((left i).filterMap f).Perm ((right i).filterMap f))
    (through : ∀ i, (∀ a ∈ left i, p a = true) ∧ ∀ a ∈ right i, p a = true)
    (last : (ends.filterMap f).Perm (others.filterMap f)) (lastThrough : ∀ a ∈ ends, p a = true)
    (othersThrough : ∀ a ∈ others, p a = true) :
    (((order.flatMap fun i => kept i ++ left i) ++ ends).takeWhile p).filterMap f |>.Perm
      ((((order.flatMap fun i => kept i ++ right i) ++ others).takeWhile p).filterMap f) := by
  induction order with
  | nil =>
    simp only [List.flatMap_nil, List.nil_append]
    rwa [List.takeWhile_eq_self_iff.mpr lastThrough, List.takeWhile_eq_self_iff.mpr othersThrough]
  | cons i rest ih =>
    obtain ⟨same, later⟩ := List.forall_mem_cons.mp within
    simp only [List.flatMap_cons, List.append_assoc] at ih ⊢
    by_cases all : ∀ a ∈ kept i, p a = true
    · rw [List.takeWhile_append_of_pos all, List.takeWhile_append_of_pos all,
        List.takeWhile_append_of_pos (through i).1, List.takeWhile_append_of_pos (through i).2]
      simp only [List.filterMap_append]
      exact (same.append (ih later)).append_left _
    · have stops : ∀ more, (kept i ++ more).takeWhile p = (kept i).takeWhile p := by
        intro more
        rw [List.takeWhile_append, if_neg]
        intro whole
        exact all (List.takeWhile_eq_self_iff.mp ((List.takeWhile_prefix p).eq_of_length whole))
      rw [stops, stops]

/-- An observation with its tags in the order of their keys. Tags are the same, whatever order they are kept in. -/
def Observation.canonical : Observation → Observation
  | .counter name tags delta => .counter name ⟨sortedPairs tags⟩ delta
  | .gauge name tags value => .gauge name ⟨sortedPairs tags⟩ value

namespace Tree

variable {t u v : Tree} {h : Handle} {i : Text} {job : Job}

theorem mem_counterNames_iff : h.name ∈ t.counterNames h.scope ↔ (t.counter? h).isSome :=
  ⟨fun member => t.counterNames_within h.scope h.name member, mem_counterNames_of_counter?⟩

/-- Where gauges count for nothing, the order of counters is all there is to a scope. -/
theorem filterMap_jobs_perm {β : Type} {f : Job → Option β} (gauges : ∀ h, f (.gauge h) = none)
    {names others : List Text} (order : names.Perm others) (i : Text) (seen unseen : List Text) :
    ((names.map (Job.counter ⟨i, ·⟩) ++ seen.map (Job.gauge ⟨i, ·⟩)).filterMap f).Perm
      ((others.map (Job.counter ⟨i, ·⟩) ++ unseen.map (Job.gauge ⟨i, ·⟩)).filterMap f) := by
  have silent : ∀ names : List Text, (names.map fun name => Job.gauge ⟨i, name⟩).filterMap f = [] := by
    intro names
    rw [List.filterMap_map]
    exact List.filterMap_eq_nil_iff.mpr fun name _ => gauges _
  rw [List.filterMap_append, List.filterMap_append, silent, silent, List.append_nil, List.append_nil]
  exact (order.map _).filterMap _

/-- More scopes and counters came to a tree. Those counters hold integers. -/
structure Grows (t u : Tree) : Prop where
  proper : u.Proper
  distinct : u.Distinct
  retains : u.Retains t
  follows : u.Follows t
  integers : ∀ h, t.counter? h = none → ∀ c, u.counter? h = some c → ∃ m k : Int, c = ⟨.int m, .int k⟩

/-- Two trees to which the same came, in whatever order. -/
structure Matches (t u v : Tree) : Prop where
  left : t.Grows u
  right : t.Grows v
  identities : u.identities.Perm v.identities
  counters : ∀ h, u.counter? h = v.counter? h

theorem Grows.tellable (grows : t.Grows u) (new : t.counter? h = none) : u.tellable (.counter h) = true := by
  rw [Tree.tellable, counterAt]
  cases there : u.counter? h with
  | none => rfl
  | some c =>
    obtain ⟨m, k, rfl⟩ := grows.integers h new c there
    rfl

/-- What a pass over the grown tree visits in a scope after the counters that were there. -/
def later (t u : Tree) (i : Text) : List Job :=
  ((u.counterNames i).drop (t.counterNames i).length).map (.counter ⟨i, ·⟩) ++ (u.gaugeNames i).map (.gauge ⟨i, ·⟩)

/-- The scopes that came to a tree. -/
def newScopes (t u : Tree) : List Text := u.identities.drop t.identities.length

namespace Grows

variable (grows : t.Grows u)
include grows

theorem append_newScopes : t.identities ++ t.newScopes u = u.identities :=
  List.prefix_iff_eq_append.mp grows.follows.identities

theorem append_newCounters (i : Text) :
    t.counterNames i ++ (u.counterNames i).drop (t.counterNames i).length = u.counterNames i :=
  List.prefix_iff_eq_append.mp (grows.follows.counters i)

theorem jobs : u.jobs = (t.identities.flatMap fun i => (t.counterNames i).map (.counter ⟨i, ·⟩) ++ t.later u i) ++
    (t.newScopes u).flatMap u.scopeJobs := by
  rw [Tree.jobs, ← grows.append_newScopes, List.flatMap_append]
  refine congrArg (· ++ _) (List.flatMap_congr fun i _ => ?_)
  rw [scopeJobs, ← grows.append_newCounters, List.map_append, List.append_assoc]
  rfl

/-- What is new can be told. -/
theorem tellable_of_mem_later (member : job ∈ t.later u i) : u.tellable job = true := by
  rcases List.mem_append.mp member with counter | gauge
  · obtain ⟨name, added, rfl⟩ := List.mem_map.mp counter
    refine grows.tellable (Option.not_isSome_iff_eq_none.mp fun there => ?_)
    have apart := nodup_counterNames grows.distinct i
    rw [← grows.append_newCounters, List.nodup_append'] at apart
    exact apart.2.2 (mem_counterNames_of_counter? there) added
  · obtain ⟨name, _, rfl⟩ := List.mem_map.mp gauge
    rfl

theorem tellable_of_mem_newScopes (member : job ∈ (t.newScopes u).flatMap u.scopeJobs) : u.tellable job = true := by
  obtain ⟨i, added, within⟩ := List.mem_flatMap.mp member
  cases job with
  | gauge h => rfl
  | counter h =>
    obtain rfl : h.scope = i := scope_of_mem_scopeJobs within
    refine grows.tellable (Option.not_isSome_iff_eq_none.mp fun there => ?_)
    obtain ⟨c, found⟩ := Option.isSome_iff_exists.mp there
    obtain ⟨s, atScope⟩ := Option.isSome_iff_exists.mp (scope?_isSome_of_counter? found)
    have apart := grows.distinct.identities
    rw [← grows.append_newScopes, List.nodup_append'] at apart
    exact apart.2.2 (mem_identities_of_scope? atScope) added

end Grows

namespace Matches

variable (matched : t.Matches u v)
include matched

theorem counterNames (i : Text) : (u.counterNames i).Perm (v.counterNames i) := by
  refine (List.perm_ext_iff_of_nodup (nodup_counterNames matched.left.distinct i)
    (nodup_counterNames matched.right.distinct i)).mpr fun name => ?_
  rw [mem_counterNames_iff (h := ⟨i, name⟩), mem_counterNames_iff (h := ⟨i, name⟩), matched.counters]

theorem newCounters (i : Text) : ((u.counterNames i).drop (t.counterNames i).length).Perm
    ((v.counterNames i).drop (t.counterNames i).length) := by
  rw [← List.perm_append_left_iff, matched.left.append_newCounters, matched.right.append_newCounters]
  exact matched.counterNames i

theorem newScopes : (t.newScopes u).Perm (t.newScopes v) := by
  rw [← List.perm_append_left_iff, matched.left.append_newScopes, matched.right.append_newScopes]
  exact matched.identities

theorem tellable : u.tellable = v.tellable := by
  funext job
  cases job with
  | gauge h => rfl
  | counter h => rw [Tree.tellable, Tree.tellable, counterAt, counterAt, matched.counters]

/-- A scope is made of the same in the one tree as in the other, but for the order of its tags. -/
theorem label (h : Handle) : (u.label? h).map (Prod.map id sortedPairs) =
    (v.label? h).map (Prod.map id sortedPairs) := by
  have separator := matched.left.retains.separator.trans matched.right.retains.separator.symm
  cases atScope : u.scope? h.scope with
  | none =>
    have unknown : v.scope? h.scope = none := by
      refine Option.not_isSome_iff_eq_none.mp fun there => ?_
      obtain ⟨r, there⟩ := Option.isSome_iff_exists.mp there
      have filled := matched.left.proper.filled h.scope
        (matched.identities.mem_iff.mpr (mem_identities_of_scope? there))
      rw [atScope] at filled
      cases filled
    rw [label?, label?, atScope, unknown]
    rfl
  | some s =>
    have filled := matched.right.proper.filled h.scope
      (matched.identities.mem_iff.mp (mem_identities_of_scope? atScope))
    obtain ⟨r, there⟩ := Option.isSome_iff_exists.mp filled
    have one := matched.left.proper.scopes atScope
    have other := matched.right.proper.scopes there
    have same := (matched.left.proper.identity atScope).symm.trans (matched.right.proper.identity there)
    obtain ⟨stem, tags⟩ := (encode_eq_encode_iff one.stem other.stem one.tags other.tags one.distinct
      other.distinct).mp same
    have sorted := (sortedPairs_eq_iff one.distinct other.distinct).mpr tags
    simp only [label?, atScope, there, Option.map_some, Prod.map, Scope.qualify, stem, sorted, separator]

theorem due (h : Handle) :
    (u.due (.counter h)).map Observation.canonical = (v.due (.counter h)).map Observation.canonical := by
  have labelled : ∀ t : Tree, (t.due (.counter h)).map Observation.canonical =
      ((t.label? h).map (Prod.map id sortedPairs)).bind fun label => (t.counterAt h).report label.1 ⟨label.2⟩ := by
    intro t
    rw [due_counter]
    cases t.label? h with
    | none => rfl
    | some label => exact Option.map_map ..
  rw [labelled, labelled, matched.label, counterAt, counterAt, matched.counters]

/-- The counters that a pass is to report are the same, but for their order. -/
theorem dues : (((u.dues u.jobs).filter Observation.isCounter).map Observation.canonical).Perm
    (((v.dues v.jobs).filter Observation.isCounter).map Observation.canonical) := by
  have alike : (fun job => (u.dueCounter job).map Observation.canonical) =
      fun job => (v.dueCounter job).map Observation.canonical := by
    funext job
    cases job with
    | gauge h => rfl
    | counter h => exact matched.due h
  rw [filter_dues, filter_dues, List.map_filterMap, List.map_filterMap, alike, matched.tellable, matched.left.jobs,
    matched.right.jobs]
  have gauges : ∀ h, (v.dueCounter (.gauge h)).map Observation.canonical = none := fun _ => rfl
  refine filterMap_takeWhile_perm _ (fun i _ => filterMap_jobs_perm gauges (matched.newCounters i) i _ _)
    (fun i => ⟨?_, ?_⟩) ?_ ?_ ?_
  · exact fun job member => matched.tellable ▸ matched.left.tellable_of_mem_later member
  · exact fun job member => matched.right.tellable_of_mem_later member
  · rw [List.filterMap_flatMap, List.filterMap_flatMap]
    exact matched.newScopes.flatMap fun i _ => filterMap_jobs_perm gauges (matched.counterNames i) i _ _
  · exact fun job member => matched.tellable ▸ matched.left.tellable_of_mem_newScopes member
  · exact fun job member => matched.right.tellable_of_mem_newScopes member

end Matches

end Tree

end MetricTree
