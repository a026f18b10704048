import MetricTree.Proofs.PassSweep

namespace MetricTree

namespace Course

/-- What the reporter is told of a metric, with the identity of the metric's scope. -/
def Event.observed? : Event → Option (Text × Observation)
  | .called a => a.observed?
  | _ => none

/-- Is it something that callers did to a metric? -/
def Event.isWrite : Event → Bool
  | .added .. | .updated .. => true
  | _ => false

/-- What a step does to the tree, and what happens with it: what callers ask for and are granted, or
the visits of a pass up to what the reporter is told next. -/
inductive Effect (t : Tree) (step : Step) (events : List Event) (u : Tree) : Prop
  | granted {r : Request} (asked : step = .request r) (run : r.perform t = .ok (events, u))
  | sweep {found : Option (Text × Observation)} (sweep : t.Sweep found u)
      (calls : events.filterMap Event.observed? = found.toList) (noWrite : ∀ e ∈ events, e.isWrite = false)

theorem filterMap_told (notices : List Notice) :
    (notices.map Event.told).filterMap Event.observed? = [] := by
  rw [List.filterMap_eq_nil_iff]
  intro e member
  obtain ⟨notice, _, rfl⟩ := List.mem_map.mp member
  rfl

theorem filterMap_own (plan : Option Plan) (m : Move) :
    (own plan m).filterMap Event.observed? = m.observed?.toList := by
  have planned : ((plan.map Plan.events).getD []).filterMap Event.observed? = [] := by
    rcases plan with _ | _ | _ | _ <;> rfl
  have ended : m.ending.filterMap Event.observed? = m.observed?.toList := by
    unfold Move.ending Move.observed?
    rcases m.next with a | fault | answer
    · cases seen : a.observed? <;> simp only [List.filterMap_cons, Event.observed?, seen, List.filterMap_nil] <;> rfl
    · simp only
      split <;> rfl
    · rfl
  simp only [own, List.filterMap_append, filterMap_told, planned, ended, List.nil_append]

theorem isWrite_of_isOwn {e : Event} (own : e.isOwn = true) : e.isWrite = false := by
  cases e with
  | added | updated => cases own
  | _ => rfl

theorem noWrite_told {notices : List Notice} {e : Event} (member : e ∈ notices.map Event.told) :
    e.isWrite = false := by
  obtain ⟨notice, _, rfl⟩ := List.mem_map.mp member
  rfl

/-- A move does to the tree what the loop does, and tells the reporter of no other metric. -/
theorem move_effect {c : Course} {m : Move} (step : Step) (before : List Event) (plan : Option Plan)
    (sweep : c.loop.tree.Sweep m.observed? m.loop.tree) (quiet : before.filterMap Event.observed? = [])
    (noWrite : ∀ e ∈ before, e.isWrite = false) :
    ∃ events, (c.move before plan m).past = c.past ++ events ∧
      Effect c.loop.tree step events (c.move before plan m).loop.tree := by
  refine ⟨_, c.past_move before plan m, .sweep sweep ?_ ?_⟩
  · rw [List.filterMap_append, quiet, filterMap_own, List.nil_append]
  · exact List.forall_mem_append.mpr ⟨noWrite, fun e member => isWrite_of_isOwn (isOwn_of_own member)⟩

/-- Every step has one of the two effects. -/
theorem take_effect (c : Course) (step : Step) :
    ∃ events, (c.take step).past = c.past ++ events ∧
      Effect c.loop.tree step events (c.take step).loop.tree := by
  have still : Effect c.loop.tree step [] c.loop.tree := .sweep .stop rfl (fun e member => by cases member)
  cases step with
  | request r =>
    cases run : r.perform c.loop.tree with
    | error fault => exact ⟨[], by simp only [take, run, List.append_nil], by simpa only [take, run] using still⟩
    | ok done =>
      refine ⟨done.1, by simp only [take, run], ?_⟩
      simp only [take, run]
      exact .granted rfl run
  | start =>
    have sweep : c.loop.tree.Sweep none (c.take .start).loop.tree := by
      simp only [take, Loop.start]
      split
      · exact .stop
      · split <;> exact .stop
    exact ⟨c.loop.start.2.map .told, rfl, .sweep sweep (filterMap_told _) fun e => noWrite_told⟩
  | report => exact move_effect _ _ _ c.loop.report_sweeps rfl (fun e member => by cases member)
  | close =>
    refine move_effect _ _ _ c.loop.close_sweeps ?_ ?_
    · split <;> rfl
    · intro e member
      split at member
      · cases member
      · rw [List.mem_singleton.mp member]; rfl
  | outcome o =>
    cases waiting : c.waiting with
    | nil => exact ⟨[], by simp only [take, waiting, List.append_nil], by simpa only [take, waiting] using still⟩
    | cons a outer =>
      have effect := move_effect (c := { c with waiting := outer }) (.outcome o) [.came a o]
        (a.plan? c.loop o) (c.loop.resume_sweeps a o) rfl
        (fun e member => by rw [List.mem_singleton.mp member]; rfl)
      simpa only [take, waiting] using effect

/-- What holds of a tree at first, and is kept by requests that are granted and by the visits of passes, holds
throughout. -/
theorem tree_induction {P : Tree → Prop} {c : Course} {steps : List Step} (first : P c.loop.tree)
    (granted : ∀ {t u r events}, Request.perform t r = .ok (events, u) → P t → P u)
    (visited : ∀ {t u found}, t.Visit found u → P t → P u) : P (c.run steps).loop.tree := by
  refine run_induction (P := fun c => P c.loop.tree) first fun c step _ before => ?_
  obtain ⟨events, _, effect⟩ := c.take_effect step
  cases effect with
  | granted _ run => exact granted run before
  | sweep sweep => exact sweep.preserves visited before

end Course

end MetricTree
