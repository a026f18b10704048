import MetricTree.Proofs.PassVisits

namespace MetricTree

namespace Course

/-- What happens in the course of a tree's use, with the visits that passes make to metrics. -/
inductive Moment where
  | event (e : Event)
  | visit (job : Job)

def Moment.event? : Moment → Option Event
  | .event e => some e
  | .visit _ => none

/-- The events among what happens. -/
def eventsOf (moments : List Moment) : List Event := moments.filterMap Moment.event?

/-- What happens in a move. The metrics are visited before it ends. -/
def movement (c : Course) (before : List Event) (plan : Option Plan) (m : Move) (jobs : List Job) : List Moment :=
  (before ++ m.notices.map Event.told ++ (plan.map Plan.events).getD []).map .event ++
    ((c.loop.tree.visits jobs).map .visit ++ m.ending.map .event)

/-- What happens when a step is taken. -/
def moments (c : Course) : Step → List Moment
  | .request r =>
    match r.perform c.loop.tree with
    | .ok (events, _) => events.map .event
    | .error _ => []
  | .start => (c.loop.start.2.map Event.told).map .event
  | .report => c.movement [] (some c.loop.planReport) c.loop.report (c.loop.planReport.jobs c.loop.tree)
  | .close =>
    c.movement (if c.loop.phase.isOver then [] else [.closing]) (some c.loop.planClose) c.loop.close
      (c.loop.planClose.jobs c.loop.tree)
  | .outcome o =>
    match c.waiting with
    | [] => []
    | a :: _ => c.movement [.came a o] (a.plan? c.loop o) (c.loop.resume a o) (a.jobs c.loop o)

def momentsOf (c : Course) : List Step → List Moment
  | [] => []
  | step :: rest => c.moments step ++ (c.take step).momentsOf rest

/-- All that happens to a tree from its opening on. -/
def history (o : Opening) (steps : List Step) : List Moment :=
  (Course.opened o).past.map .event ++ (Course.opened o).momentsOf steps

variable {c : Course} {t u v : Tree} {events : List Event} {sooner later : List Moment}

theorem eventsOf_append (sooner later : List Moment) : eventsOf (sooner ++ later) = eventsOf sooner ++ eventsOf later :=
  List.filterMap_append

theorem eventsOf_events (events : List Event) : eventsOf (events.map .event) = events := by
  rw [eventsOf, List.filterMap_map]
  exact List.filterMap_some

theorem eventsOf_visits (jobs : List Job) : eventsOf (jobs.map .visit) = [] := by
  rw [eventsOf, List.filterMap_map]
  exact List.filterMap_eq_nil_iff.mpr fun _ _ => rfl

theorem eventsOf_movement (c : Course) (before : List Event) (plan : Option Plan) (m : Move) (jobs : List Job) :
    eventsOf (c.movement before plan m jobs) = before ++ own plan m := by
  rw [movement, eventsOf_append, eventsOf_append, eventsOf_events, eventsOf_events, eventsOf_visits, List.nil_append,
    own]
  simp only [List.append_assoc]

/-- The visits come on top of what is known to have happened. -/
theorem past_take (c : Course) (step : Step) : (c.take step).past = c.past ++ eventsOf (c.moments step) := by
  cases step with
  | request r =>
    cases run : r.perform c.loop.tree with
    | error fault => simp only [take, moments, run, eventsOf, List.filterMap_nil, List.append_nil]
    | ok done => simp only [take, moments, run, eventsOf_events]
  | start => exact congrArg (c.past ++ ·) (eventsOf_events _).symm
  | report => exact (c.past_move _ _ _).trans (congrArg (c.past ++ ·) (c.eventsOf_movement _ _ _ _).symm)
  | close => exact (c.past_move _ _ _).trans (congrArg (c.past ++ ·) (c.eventsOf_movement _ _ _ _).symm)
  | outcome o =>
    cases waiting : c.waiting with
    | nil => simp only [take, moments, waiting, eventsOf, List.filterMap_nil, List.append_nil]
    | cons a outer =>
      simp only [take, moments, waiting, eventsOf_movement]
      exact past_move _ _ _ _

theorem past_run (c : Course) (steps : List Step) : (c.run steps).past = c.past ++ eventsOf (c.momentsOf steps) := by
  induction steps generalizing c with
  | nil => exact (List.append_nil _).symm
  | cons step rest ih =>
    rw [momentsOf, eventsOf_append, ← List.append_assoc, ← past_take]
    exact ih (c.take step)

theorem eventsOf_history (o : Opening) (steps : List Step) :
    eventsOf (history o steps) = ((Course.opened o).run steps).past := by
  rw [past_run, history, eventsOf_append, eventsOf_events]

/-- Does it neither write a metric nor tell the reporter of one? -/
def Event.isCalm (e : Event) : Bool := !e.isWrite && e.observed?.isNone

theorem Event.isCalm_iff {e : Event} : e.isCalm = true ↔ e.isWrite = false ∧ e.observed? = none := by
  simp only [isCalm, Bool.and_eq_true, Bool.not_eq_true', Option.isNone_iff_eq_none]

/-- How a tree goes on: something happens that does not concern its metrics, callers change it, a visit finds nothing,
or one finds something and the reporter is told of it at once. -/
inductive Proceeds : Tree → List Moment → Tree → Prop
  | done {t : Tree} : Proceeds t [] t
  | calm {t u : Tree} {e : Event} {rest : List Moment} (calm : e.isCalm = true) (later : Proceeds t rest u) :
      Proceeds t (.event e :: rest) u
  | change {t u v : Tree} {events : List Event} {rest : List Moment} (change : t.Change events u)
      (later : Proceeds u rest v) : Proceeds t (events.map .event ++ rest) v
  | idle {t u : Tree} {job : Job} {rest : List Moment} (there : t.Has job) (undue : t.due job = none)
      (later : Proceeds (t.settle job) rest u) : Proceeds t (.visit job :: rest) u
  | find {t u : Tree} {job : Job} {o : Observation} {a : Activity} {rest : List Moment} (there : t.Has job)
      (due : t.due job = some o) (told : a.observed? = some (job.scope, o)) (later : Proceeds (t.settle job) rest u) :
      Proceeds t (.visit job :: .event (.called a) :: rest) u

theorem Proceeds.trans (first : Proceeds t sooner u) (rest : Proceeds u later v) : Proceeds t (sooner ++ later) v := by
  induction first with
  | done => exact rest
  | calm calm _ ih => exact .calm calm (ih rest)
  | change change _ ih => exact List.append_assoc .. ▸ .change change (ih rest)
  | idle there undue _ ih => exact .idle there undue (ih rest)
  | find there due told _ ih => exact .find there due told (ih rest)

theorem Proceeds.of_calm (calm : ∀ e ∈ events, e.isCalm = true) : Proceeds t (events.map .event) t := by
  induction events with
  | nil => exact .done
  | cons e rest ih =>
    obtain ⟨first, others⟩ := List.forall_mem_cons.mp calm
    exact .calm first (ih others)

theorem isCalm_of_mem_ending {m : Move} {e : Event} (member : e ∈ m.ending) (untold : m.observed? = none) :
    e.isCalm = true := by
  unfold Move.ending at member
  unfold Move.observed? at untold
  rcases next : m.next with a | fault | answer <;> rw [next] at member untold
  · rw [List.mem_singleton.mp member, Event.isCalm, Event.observed?, show a.observed? = none from untold]
    rfl
  · simp only at member
    split at member
    · rw [List.mem_singleton.mp member]
      rfl
    · rcases List.mem_pair.mp member with rfl | rfl <;> rfl
  · rw [List.mem_singleton.mp member]
    rfl

theorem ending_of_observed? {m : Move} {seen : Text × Observation} (told : m.observed? = some seen) :
    ∃ a, m.ending = [.called a] ∧ a.observed? = some seen := by
  unfold Move.observed? at told
  unfold Move.ending
  rcases next : m.next with a | answer <;> rw [next] at told
  · exact ⟨a, rfl, told⟩
  · cases told

/-- The end of a move tells the reporter of what was found, and of nothing else. -/
theorem Proceeds.of_tour {jobs : List Job} {m : Move} (tour : t.Tour jobs m.observed? u) :
    Proceeds t (jobs.map .visit ++ m.ending.map .event) u := by
  generalize same : m.observed? = found at tour
  induction tour with
  | done => exact .of_calm fun e member => isCalm_of_mem_ending member same
  | idle run _ ih =>
    obtain ⟨there, undue, rfl⟩ := Tree.visit_eq_ok run
    exact .idle there undue.symm (ih same)
  | find run =>
    obtain ⟨there, due, rfl⟩ := Tree.visit_eq_ok run
    obtain ⟨a, ending, told⟩ := ending_of_observed? same
    rw [ending]
    exact .find there due.symm told .done

theorem Proceeds.of_movement {before : List Event} {plan : Option Plan} {m : Move} {jobs : List Job}
    (calm : ∀ e ∈ before, e.isCalm = true) (tour : c.loop.tree.Tour (c.loop.tree.visits jobs) m.observed? u) :
    Proceeds c.loop.tree (c.movement before plan m jobs) u := by
  refine (of_calm ?_).trans (of_tour tour)
  refine List.forall_mem_append.mpr ⟨List.forall_mem_append.mpr ⟨calm, fun e member => ?_⟩, fun e member => ?_⟩
  · obtain ⟨notice, _, rfl⟩ := List.mem_map.mp member
    rfl
  · rcases plan with _ | duty | _ | _
    · cases member
    · rw [List.mem_singleton.mp member]
      rfl
    · cases member
    · cases member

theorem take_proceeds (c : Course) (step : Step) : Proceeds c.loop.tree (c.moments step) (c.take step).loop.tree := by
  cases step with
  | request r =>
    cases run : r.perform c.loop.tree with
    | error fault =>
      simp only [take, moments, run]
      exact .done
    | ok done =>
      have change := Proceeds.change (Request.perform_change run) .done
      rw [List.append_nil] at change
      simp only [take, moments, run]
      exact change
  | start =>
    have same : (c.take .start).loop.tree = c.loop.tree := by
      simp only [take, Loop.start]
      split
      · rfl
      · split <;> rfl
    rw [same]
    refine .of_calm fun e member => ?_
    obtain ⟨notice, _, rfl⟩ := List.mem_map.mp member
    rfl
  | report => exact .of_movement (List.forall_mem_nil _) c.loop.report_tour
  | close =>
    refine .of_movement (fun e member => ?_) c.loop.close_tour
    split at member
    · cases member
    · rw [List.mem_singleton.mp member]
      rfl
  | outcome o =>
    cases waiting : c.waiting with
    | nil =>
      simp only [take, moments, waiting]
      exact .done
    | cons a outer =>
      simp only [take, moments, waiting]
      exact .of_movement (List.forall_mem_singleton.mpr rfl) (c.loop.resume_tour a o)

theorem run_proceeds (c : Course) (steps : List Step) :
    Proceeds c.loop.tree (c.momentsOf steps) (c.run steps).loop.tree := by
  induction steps generalizing c with
  | nil => exact .done
  | cons step rest ih => exact (c.take_proceeds step).trans (ih (c.take step))

/-- What holds at first, and is kept however the tree goes on, holds throughout. -/
theorem Proceeds.induction {P : List Moment → Tree → Prop} (proceeds : Proceeds t later u) (first : P sooner t)
    (calm : ∀ {t past e}, Event.isCalm e = true → P past t → P (past ++ [.event e]) t)
    (change : ∀ {t u past events}, t.Change events u → P past t → P (past ++ events.map .event) u)
    (idle : ∀ {t past job}, t.Has job → t.due job = none → P past t → P (past ++ [.visit job]) (t.settle job))
    (find : ∀ {t past job o a}, t.Has job → t.due job = some o → a.observed? = some (job.scope, o) → P past t →
      P (past ++ [.visit job, .event (.called a)]) (t.settle job)) : P (sooner ++ later) u := by
  induction proceeds generalizing sooner with
  | done => exact (List.append_nil sooner).symm ▸ first
  | calm quiet _ ih => exact List.append_cons .. ▸ ih (calm quiet first)
  | change changes _ ih => exact List.append_assoc .. ▸ ih (change changes first)
  | idle there undue _ ih => exact List.append_cons .. ▸ ih (idle there undue first)
  | find there due told _ ih =>
    have later := ih (find there due told first)
    rwa [List.append_assoc] at later

end Course

end MetricTree
