import Mathlib.Data.List.Induction
import MetricTree.Proofs.NameOrder
import MetricTree.Proofs.PassCourses

namespace MetricTree

namespace Course

/-- The pass that was begun last, in the step after these sooner ones: what happened in the step before it began, and
all that has happened since. -/
structure Begun (o : Opening) (c : Course) (sooner : List Step) (step : Step) (duty : Duty) (first since : List Event) :
    Prop where
  past : c.past = ((Course.opened o).run sooner).past ++ (first ++ .began duty :: since)
  started : ((Course.opened o).run sooner).past ++ (first ++ [.began duty]) <+:
    (((Course.opened o).run sooner).take step).past
  calm : ∀ e ∈ first, e.isWrite = false ∧ e.observed? = none
  alone : ∀ e ∈ since, e.begins = false

/-- Whenever a call for a pass was waited for in the later steps, all metrics that the pass was still to visit are among
these. -/
def Covers (o : Opening) (sooner : List Step) (step : Step) (later : List Step) (jobs : List Job) : Prop :=
  ∀ between rest, later = between ++ rest →
    let c := (Course.opened o).run (sooner ++ step :: between)
    ∀ duty p seen, c.waiting = [.observing duty p seen] → ∀ job, c.loop.tree.Has job → p.Owes job → job ∈ jobs

/-- How a course stands to the passes that it has begun: it is in none, it was closed without any, it is in the one that
was begun last, or this one was its last and has come to its end. -/
inductive Standing (o : Opening) (steps : List Step) (c : Course) : Prop
  | resting (none : c.waiting = []) (unclosed : c.loop.phase ≠ .closed)
  | bare (closed : c.loop.phase = .closed) (bare : c.loop.reporter = none)
  | passing {sooner later : List Step} {step : Step} {duty : Duty} {first since : List Event} {been : List Job}
      {a : Activity} (split : steps = sooner ++ step :: later) (begun : Begun o c sooner step duty first since)
      (going : ∀ e ∈ since, e.endsPass = false)
      (inPass : c.InPass ((Course.opened o).run sooner).loop.tree duty since been a)
      (covers : Covers o sooner step later (been ++ a.left c.loop.tree))
  | parted {sooner later : List Step} {step : Step} {duty : Duty} {first since : List Event} {been : List Job}
      (closed : c.loop.phase = .closed) (split : steps = sooner ++ step :: later)
      (begun : Begun o c sooner step duty first since) (last : duty.isLast = true)
      (toured : ((Course.opened o).run sooner).loop.tree.Toured since c.loop.tree been [])

variable {o : Opening} {steps sooner later : List Step} {step begin : Step} {c c' : Course} {duty : Duty}
  {first since events : List Event} {s : Stage} {been jobs : List Job} {a : Activity}

theorem At.unclosed_of_serves (here : c.At s) (waits : c.waiting = [a]) (serves : a.duty? = some duty) :
    c.loop.phase ≠ .closed := by
  rcases here.front waits with ⟨_, unclosed⟩ | ⟨parting, _⟩
  · exact unclosed
  · cases parting.symm.trans serves

theorem Begun.append (begun : Begun o c sooner begin duty first since) (past : c'.past = c.past ++ events)
    (alone : ∀ e ∈ events, e.begins = false) : Begun o c' sooner begin duty first (since ++ events) := by
  refine ⟨?_, begun.started, begun.calm, List.forall_mem_append.mpr ⟨begun.alone, alone⟩⟩
  rw [past, begun.past]
  simp only [List.append_assoc, List.cons_append]

theorem split_append (split : steps = sooner ++ begin :: later) (step : Step) :
    steps ++ [step] = sooner ++ begin :: (later ++ [step]) := by
  rw [split, List.append_assoc, List.cons_append]

theorem mem_left_of_owes {p : Pass} {seen : Observation} {job : Job} (waits : c.waiting = [a])
    (here : c.waiting = [.observing duty p seen]) (there : c.loop.tree.Has job) (owes : p.Owes job) :
    job ∈ a.left c.loop.tree := by
  cases waits.symm.trans here
  exact Tree.mem_jobs_of_owes owes there

theorem covers_begun (same : c = (Course.opened o).run (sooner ++ [begin])) (waits : c.waiting = [a])
    (been : List Job) : Covers o sooner begin [] (been ++ a.left c.loop.tree) := by
  intro between rest parts
  obtain ⟨rfl, rfl⟩ := List.append_eq_nil_iff.mp parts.symm
  subst same
  exact fun duty p seen here job there owes => List.mem_append_right _ (mem_left_of_owes waits here there owes)

/-- As long as a pass drops nothing of what it was to visit, it covers all that it was ever to visit. -/
theorem Covers.append (covers : Covers o sooner begin later jobs)
    (same : c = (Course.opened o).run (sooner ++ begin :: (later ++ [step]))) (waits : c.waiting = [a])
    (kept : jobs ⊆ been ++ a.left c.loop.tree) :
    Covers o sooner begin (later ++ [step]) (been ++ a.left c.loop.tree) := by
  intro between rest parts
  rcases List.eq_nil_or_concat rest with rfl | ⟨rest, last, rfl⟩
  · rw [List.append_nil] at parts
    subst parts same
    exact fun duty p seen here job there owes => List.mem_append_right _ (mem_left_of_owes waits here there owes)
  · rw [List.concat_eq_append, ← List.append_assoc] at parts
    obtain ⟨rfl, _⟩ := List.append_inj' parts rfl
    exact fun duty p seen here job there owes => kept (covers between rest rfl duty p seen here job there owes)

theorem take_eq_run (same : c = (Course.opened o).run steps) (step : Step) :
    c.take step = (Course.opened o).run (steps ++ [step]) := by
  rw [same, run_append]
  rfl

/-- What callers do changes nothing of how a course stands. -/
theorem Standing.aside (standing : Standing o steps c) (aside : c.Aside c' events)
    (reached : ∀ steps, ((Course.opened o).run steps).loop.tree.Distinct)
    (same : c' = (Course.opened o).run (steps ++ [step])) : Standing o (steps ++ [step]) c' := by
  have alone : ∀ e ∈ events, e.begins = false := fun e member => (Event.of_isAside (aside.aside e member)).1
  cases standing with
  | resting none unclosed => exact .resting (aside.waiting.trans none) (mt aside.phase.mp unclosed)
  | bare closed bare => exact .bare (aside.phase.mpr closed) (aside.reporter.trans bare)
  | passing split begun going inPass covers =>
    have goesOn := inPass.aside (reached _) aside (same ▸ reached _)
    refine .passing (split_append split step) (begun.append aside.past alone) ?_ goesOn
      (covers.append (split_append split step ▸ same) goesOn.waits (inPass.kept_aside aside))
    exact List.forall_mem_append.mpr ⟨going, fun e member => (Event.of_isAside (aside.aside e member)).2⟩
  | parted closed split begun last toured =>
    exact .parted (aside.phase.mpr closed) (split_append split step) (begun.append aside.past alone) last
      (toured.meanwhile aside.extended aside.written (uncalled_of_aside aside.aside) List.nodup_nil nofun
        fun _ _ => Iff.rfl)

/-- Where a loop is not left, it rests or begins a pass. -/
theorem Standing.follow {c₀ : Course} {l : Loop} {plan : Plan} {before : List Event} {notices : List Notice}
    (taken : c.take step = c₀.move before (some plan) (Move.after notices (l.follow plan)))
    (calm : ∀ e ∈ before, e.isWrite = false ∧ e.observed? = Option.none) (same : c = (Course.opened o).run steps)
    (none : c₀.waiting = []) (past : c₀.past = c.past) (tree : l.tree = c.loop.tree) (distinct : c.loop.tree.Distinct)
    (unclosed : l.phase ≠ .closed) (stays : ∀ last answer, plan ≠ .leave last answer) :
    Standing o (steps ++ [step]) (c.take step) := by
  cases plan with
  | leave last answer => exact absurd rfl (stays last answer)
  | answer answer =>
    rw [taken, move_answer]
    exact .resting none unclosed
  | pass duty =>
    obtain ⟨rest, grown, leads⟩ := InPass.begin none unclosed (tree ▸ distinct) duty before notices
    rw [← taken] at grown leads
    rcases leads with cut | ⟨visited, a, rfl, inPass⟩
    · exact .resting cut.none cut.unclosed
    · subst same
      rw [tree] at inPass
      rw [past] at grown
      have covers := covers_begun (take_eq_run rfl step) inPass.waits visited
      refine .passing rfl ⟨grown, ?_, List.forall_mem_append.mpr ⟨calm, fun e told => ?_⟩, ?_⟩ ?_ inPass covers
      · rw [grown]
        exact ⟨[.called a], by simp⟩
      · obtain ⟨notice, _, rfl⟩ := List.mem_map.mp told
        exact ⟨rfl, rfl⟩
      · exact List.forall_mem_singleton.mpr rfl
      · exact List.forall_mem_singleton.mpr rfl

theorem planReport_ne_leave (l : Loop) (last : Summary) (answer : Option Summary) :
    l.planReport ≠ .leave last answer := by
  rcases l.planReport_cases with ⟨_, planned⟩ | ⟨planned, _⟩ <;> (rw [planned]; exact nofun)

/-- Out of passes, errands begin a pass, or close a loop that has no reporter. -/
theorem Standing.of_rest (same : c = (Course.opened o).run steps) (none : c.waiting = [])
    (unclosed : c.loop.phase ≠ .closed) (rest : c.loop.busy = false)
    (reached : ∀ steps, ((Course.opened o).run steps).loop.tree.Distinct) (step : Step) :
    Standing o (steps ++ [step]) (c.take step) := by
  have distinct : c.loop.tree.Distinct := same ▸ reached steps
  cases step with
  | request r =>
    obtain ⟨events, aside⟩ := c.request_aside r
    exact .aside (.resting none unclosed) aside reached (take_eq_run same _)
  | start => exact .aside (.resting none unclosed) c.start_aside reached (take_eq_run same _)
  | report =>
    have taken : c.take .report =
        c.move [] (some c.loop.planReport) (Move.after [] (c.loop.follow c.loop.planReport)) := rfl
    exact .follow taken (List.forall_mem_nil _) same none rfl rfl distinct unclosed (planReport_ne_leave _)
  | outcome o =>
    have still : c.take (.outcome o) = c := by simp only [take, none]
    rw [still]
    exact .resting none unclosed
  | close =>
    cases ended : c.loop.phase.isOver with
    | true =>
      obtain ⟨events, aside⟩ := close_aside (.inr ended)
      exact .aside (.resting none unclosed) aside reached (take_eq_run same _)
    | false =>
      have taken : c.take .close = c.move [.closing] (some c.loop.planClose)
          (Move.after [] (Loop.follow { c.loop with phase := .closing } c.loop.planClose)) := by
        simp only [take, Loop.close, ended, Bool.false_eq_true, if_false]
        rfl
      cases reporter : c.loop.reporter with
      | none =>
        have planned : c.loop.planClose = .leave .empty Option.none := by
          simp [Loop.planClose, ended, rest, reporter]
        rw [planned] at taken
        have parting : ((Loop.reporter { c.loop with phase := .closing }).map Reporter.closes).getD false = false := by
          rw [reporter]
          rfl
        rw [taken, move_leave _ _ _ _ parting]
        exact .bare rfl reporter
      | some r =>
        have planned : c.loop.planClose = .pass .close := by simp [Loop.planClose, ended, rest, reporter]
        rw [planned] at taken
        have closing : Loop.phase { c.loop with phase := .closing } ≠ .closed := fun closed => by cases closed
        have asked : ∀ e ∈ [Event.closing], e.isWrite = false ∧ e.observed? = Option.none :=
          List.forall_mem_singleton.mpr ⟨rfl, rfl⟩
        exact .follow taken asked same none rfl rfl distinct closing fun _ _ leaves => by cases leaves

/-- A reporter that has closed makes no more of it than an answer. -/
theorem take_parting {outer : List Activity} (waiting : c.waiting = a :: outer) (parting : a.duty? = none)
    (closed : c.loop.phase = .closed) (out : Outcome) :
    ∃ (notices : List Notice) (answer : Except Fault (Option Summary)), c.take (.outcome out) = { c with
      waiting := outer, past := c.past ++ (.came a out :: notices.map .told ++ [.answered answer]) } := by
  obtain ⟨notices, answer, resumed, unplanned⟩ := c.loop.resume_of_leaving (o := out) parting
  refine ⟨notices, answer, ?_⟩
  have ending : Move.ending ⟨c.loop, notices, .ends answer⟩ = [.answered answer] := by
    cases answer with
    | error fault => simp only [Move.ending, closed, if_true]
    | ok summary => rfl
  simp only [take, waiting, resumed, unplanned, move, ending, Option.map_none, Option.getD_none, List.append_nil,
    List.singleton_append]

/-- The outcome of a call that made the last pass, or the reporter's close, tells nothing of metrics. -/
theorem uncalled_of_ending {e last : Event} {notices : List Notice} (first : e.observed? = none)
    (final : last.observed? = none) : (e :: notices.map .told ++ [last]).filterMap Event.observed? = [] := by
  have told : (notices.map Event.told).filterMap Event.observed? = [] := filterMap_told notices
  simp only [List.filterMap_append, List.filterMap_cons, first, told, final, List.filterMap_nil, List.append_nil]

theorem calm_of_ending {P : Event → Prop} {e last : Event} {notices : List Notice} (first : P e)
    (told : ∀ notice, P (.told notice)) (final : P last) : ∀ x ∈ e :: notices.map .told ++ [last], P x := by
  have between : ∀ x ∈ notices.map Event.told, P x := List.forall_mem_map.mpr fun notice _ => told notice
  exact List.forall_mem_append.mpr ⟨List.forall_mem_cons.mpr ⟨first, between⟩, List.forall_mem_singleton.mpr final⟩

/-- What is told of no metric and writes to none leaves a pass that has come to its end as it is. -/
theorem toured_of_ending {t u : Tree} {e last : Event} {notices : List Notice} (toured : t.Toured since u been [])
    (first : e.observed? = none ∧ e.isWrite = false) (final : last.observed? = none ∧ last.isWrite = false) :
    t.Toured (since ++ (e :: notices.map .told ++ [last])) u been [] :=
  toured.meanwhile (.refl u) (fun _ => .of_noWrite (calm_of_ending first.2 (fun _ => rfl) final.2) _)
    (uncalled_of_ending first.1 final.1) List.nodup_nil nofun fun _ _ => Iff.rfl

/-- Once a loop is closed, nothing but what callers do changes anything. -/
theorem Standing.of_closed (standing : Standing o steps c) (same : c = (Course.opened o).run steps) (here : c.At s)
    (closed : c.loop.phase = .closed) (reached : ∀ steps, ((Course.opened o).run steps).loop.tree.Distinct) :
    Standing o (steps ++ [step]) (c.take step) := by
  by_cases outside : step.isErrand = true
  · obtain ⟨events, aside⟩ := errand_aside (.inr (by rw [closed]; rfl)) outside
    exact standing.aside aside reached (take_eq_run same _)
  · cases step with
    | outcome out =>
      cases waiting : c.waiting with
      | nil =>
        have still : c.take (.outcome out) = c := by simp only [take, waiting]
        have aside : c.Aside (c.take (.outcome out)) [] := by
          rw [still]
          exact .of_tree (List.append_nil _).symm rfl (List.forall_mem_nil _) (List.forall_mem_nil _) rfl Iff.rfl rfl
        exact standing.aside aside reached (take_eq_run same _)
      | cons a outer =>
        have parting : a.duty? = none := by
          rcases here.front waiting with ⟨_, unclosed⟩ | ⟨parting, _⟩
          · exact absurd closed unclosed
          · exact parting
        obtain ⟨notices, answer, taken⟩ := take_parting waiting parting closed out
        rw [taken]
        cases standing with
        | resting _ unclosed => exact absurd closed unclosed
        | bare _ bare => exact .bare closed bare
        | passing _ _ _ inPass =>
          rw [inPass.waits] at waiting
          cases waiting
          cases parting.symm.trans inPass.serves
        | parted _ split begun last toured =>
          have calm : ∀ e ∈ Event.came a out :: notices.map .told ++ [.answered answer], e.begins = false :=
            calm_of_ending rfl (fun _ => rfl) rfl
          exact .parted closed (split_append split _) (begun.append rfl calm) last
            (toured_of_ending toured ⟨rfl, rfl⟩ ⟨rfl, rfl⟩)
    | _ => exact absurd rfl outside

/-- A flush that comes out leads on to the next pass, to an answer, or out of the loop. -/
theorem Standing.of_flush {tally : Summary} {out : Outcome} (same : c = (Course.opened o).run steps)
    (waits : c.waiting = [.flushing duty tally]) (unclosed : c.loop.phase ≠ .closed) (distinct : c.loop.tree.Distinct)
    (calm : out.aborts = false) (split : steps = sooner ++ begin :: later)
    (begun : Begun o c sooner begin duty first since)
    (toured : ((Course.opened o).run sooner).loop.tree.Toured since c.loop.tree been []) :
    Standing o (steps ++ [.outcome out]) (c.take (.outcome out)) := by
  obtain ⟨notices, resumes⟩ := c.loop.resume_flushing duty tally calm
  have planned : (Activity.flushing duty tally).plan? c.loop out =
      some (c.loop.planAfter (Loop.flushed tally out) duty) := by
    cases out with
    | returned | failed => rfl
    | aborted => cases calm
  have taken : c.take (.outcome out) = { c with waiting := [] }.move [.came (.flushing duty tally) out]
      (some (c.loop.planAfter (Loop.flushed tally out) duty)) (Move.after notices
        (Loop.follow { c.loop with passes := c.loop.passes + 1, busy := false }
          (c.loop.planAfter (Loop.flushed tally out) duty))) := by
    simp only [take, waits, planned, resumes]
  have leaves : ∀ last answer, c.loop.planAfter (Loop.flushed tally out) duty = .leave last answer →
      duty.isLast = true → Standing o (steps ++ [.outcome out]) (c.take (.outcome out)) := by
    intro last answer left late
    rw [left, move_leave _ _ _ _ rfl] at taken
    rw [taken]
    refine .parted rfl (split_append split _) (begun.append rfl ?_) late (toured_of_ending toured ⟨rfl, rfl⟩ ?_)
    · refine calm_of_ending rfl (fun _ => rfl) ?_
      split <;> rfl
    · split <;> exact ⟨rfl, rfl⟩
  cases duty with
  | close => exact leaves _ _ rfl rfl
  | farewell answer => exact leaves _ _ rfl rfl
  | report =>
    have calm : ∀ e ∈ [Event.came (.flushing .report tally) out], e.isWrite = false ∧ e.observed? = none :=
      List.forall_mem_singleton.mpr ⟨rfl, rfl⟩
    refine .follow taken calm same rfl rfl rfl distinct unclosed fun last answer left => ?_
    rw [Loop.planAfter] at left
    split at left <;> cases left

/-- A pass that is under way goes on, is cut short, or comes to its end with the outcome of its flush. -/
theorem Standing.of_pass (same : c = (Course.opened o).run steps) (here : c.At s)
    (split : steps = sooner ++ begin :: later) (begun : Begun o c sooner begin duty first since)
    (going : ∀ e ∈ since, e.endsPass = false)
    (inPass : c.InPass ((Course.opened o).run sooner).loop.tree duty since been a)
    (covers : Covers o sooner begin later (been ++ a.left c.loop.tree))
    (reached : ∀ steps, ((Course.opened o).run steps).loop.tree.Distinct) :
    Standing o (steps ++ [step]) (c.take step) := by
  have next := take_eq_run same step
  obtain ⟨unclosed, events, past, ⟨visited, b, calm, kept, goesOn⟩ | cut | ⟨tally, out, rfl, rfl, calm⟩⟩ :=
    inPass.next here (reached sooner) step (next ▸ reached _)
  · exact .passing (split_append split step) (begun.append past fun e member => (calm e member).1)
      (List.forall_mem_append.mpr ⟨going, fun e member => (calm e member).2⟩) goesOn
      (covers.append (split_append split step ▸ next) goesOn.waits kept)
  · exact .resting cut.none cut.unclosed
  · exact .of_flush same inPass.waits unclosed (same ▸ reached steps) calm split begun inPass.toured

theorem Standing.take (standing : Standing o steps c) (same : c = (Course.opened o).run steps) (here : c.At s)
    (reached : ∀ steps, ((Course.opened o).run steps).loop.tree.Distinct) (step : Step) :
    Standing o (steps ++ [step]) (c.take step) := by
  cases standing with
  | resting none unclosed =>
    have rest : c.loop.busy = false := by
      cases here with
      | ready _ rest | stuck _ rest | finished _ rest => exact rest
      | passing one => cases none.symm.trans one
    exact .of_rest same none unclosed rest reached step
  | bare closed bare => exact Standing.of_closed (.bare closed bare) same here closed reached
  | passing split begun going inPass covers => exact .of_pass same here split begun going inPass covers reached
  | parted closed split begun last toured =>
    exact Standing.of_closed (.parted closed split begun last toured) same here closed reached

theorem standing_run {options : Options} {interval : Interval} (opened : Opening.ofOptions options interval = .ok o)
    (steps : List Step) : Standing o steps ((Course.opened o).run steps) := by
  induction steps using List.reverseRecOn with
  | nil =>
    have unclosed : (Course.opened o).loop.phase ≠ .closed := by
      cases (placed_opened opened).here with
      | ready _ _ unclosed =>
        intro closed
        rw [closed] at unclosed
        cases unclosed
    exact .resting rfl unclosed
  | append_singleton steps step ih =>
    obtain ⟨s, placed⟩ := placed_run opened steps
    rw [run_append]
    exact ih.take rfl placed.here (fun sooner => distinct_run opened sooner) step

end Course

end MetricTree
