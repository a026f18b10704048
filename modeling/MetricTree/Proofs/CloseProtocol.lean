import MetricTree.Proofs.ClosedTrees
import MetricTree.Proofs.StageRuns

namespace MetricTree

/-- The place of a phase on the way from idle to closed. -/
def Phase.rank : Phase → Nat
  | .idle => 0
  | .running => 1
  | .closing => 2
  | .closed => 3

namespace Loop

variable {l : Loop}

theorem Passes.phase {duty : Duty} {m : Move} (passes : l.Passes duty m) : m.loop.phase = l.phase := by
  cases passes <;> rfl

theorem follow_rank (l : Loop) (plan : Plan) : l.phase.rank ≤ (l.follow plan).loop.phase.rank := by
  cases plan with
  | pass duty => exact Nat.le_of_eq (congrArg Phase.rank (l.follow_passes duty).phase.symm)
  | answer answer => exact Nat.le_refl _
  | leave last answer =>
    have closed : (l.follow (.leave last answer)).loop.phase = .closed := rfl
    rw [closed]
    cases l.phase <;> decide

theorem start_rank (l : Loop) : l.phase.rank ≤ l.start.1.phase.rank := by
  rcases l.start_cases with same | ⟨idle, running⟩
  · exact Nat.le_of_eq (by rw [same])
  · rw [idle]
    exact Nat.zero_le _

theorem close_rank (l : Loop) : l.phase.rank ≤ l.close.loop.phase.rank := by
  unfold close
  split
  · exact l.follow_rank _
  · next unclosed =>
    have closing : l.phase.rank ≤ Phase.closing.rank := by
      cases phase : l.phase with
      | closed =>
        rw [phase] at unclosed
        exact absurd rfl unclosed
      | _ => decide
    exact Nat.le_trans closing (follow_rank { l with phase := .closing } _)

theorem resume_rank (l : Loop) (a : Activity) (o : Outcome) : l.phase.rank ≤ (l.resume a o).loop.phase.rank := by
  cases under : a.duty? with
  | none =>
    obtain ⟨notices, answer, same, _⟩ := l.resume_of_leaving (o := o) under
    exact Nat.le_of_eq (by rw [same])
  | some duty =>
    have resumes := l.resume_resumes (o := o) under
    generalize a.plan? l o = plan, l.resume a o = m at resumes
    cases resumes with
    | inPass passes => exact Nat.le_of_eq (congrArg Phase.rank passes.phase.symm)
    | atEnd => exact follow_rank { l with passes := l.passes + 1, busy := false } _

end Loop

namespace Course

variable {c : Course} {s : Stage}

theorem take_rank (c : Course) (step : Step) : c.loop.phase.rank ≤ (c.take step).loop.phase.rank := by
  cases step with
  | request r =>
    cases run : r.perform c.loop.tree with
    | error fault => simp only [take, run]; exact Nat.le_refl _
    | ok done => simp only [take, run]; exact Nat.le_refl _
  | start => exact c.loop.start_rank
  | report => exact c.loop.follow_rank _
  | close => exact c.loop.close_rank
  | outcome o =>
    cases waiting : c.waiting with
    | nil => simp only [take, waiting]; exact Nat.le_refl _
    | cons a outer => simp only [take, waiting]; exact c.loop.resume_rank a o

theorem run_rank (c : Course) (more : List Step) : c.loop.phase.rank ≤ (c.run more).loop.phase.rank :=
  run_induction (P := fun d => c.loop.phase.rank ≤ d.loop.phase.rank) (Nat.le_refl _)
    fun d step _ before => Nat.le_trans before (d.take_rank step)

/-- A close that takes effect begins a pass at once, or answers at once if it came during another pass. -/
theorem At.close_past (here : c.At s) (unclosed : c.loop.phase.isOver = false) (attached : c.loop.reporter.isSome) :
    (c.waiting = [] ∧ ∃ rest, (c.take .close).past = c.past ++ .closing :: .began .close :: rest) ∨
      (c.waiting ≠ [] ∧ ∃ answer rest, (c.take .close).past = c.past ++ .closing :: .answered answer :: rest) := by
  obtain ⟨events, next, advances⟩ := close_advances here
  have first : ∃ rest, events = .closing :: rest := by
    have past := advances.past
    simp only [take, unclosed, Bool.false_eq_true, if_false, move, List.append_cancel_left_eq] at past
    exact ⟨_, past.symm⟩
  obtain ⟨rest, rfl⟩ := first
  rw [advances.past]
  cases here with
  | ready none =>
    refine .inl ⟨none, ?_⟩
    cases advances.leads with
    | quiet quiet => cases quiet _ (List.mem_cons_self ..)
    | close => exact ⟨_, rfl⟩
    | closeBare bare => rw [bare] at attached; cases attached
  | passing one _ _ _ allowed =>
    refine .inr ⟨by rw [one]; exact List.cons_ne_nil _ _, ?_⟩
    cases advances.leads with
    | quiet quiet => cases quiet _ (List.mem_cons_self ..)
    | ask => exact ⟨_, _, rfl⟩
  | stuck _ _ _ closing => rw [closing] at unclosed; cases unclosed
  | finished _ _ closed => rw [closed] at unclosed; cases unclosed

/-- After a close, unless a pass is cut short, it is either the report's pass that is still under way, or
there has been a last one. -/
theorem Placed.lastPass {reporter : Option Reporter} (placed : c.Placed reporter s) (asked : .closing ∈ c.past)
    (attached : reporter.isSome) (uncut : ∀ fault, .cut fault ∉ sinceClose c.past) :
    ((∃ a ∈ c.waiting, a.duty? = some .report) ∧ ∀ e ∈ sinceClose c.past, e.begins = false) ∨
      ∃ duty, LastPass duty (sinceClose c.past) := by
  obtain ⟨here, fits, _⟩ := placed
  cases fits with
  | ready unasked | reporting unasked => exact absurd asked unasked
  | asked _ _ going =>
    cases here with
    | passing one same =>
      exact .inl ⟨⟨_, one ▸ List.mem_singleton.mpr rfl, same⟩, fun e member => (going e member).1⟩
  | last _ _ pass => exact .inr ⟨_, pass⟩
  | stuck _ _ _ cut =>
    obtain ⟨fault, member⟩ := cut
    exact absurd member (uncut fault)
  | finished _ _ once =>
    rw [if_pos attached] at once
    exact .inr once

theorem Placed.begins_le_one {reporter : Option Reporter} (placed : c.Placed reporter s) :
    (sinceClose c.past).countP Event.begins ≤ 1 := by
  have none : (∀ e ∈ sinceClose c.past, e.begins = false) → (sinceClose c.past).countP Event.begins ≤ 1 := by
    intro alone
    rw [countP_begins_eq_zero alone]
    exact Nat.zero_le 1
  cases placed.fits with
  | ready unasked | reporting unasked =>
    rw [sinceClose_of_not_mem unasked]
    exact Nat.zero_le 1
  | asked _ _ going => exact none fun e member => (going e member).1
  | last _ _ pass => exact Nat.le_of_eq pass.countP
  | stuck _ _ once => exact once
  | finished _ _ once =>
    split at once
    · obtain ⟨duty, pass⟩ := once
      exact Nat.le_of_eq pass.countP
    · exact none once

/-- A reporter that was closed was closed once, after everything else, and by a loop that is over. -/
theorem Placed.parted {reporter : Option Reporter} {answer : Option Summary} (placed : c.Placed reporter s)
    (member : .called (.leaving answer) ∈ c.past) : c.loop.phase = .closed ∧ Parted c.past := by
  obtain ⟨here, fits, _⟩ := placed
  cases fits with
  | ready _ unparted | reporting _ unparted | asked _ unparted | last _ unparted | stuck _ unparted =>
    cases unparted _ member
  | finished _ _ _ parted =>
    cases here with
    | finished _ _ closed =>
      split at parted
      · exact ⟨closed, parted⟩
      · cases parted _ member

/-- The pass that a close begins is the only one since. A close that came during another pass has its own
only when that one is done. -/
theorem begins_of_close {o : Options} {interval : Interval} {opening : Opening} (sooner later : List Step)
    (opened : Opening.ofOptions o interval = .ok opening)
    (unclosed : ((Course.opened opening).run sooner).loop.phase.isOver = false) (attached : o.reporter.isSome)
    (uncut : ∀ fault, .cut fault ∉ sinceClose ((Course.opened opening).run (sooner ++ .close :: later)).past) :
    let d := (Course.opened opening).run sooner
    let c := (Course.opened opening).run (sooner ++ .close :: later)
    (d.waiting = [] → (sinceClose c.past).countP Event.begins = 1) ∧
    (d.waiting ≠ [] → (∃ a ∈ c.waiting, a.duty? = some .report) ∨
      (sinceClose c.past).countP Event.begins = 1 ∧ ∃ summary, LastPass (.farewell summary) (sinceClose c.past)) := by
  intro d c
  obtain ⟨s, before⟩ := placed_run opened sooner
  obtain ⟨s', placed⟩ := placed_run opened (sooner ++ .close :: later)
  have whole : c = (d.take .close).run later := by
    simp only [c, d, run_append]
    rfl
  obtain ⟨more, past⟩ := past_prefix_run (d.take .close) later
  rw [← whole] at past
  have unasked : .closing ∉ d.past := before.not_closing_mem unclosed
  -- What has happened since the close starts with the first event after it.
  have since : ∀ e rest, (d.take .close).past = d.past ++ .closing :: e :: rest →
      .closing ∈ c.past ∧ sinceClose c.past = e :: (rest ++ more) := by
    intro e rest first
    rw [← past, first]
    refine ⟨List.mem_append_left _ (List.mem_append_right _ (List.mem_cons_self ..)), ?_⟩
    rw [List.append_assoc, List.cons_append, sinceClose_append_closing unasked]
    rfl
  rcases before.here.close_past unclosed (before.reporter ▸ attached) with
    ⟨none, rest, first⟩ | ⟨some, answer, rest, first⟩
  · obtain ⟨asked, head⟩ := since _ _ first
    refine ⟨fun _ => ?_, fun some => absurd none some⟩
    rcases placed.lastPass asked attached uncut with ⟨_, alone⟩ | ⟨duty, pass⟩
    · cases alone (.began .close) (head ▸ List.mem_cons_self ..)
    · exact pass.countP
  · obtain ⟨asked, head⟩ := since _ _ first
    refine ⟨fun none => absurd none some, fun _ => ?_⟩
    rcases placed.lastPass asked attached uncut with ⟨going, _⟩ | ⟨duty, pass⟩
    · exact .inl going
    · obtain ⟨summary, rfl⟩ := (head ▸ pass).farewell_of_answered
      exact .inr ⟨pass.countP, summary, pass⟩

/-- A phase is never left for an earlier one. Of the passes, at most one begins after the close that takes
effect: exactly one where there is a reporter, as long as none is cut short, which with integers takes
an interruption. If that close came during a pass, that pass runs to its end first. The reporter is
closed at most once, after every other call, and from then on it is not called, no pass begins and
no metric is consumed. -/
theorem close_protocol {o : Options} {interval : Interval} {opening : Opening} {steps : List Step}
    (opened : Opening.ofOptions o interval = .ok opening) :
    let c := (Course.opened opening).run steps
    (∀ more, c.loop.phase.rank ≤ (c.run more).loop.phase.rank) ∧
    (sinceClose c.past).countP Event.begins ≤ 1 ∧
    (∀ sooner later, steps = sooner ++ .close :: later →
      let d := (Course.opened opening).run sooner
      d.loop.phase.isOver = false → o.reporter.isSome → (∀ fault, .cut fault ∉ sinceClose c.past) →
        (d.waiting = [] → (sinceClose c.past).countP Event.begins = 1) ∧
        (d.waiting ≠ [] → (∃ a ∈ c.waiting, a.duty? = some .report) ∨
          (sinceClose c.past).countP Event.begins = 1 ∧ ∃ summary, LastPass (.farewell summary) (sinceClose c.past))) ∧
    ((∀ step ∈ steps, step.isIntegral) → (∀ message, .outcome (.aborted message) ∉ steps) →
      ∀ fault, .cut fault ∉ sinceClose c.past) ∧
    (∀ before answer after, c.past = before ++ .called (.leaving answer) :: after → c.loop.phase = .closed ∧
      (∀ e ∈ before, e.isParting = false) ∧ ∀ e ∈ after, e.isCall = false ∧ e.begins = false) ∧
    (c.loop.phase = .closed → ∀ more, c.loop.tree.Kept (c.run more).loop.tree ∧
      ∃ events, (c.run more).past = c.past ++ events ∧ ∀ e ∈ events, e.isCall = false ∧ e.begins = false) := by
  intro c
  obtain ⟨s, placed⟩ := placed_run opened steps
  refine ⟨c.run_rank, placed.begins_le_one, ?_, ?_, ?_, ?_⟩
  · rintro sooner later rfl d unclosed attached uncut
    exact begins_of_close sooner later opened unclosed attached uncut
  · intro integral calm fault member
    have faultless := faultless_run opened integral
    obtain ⟨a, message, _, broken⟩ := faultless.cut.mp ⟨fault, member⟩
    exact calm message (faultless.came a _ (sinceClose_subset _ broken))
  · intro before answer after same
    obtain ⟨closed, parted⟩ := placed.parted (same ▸ List.mem_append_right _ (List.mem_cons_self ..))
    exact ⟨closed, parted.unique same⟩
  · intro closed more
    have ended : c.At .finished := by
      have isOver := closed
      cases placed.here with
      | ready _ _ unclosed => rw [closed] at unclosed; cases unclosed
      | passing _ _ _ _ allowed => exact absurd closed allowed.ne_closed
      | stuck _ _ _ closing => cases closed.symm.trans closing
      | finished parting rest _ => exact .finished parting rest closed
    obtain ⟨kept, events, past, quiet⟩ := ended.finished_run more
    refine ⟨kept, events, past, fun e member => ?_⟩
    cases e with
    | called | began => cases quiet _ member
    | _ => exact ⟨rfl, rfl⟩

/-- A close in the middle of a report's pass, and two more from where the reporter is closed. -/
theorem close_protocol_nested :
    ∃ opening, Opening.ofOptions { Options.standard with reporter := some ⟨"Recorder", true, true⟩ }
        (.value .null) = .ok opening ∧
      let c := (Course.opened opening).run [.report, .close, .outcome .returned,
        .outcome (.failed ⟨"OSError", "gone"⟩), .close, .report, .outcome .returned]
      (sinceClose c.past).countP Event.begins = 1 ∧
        ∃ summary, LastPass (.farewell summary) (sinceClose c.past) := by
  have opened : Opening.ofOptions { Options.standard with reporter := some ⟨"Recorder", true, true⟩ }
    (.value .null) = .ok _ := rfl
  refine ⟨_, opened, ?_⟩
  intro c
  obtain ⟨_, _, lastPass, uncut, _⟩ := @close_protocol _ _ _ [.report, .close, .outcome .returned,
    .outcome (.failed ⟨"OSError", "gone"⟩), .close, .report, .outcome .returned] opened
  have inPass := (lastPass [.report] _ rfl (by decide +kernel) rfl (uncut (by decide) (by simp))).2
  have none : c.waiting = [] := List.isEmpty_iff.mp (by decide +kernel)
  rcases inPass (by rw [ne_eq, ← List.isEmpty_iff]; decide +kernel) with ⟨a, member, _⟩ | last
  · cases none ▸ member
  · exact last

/-- An amount that is no integer, given to a counter whose reported total is too large for its kind, cuts
the pass of a report short in which the reporter asked for a close. No pass begins any more. -/
theorem close_protocol_overflow :
    ∃ opening, Opening.ofOptions { Options.standard with reporter := some ⟨"Recorder", true, true⟩ }
        (.value .null) = .ok opening ∧
      let half := Binary64.signed false (.ofRank (1022 * Nat.pow 2 52))
      let steps : List Step := [.request (.counter "" (.text "z")), .request (.counter "" (.text "a")),
        .request (.inc ⟨"", "a"⟩ (.int (Nat.pow 10 200 * Nat.pow 10 200))), .report, .outcome .returned,
        .outcome .returned, .request (.inc ⟨"", "a"⟩ (.int (-(Nat.pow 10 200 * Nat.pow 10 200)))),
        .request (.inc ⟨"", "a"⟩ (.float half)), .request (.inc ⟨"", "z"⟩ (.int 1)), .report, .close,
        .outcome .returned]
      let c := (Course.opened opening).run steps
      (∀ message, .outcome (.aborted message) ∉ steps) ∧ c.waiting = [] ∧ c.loop.phase = .closing ∧
        (sinceClose c.past).countP Event.begins = 0 := by
  have opened : Opening.ofOptions { Options.standard with reporter := some ⟨"Recorder", true, true⟩ }
    (.value .null) = .ok _ := rfl
  refine ⟨_, opened, ?_⟩
  intro half steps c
  have none : c.waiting = [] := List.isEmpty_iff.mp (by decide +kernel)
  exact ⟨by simp [steps], none, by decide +kernel, by decide +kernel⟩

end Course

end MetricTree
