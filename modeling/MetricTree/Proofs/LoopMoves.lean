import MetricTree.Proofs.Course

namespace MetricTree

def Outcome.aborts : Outcome → Bool
  | .aborted _ => true
  | _ => false

/-- Is it a pass after which the loop ends? -/
def Duty.isLast : Duty → Bool
  | .report => false
  | _ => true

namespace Loop

/-- How a pass goes on: it waits for the reporter once more, or it ends before its time. -/
inductive Passes (l : Loop) (duty : Duty) : Move → Prop
  | waits {tree : Tree} {notices : List Notice} {a : Activity} (same : a.duty? = some duty) :
      Passes l duty ⟨{ l with tree := tree, busy := true }, notices, .waits a⟩
  | breaks {tree : Tree} {notices : List Notice} {fault : Fault} :
      Passes l duty ⟨{ l with tree := tree, busy := false }, notices, .ends (.error fault)⟩

/-- How it goes on once a call in a pass has come out: with the pass, or with what is planned for its end. -/
inductive Resumes (l : Loop) (duty : Duty) (a : Activity) (o : Outcome) : Option Plan → Move → Prop
  | inPass {m : Move} (passes : l.Passes duty m) : Resumes l duty a o none m
  | atEnd {tally : Summary} {notices : List Notice} (flush : a = .flushing duty tally) (calm : o.aborts = false) :
      Resumes l duty a o (some (l.planAfter (flushed tally o) duty))
        (Move.after notices
          (follow { l with passes := l.passes + 1, busy := false } (l.planAfter (flushed tally o) duty)))

variable {l : Loop} {duty : Duty}

theorem Passes.after {m : Move} (passes : l.Passes duty m) (notices : List Notice) :
    l.Passes duty (Move.after notices m) := by
  cases passes with
  | waits same => exact .waits same
  | breaks => exact .breaks

theorem pass_passes {tally : Summary} {found : Except Fault (Option (Observation × Pass)) × Tree} :
    l.Passes duty (l.pass duty tally found) := by
  rcases found with ⟨fault | _ | ⟨o, p⟩, tree⟩
  · exact .breaks
  · exact .waits rfl
  · exact .waits rfl

theorem follow_passes (l : Loop) (duty : Duty) : l.Passes duty (l.follow (.pass duty)) := pass_passes

theorem follow_pass_notices (l : Loop) (duty : Duty) : (l.follow (.pass duty)).notices = [] := by
  rcases run : l.tree.beginPass with ⟨fault | _ | ⟨o, p⟩, tree⟩ <;> simp only [follow, run] <;> rfl

theorem resume_observing (l : Loop) (duty : Duty) (p : Pass) (seen : Observation) {o : Outcome}
    (calm : o.aborts = false) :
    ∃ notices, l.resume (.observing duty p seen) o = Move.after notices
      (l.pass duty (tallied p.tally seen o) (l.tree.continuePass { p with tally := tallied p.tally seen o })) := by
  cases o with
  | returned => exact ⟨_, rfl⟩
  | failed failure => exact ⟨_, rfl⟩
  | aborted message => cases calm

theorem resume_flushing (l : Loop) (duty : Duty) (tally : Summary) {o : Outcome} (calm : o.aborts = false) :
    ∃ notices, l.resume (.flushing duty tally) o = Move.after notices
      (follow { l with passes := l.passes + 1, busy := false } (l.planAfter (flushed tally o) duty)) := by
  cases o with
  | returned => exact ⟨_, rfl⟩
  | failed failure => exact ⟨_, rfl⟩
  | aborted message => cases calm

theorem resume_resumes {a : Activity} {o : Outcome} (same : a.duty? = some duty) :
    l.Resumes duty a o (a.plan? l o) (l.resume a o) := by
  cases a with
  | observing duty p seen =>
    cases same
    cases o with
    | returned => exact .inPass (pass_passes.after _)
    | failed failure => exact .inPass (pass_passes.after _)
    | aborted message => exact .inPass .breaks
  | flushing duty tally =>
    cases same
    cases o with
    | returned => exact .atEnd rfl rfl
    | failed failure => exact .atEnd rfl rfl
    | aborted message => exact .inPass .breaks
  | leaving answer => cases same

/-- A reporter that has closed leaves nothing to be done but to answer. -/
theorem resume_of_leaving {a : Activity} {o : Outcome} (parting : a.duty? = none) :
    ∃ notices answer, l.resume a o = ⟨l, notices, .ends answer⟩ ∧ a.plan? l o = none := by
  cases a with
  | observing | flushing => cases parting
  | leaving answer => cases o <;> exact ⟨_, _, rfl, rfl⟩

/-- Only a loop that is still open, with a reporter, and in no other pass, begins a pass for a report. -/
theorem planReport_cases :
    (∃ answer, l.planReport = .answer answer) ∨
      l.planReport = .pass .report ∧ l.busy = false ∧ l.phase.isOver = false ∧ l.reporter.isSome := by
  unfold planReport
  split
  · exact .inl ⟨_, rfl⟩
  · next free =>
    simp only [Bool.or_eq_true, not_or, Bool.not_eq_true] at free
    exact .inr ⟨rfl, free.1.1, free.1.2, Option.isNone_eq_false_iff.mp free.2⟩

/-- Unless a close was asked for, a report's pass is followed by no more than its answer. -/
theorem planAfter_report (unclosed : l.phase.isOver = false) (summary : Summary) :
    l.planAfter summary .report = .answer (some summary) := by
  rw [planAfter, if_neg]
  intro closing
  rw [closing] at unclosed
  cases unclosed

theorem start_cases :
    l.start.1 = l ∨ l.phase = .idle ∧ l.start.1 = { l with phase := .running } := by
  unfold start
  split
  · exact .inl rfl
  · next idle =>
    split
    · exact .inl rfl
    · rw [bne_iff_ne, Decidable.not_not] at idle
      exact .inr ⟨idle, rfl⟩

theorem start_tree (l : Loop) : l.start.1.tree = l.tree := by
  rcases l.start_cases with same | ⟨_, same⟩ <;> rw [same]

end Loop

end MetricTree
