import MetricTree.Loop.Progress
import MetricTree.Proofs.CloseHistory
import MetricTree.Proofs.StageSteps

namespace MetricTree

namespace Course

/-- The calls of the reporter so far. -/
def calls (past : List Event) : List Call :=
  past.filterMap fun
    | .called a => some a.call
    | _ => none

/-- Does it come from outside, and not from the reporter? -/
def Step.isErrand : Step → Bool
  | .outcome _ => false
  | _ => true

/-- A reporter that does not call back. Which of its calls fail may depend on all calls so far. -/
abbrev Temper := List Call → Option Failure

def Temper.outcome (temper : Temper) (past : List Event) : Outcome :=
  (temper (calls past)).elim .returned .failed

/-- The reporter's innermost call comes out. -/
def answer (temper : Temper) (c : Course) : Course := c.take (.outcome (temper.outcome c.past))

/-- The way of a course through some errands, each of which waits until the reporter has returned. -/
inductive Served (temper : Temper) : Course → List Step → Course → Prop
  | done {c : Course} (none : c.waiting = []) : Served temper c [] c
  | errand {c d : Course} {step : Step} {rest : List Step} (none : c.waiting = [])
      (outside : step.isErrand = true) (later : Served temper (c.take step) rest d) :
      Served temper c (step :: rest) d
  | call {c d : Course} {errands : List Step} (some : c.waiting ≠ [])
      (later : Served temper (c.answer temper) errands d) : Served temper c errands d

theorem waiting_ne_nil {c : Course} {a : Activity} {outer : List Activity} (waits : c.waiting = a :: outer) :
    c.waiting ≠ [] := by
  rw [waits]
  exact List.cons_ne_nil _ _

theorem Temper.outcome_aborts (temper : Temper) (past : List Event) : (temper.outcome past).aborts = false := by
  unfold outcome
  cases temper (calls past) <;> rfl

/-- What is so when nothing waits, and before a call if it is so after it, is always so: the calls end. -/
theorem answer_induction {P : Course → Prop} (temper : Temper) (done : ∀ c, c.waiting = [] → P c)
    (call : ∀ c, c.waiting ≠ [] → P (c.answer temper) → P c) (c : Course) : P c := by
  obtain ⟨l, waiting, past⟩ := c
  induction waiting generalizing l past with
  | nil => exact done _ rfl
  | cons a outer later =>
    refine WellFounded.induction (C := fun a => ∀ l past, P ⟨l, a :: outer, past⟩) WellFoundedRelation.wf a ?_ l past
    intro a nearer l past
    refine call _ (List.cons_ne_nil _ _) ?_
    simp only [answer, take, move]
    cases next : (l.resume a (temper.outcome past)).next with
    | ends answer => exact later _ _
    | waits b => exact nearer b (Loop.resume_nearer next) _ _

theorem exists_served (temper : Temper) (c : Course) {errands : List Step}
    (outside : ∀ step ∈ errands, step.isErrand = true) : ∃ d, Served temper c errands d := by
  induction errands generalizing c with
  | nil =>
    refine answer_induction (P := fun c => ∃ d, Served temper c [] d) temper (fun c none => ⟨c, .done none⟩) ?_ c
    rintro c some ⟨d, served⟩
    exact ⟨d, .call some served⟩
  | cons step rest ih =>
    rw [List.forall_mem_cons] at outside
    refine answer_induction (P := fun c => ∃ d, Served temper c (step :: rest) d) temper (fun c none => ?_) ?_ c
    · obtain ⟨d, served⟩ := ih (c.take step) outside.2
      exact ⟨d, .errand none outside.1 served⟩
    · rintro c some ⟨d, served⟩
      exact ⟨d, .call some served⟩

end Course

end MetricTree
