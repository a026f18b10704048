import MetricTree.Fault

namespace MetricTree

/-- Work on a state. What was stored until the work fails stays. -/
abbrev Work (σ : Type) := EStateM Fault σ

namespace Work

variable {σ α β : Type}

theorem run_bind (first : Work σ α) (next : α → Work σ β) (state : σ) :
    (first >>= next).run state = match first.run state with
      | .ok a left => (next a).run left
      | .error fault left => .error fault left := by
  simp only [bind, EStateM.bind, EStateM.run]
  cases first state <;> rfl

theorem run_get_bind (next : σ → Work σ β) (state : σ) : (get >>= next).run state = (next state).run state := rfl

theorem run_ofExcept_bind (x : Except Fault α) (next : α → Work σ β) (state : σ) :
    (ofExcept x >>= next).run state = match x with
      | .ok a => (next a).run state
      | .error fault => .error fault state := by
  cases x <;> rfl

/-- What is set at last is what is left, however the work ends. -/
theorem run_finally (work : Work σ α) (last state : σ) :
    (try work finally set last : Work σ α).run state = match work.run state with
      | .ok a _ => .ok a last
      | .error fault _ => .error fault last := by
  change EStateM.map Prod.fst (tryFinally' work fun _ => set last) state = _
  simp only [EStateM.map, tryFinally', EStateM.run]
  cases work state <;> rfl

end Work

end MetricTree
