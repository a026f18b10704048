import MetricTree.Proofs.ExactPasses

namespace MetricTree

namespace Course

/-- A report's pass waits for the reporter. After at most so many calls it is at its end, and it leaves this tree behind
unless it is broken off. -/
inductive UnderWay (final : Tree) : Nat → Course → Prop
  | observing {c : Course} {p : Pass} {o : Observation} {rest : List Observation}
      (waits : c.waiting = [.observing .report p o]) (unclosed : c.loop.phase.isOver = false)
      (collects : c.loop.tree.collect (p.jobs c.loop.tree) = .ok (rest, final)) : UnderWay final (rest.length + 2) c
  | flushing {c : Course} {tally : Summary} (waits : c.waiting = [.flushing .report tally])
      (unclosed : c.loop.phase.isOver = false) (tree : c.loop.tree = final) : UnderWay final 1 c

variable {c : Course} {final : Tree} {n : Nat}

theorem UnderWay.of_goesOn {l : Loop} {notices : List Notice} {all : List Observation} {m : Move}
    {before : List Event} {plan : Option Plan} (goesOn : PassGoesOn l .report notices final all m)
    (unclosed : l.phase.isOver = false) (none : c.waiting = []) :
    UnderWay final (all.length + 1) (c.move before plan m) := by
  cases goesOn with
  | flush => exact .flushing (congrArg _ none) unclosed rfl
  | observe collects => exact .observing (congrArg _ none) unclosed collects

theorem UnderWay.waits (underWay : UnderWay final n c) : c.waiting ≠ [] := by
  cases underWay with
  | observing waits | flushing waits => exact waiting_ne_nil waits

theorem UnderWay.pos (underWay : UnderWay final n c) : 0 < n := by
  cases underWay with
  | observing | flushing => exact Nat.succ_pos _

theorem take_of_idle (none : c.waiting = []) (o : Outcome) : c.take (.outcome o) = c := by
  simp only [take, none]

/-- An interruption ends a pass at once. -/
theorem UnderWay.take_aborted (underWay : UnderWay final n c) (message : String) :
    (c.take (.outcome (.aborted message))).waiting = [] := by
  cases underWay with
  | observing waits | flushing waits => simp only [Course.take, waits, move, Loop.resume, Loop.answered]

/-- With each call that comes out, the pass comes nearer to its end. -/
theorem UnderWay.answer (underWay : UnderWay final n c) (temper : Temper) :
    ((c.answer temper).waiting = [] ∧ (c.answer temper).loop.tree = final) ∨
      ∃ m, n = m + 1 ∧ UnderWay final m (c.answer temper) := by
  cases underWay with
  | @observing _ p o rest waits unclosed collects =>
    obtain ⟨came, plan, notices, m, next, _, goesOn⟩ := answer_observing temper waits collects
    rw [next]
    exact .inr ⟨rest.length + 1, rfl, .of_goesOn goesOn unclosed rfl⟩
  | flushing waits unclosed tree =>
    obtain ⟨came, summary, notices, _, next⟩ := answer_flushing temper waits
    rw [next, Loop.planAfter_report unclosed, move_answer]
    exact .inl ⟨rfl, tree⟩

theorem exists_temper {o : Outcome} (calm : o.aborts = false) (past : List Event) :
    ∃ temper : Temper, temper.outcome past = o := by
  cases o with
  | returned => exact ⟨fun _ => none, rfl⟩
  | failed failure => exact ⟨fun _ => some failure, rfl⟩
  | aborted message => cases calm

/-- However the calls of a pass come out, there are no more of them than it has to make, and if none breaks it off,
it leaves the tree behind that it was to leave. -/
theorem UnderWay.run (underWay : UnderWay final n c) (outcomes : List Outcome) :
    (n ≤ outcomes.length → (c.run (outcomes.map .outcome)).waiting = []) ∧
      ((c.run (outcomes.map .outcome)).waiting = [] → (∀ o ∈ outcomes, o.aborts = false) →
        (c.run (outcomes.map .outcome)).loop.tree = final) := by
  induction outcomes generalizing c n with
  | nil =>
    exact ⟨fun done => absurd underWay.pos (Nat.not_lt.mpr done), fun ended => absurd ended underWay.waits⟩
  | cons o rest ih =>
    have idle : ∀ d : Course, d.waiting = [] → d.run (rest.map .outcome) = d := by
      intro d none
      refine run_induction (P := fun e => e = d) rfl fun e step member same => ?_
      obtain ⟨later, _, rfl⟩ := List.mem_map.mp member
      rw [same, take_of_idle none]
    rw [List.map_cons, show c.run (.outcome o :: rest.map .outcome) = (c.take (.outcome o)).run _ from rfl,
      List.length_cons]
    cases calm : o.aborts with
    | true =>
      cases o with
      | returned | failed => cases calm
      | aborted message =>
        have ended := underWay.take_aborted message
        rw [idle _ ended]
        exact ⟨fun _ => ended, fun _ unbroken => absurd (unbroken _ (List.mem_cons_self ..)) (by rw [calm]; decide)⟩
    | false =>
      obtain ⟨temper, same⟩ := exists_temper calm c.past
      have came : c.take (.outcome o) = c.answer temper := by rw [Course.answer, same]
      rw [came]
      rcases underWay.answer temper with ⟨ended, tree⟩ | ⟨m, rfl, onward⟩
      · rw [idle _ ended]
        exact ⟨fun _ => ended, fun _ _ => tree⟩
      · obtain ⟨ends, leaves⟩ := ih onward
        exact ⟨fun enough => ends (Nat.le_of_succ_le_succ enough),
          fun ended unbroken => leaves ended fun other later => unbroken other (List.mem_cons_of_mem _ later)⟩

/-- A report that makes a pass has as many calls to make as there is to report, and the flush. -/
theorem Poised.underWay (poised : c.Poised) :
    UnderWay c.loop.tree.settled (c.loop.tree.pending.length + 1) (c.take .report) := by
  have entered := c.loop.tree.collect_of_enter .empty c.loop.tree.identities
  have collects := entered.symm.trans (Tree.collect_jobs poised.integral poised.distinct)
  have goesOn := pass_goesOn c.loop .report .empty [] collects
  rw [take, Loop.report, poised.planReport]
  exact .of_goesOn goesOn poised.unclosed poised.none

end Course

end MetricTree
