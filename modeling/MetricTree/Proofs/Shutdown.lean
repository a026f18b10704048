import MetricTree.Proofs.StageRuns

namespace MetricTree

namespace Course

/-- When no call of the loop is left, a close that was asked for is done and has closed the reporter, unless
a pass was cut short since it took effect: the loop then remains closing. As long as counters are
given integers, only a reporter that breaks off a call of a pass cuts it short. -/
theorem shutdown_completes {o : Options} {interval : Interval} {opening : Opening} {steps : List Step}
    (opened : Opening.ofOptions o interval = .ok opening) :
    let c := (Course.opened opening).run steps
    c.waiting = [] →
      (c.loop.phase = .closing ↔ ∃ fault, .cut fault ∈ sinceClose c.past) ∧
      (.close ∈ steps → (∀ fault, .cut fault ∉ sinceClose c.past) → c.loop.phase = .closed ∧
        ((o.reporter.map Reporter.closes).getD false = true → ∃ answer, .called (.leaving answer) ∈ c.past)) ∧
      ((∀ step ∈ steps, step.isIntegral) →
        ((∃ fault, .cut fault ∈ sinceClose c.past) ↔ Interrupted (sinceClose c.past))) := by
  intro c none
  have integers : (∀ step ∈ steps, step.isIntegral) →
      ((∃ fault, .cut fault ∈ sinceClose c.past) ↔ Interrupted (sinceClose c.past)) :=
    fun integral => (faultless_run opened integral).cut
  have asks : .close ∈ steps → .closing ∈ c.past := closing_mem_of_close opened
  obtain ⟨s, here, fits, _⟩ := placed_run opened steps
  cases fits with
  | ready unasked =>
    cases here with
    | ready _ _ unclosed =>
      refine ⟨⟨fun closing => ?_, ?_⟩, fun asked => absurd (asks asked) unasked, integers⟩
      · rw [closing] at unclosed
        cases unclosed
      · rintro ⟨fault, cut⟩
        rw [sinceClose_of_not_mem unasked] at cut
        cases cut
  | reporting | asked | last =>
    cases here with
    | passing one => cases one.symm.trans none
  | stuck asked _ _ cut =>
    cases here with
    | stuck _ _ _ closing =>
      obtain ⟨fault, member⟩ := cut
      exact ⟨⟨fun _ => ⟨fault, member⟩, fun _ => closing⟩, fun _ uncut => absurd member (uncut fault), integers⟩
  | finished asked uncut once parted =>
    cases here with
    | finished _ _ closed =>
      refine ⟨⟨fun closing => ?_, ?_⟩, fun _ _ => ⟨closed, fun closes => ?_⟩, integers⟩
      · cases closed.symm.trans closing
      · rintro ⟨fault, member⟩
        cases uncut _ member
      · rw [if_pos closes] at parted
        exact parted.exists_parting

/-- A close in the middle of a report's pass, after which the reporter is closed. -/
theorem shutdown_completes_put_off :
    ∃ opening, Opening.ofOptions { Options.standard with reporter := some ⟨"Recorder", true, true⟩ }
        (.value .null) = .ok opening ∧
      let c := (Course.opened opening).run
        [.report, .close, .outcome .returned, .outcome (.failed ⟨"OSError", "gone"⟩), .outcome .returned]
      c.loop.phase = .closed ∧ ∃ answer, .called (.leaving answer) ∈ c.past := by
  have opened : Opening.ofOptions { Options.standard with reporter := some ⟨"Recorder", true, true⟩ }
    (.value .null) = .ok _ := rfl
  refine ⟨_, opened, ?_⟩
  intro c
  have none : c.waiting = [] := List.isEmpty_iff.mp (by decide +kernel)
  have calm : (sinceClose c.past).any Event.isCut = false := by decide +kernel
  have uncut : ∀ fault, .cut fault ∉ sinceClose c.past := by
    intro fault member
    rw [List.any_eq_false] at calm
    exact calm _ member rfl
  obtain ⟨closed, parted⟩ := (shutdown_completes opened none).2.1 (by simp) uncut
  exact ⟨closed, parted rfl⟩

/-- A reporter that breaks off the flush of the last pass is not closed, and nothing is left to be done. -/
theorem shutdown_broken_off :
    ∃ opening, Opening.ofOptions { Options.standard with reporter := some ⟨"Recorder", true, true⟩ }
        (.value .null) = .ok opening ∧
      let c := (Course.opened opening).run [.close, .outcome (.aborted "stop")]
      c.waiting = [] ∧ c.loop.phase = .closing ∧ ∀ answer, .called (.leaving answer) ∉ c.past := by
  have opened : Opening.ofOptions { Options.standard with reporter := some ⟨"Recorder", true, true⟩ }
    (.value .null) = .ok _ := rfl
  refine ⟨_, opened, ?_⟩
  intro c
  have none : c.waiting = [] := List.isEmpty_iff.mp (by decide +kernel)
  have unparted : c.past.any Event.isParting = false := by decide +kernel
  refine ⟨none, by decide +kernel, fun answer member => ?_⟩
  rw [List.any_eq_false] at unparted
  exact unparted _ member rfl

end Course

end MetricTree
