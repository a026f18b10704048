import MetricTree.Proofs.CloseHistory
import MetricTree.Proofs.Cuts
import MetricTree.Proofs.Openings
import MetricTree.Proofs.StepEffect

namespace MetricTree

namespace Course

/-- A course at a stage, with the history that belongs to it. -/
structure Placed (c : Course) (reporter : Option Reporter) (s : Stage) : Prop where
  here : c.At s
  fits : s.Fits reporter c.past
  reporter : c.loop.reporter = reporter

variable {c : Course} {s : Stage} {o : Options} {interval : Interval} {opening : Opening} {steps : List Step}

theorem Placed.take {reporter : Option Reporter} (placed : c.Placed reporter s) (step : Step) :
    ∃ next, (c.take step).Placed reporter next := by
  obtain ⟨events, next, advances⟩ := take_advances placed.here step
  have leads := advances.leads
  rw [placed.reporter] at leads
  refine ⟨next, advances.here, ?_, advances.reporter.trans placed.reporter⟩
  rw [advances.past]
  exact leads.fits placed.fits

theorem placed_opened (opened : Opening.ofOptions o interval = .ok opening) :
    (Course.opened opening).Placed o.reporter .ready := by
  obtain ⟨separator, stem, tags, seconds, started⟩ := Opening.ofOptions_start opened
  have loop : opening.loop =
      (Loop.start ⟨(Tree.ofRoot separator stem tags).2, seconds, o.reporter, .idle, 0, false⟩).1 :=
    (congrArg Prod.fst started).symm
  have unparted : ∀ e ∈ (Course.opened opening).past, e.isParting = false := by
    intro e told
    exact (Event.isTame_iff.mp (Event.isTame_of_isQuiet (isQuiet_of_told told))).2.2.2
  have unasked : .closing ∉ (Course.opened opening).past := fun told => by cases isQuiet_of_told told
  rcases Loop.start_cases (l := ⟨(Tree.ofRoot separator stem tags).2, seconds, o.reporter, .idle, 0, false⟩) with
    same | ⟨_, same⟩
  · rw [same] at loop
    exact ⟨.ready rfl (by rw [Course.opened, loop]) (by rw [Course.opened, loop]; rfl), .ready unasked unparted,
      by rw [Course.opened, loop]⟩
  · rw [same] at loop
    exact ⟨.ready rfl (by rw [Course.opened, loop]) (by rw [Course.opened, loop]; rfl), .ready unasked unparted,
      by rw [Course.opened, loop]⟩

theorem placed_run (opened : Opening.ofOptions o interval = .ok opening) (steps : List Step) :
    ∃ s, ((Course.opened opening).run steps).Placed o.reporter s := by
  refine run_induction (P := fun c => ∃ s, c.Placed o.reporter s) ⟨.ready, placed_opened opened⟩ ?_
  rintro c step _ ⟨s, placed⟩
  exact placed.take step

theorem past_prefix_run (c : Course) (steps : List Step) : c.past <+: (c.run steps).past := by
  refine run_induction (P := fun d => c.past <+: d.past) (List.prefix_refl _) ?_
  intro d step _ before
  obtain ⟨events, past, _⟩ := d.take_effect step
  rw [past]
  exact before.trans (List.prefix_append _ _)

/-- Once a close is over, or even asked for, it has taken effect. -/
theorem Placed.closing_mem {reporter : Option Reporter} (placed : c.Placed reporter s)
    (ended : c.loop.phase.isOver = true) : .closing ∈ c.past := by
  obtain ⟨here, fits, _⟩ := placed
  cases fits with
  | ready => cases here with | ready _ _ unclosed => rw [ended] at unclosed; cases unclosed
  | reporting => cases here with | passing _ _ _ _ allowed => rw [allowed.1] at ended; cases ended
  | asked asked | last asked | stuck asked | finished asked => exact asked

theorem Placed.not_closing_mem {reporter : Option Reporter} (placed : c.Placed reporter s)
    (unclosed : c.loop.phase.isOver = false) : .closing ∉ c.past := by
  obtain ⟨here, fits, _⟩ := placed
  cases fits with
  | ready unasked | reporting unasked => exact unasked
  | asked | last =>
    cases here with
    | passing _ _ _ _ closing =>
      rw [Phase.Allows] at closing
      rw [closing] at unclosed
      cases unclosed
  | stuck => cases here with | stuck _ _ _ closing => rw [closing] at unclosed; cases unclosed
  | finished => cases here with | finished _ _ closed => rw [closed] at unclosed; cases unclosed

theorem closing_mem_of_close (opened : Opening.ofOptions o interval = .ok opening) (asked : .close ∈ steps) :
    .closing ∈ ((Course.opened opening).run steps).past := by
  obtain ⟨sooner, later, rfl⟩ := List.append_of_mem asked
  rw [List.append_cons, run_append, run_append]
  refine (past_prefix_run _ later).subset ?_
  obtain ⟨s, placed⟩ := placed_run opened sooner
  generalize (Course.opened opening).run sooner = c at placed
  cases ended : c.loop.phase.isOver with
  | true => exact (past_prefix_run c [.close]).subset (placed.closing_mem ended)
  | false =>
    have first : .closing ∈ (c.take .close).past := by
      simp only [take, ended, Bool.false_eq_true, if_false, move, List.mem_append]
      exact .inr (.inl (.inl (.inl (List.mem_singleton.mpr rfl))))
    exact first

/-- The reporter broke off a call that a pass made. -/
def Interrupted (events : List Event) : Prop :=
  ∃ a message, a.duty?.isSome ∧ .came a (.aborted message) ∈ events

/-- In a course of integers, passes are cut short by interruptions, and outcomes are those of the steps. -/
structure Faultless (steps : List Step) (c : Course) : Prop where
  sound : c.Sound
  cut : (∃ fault, .cut fault ∈ sinceClose c.past) ↔ Interrupted (sinceClose c.past)
  came : ∀ a o, .came a o ∈ c.past → .outcome o ∈ steps

theorem cut_nil_iff : (∃ fault, Event.cut fault ∈ []) ↔ Interrupted [] := by
  simp only [Interrupted, List.not_mem_nil, and_false, exists_false]

theorem cut_append_iff {events more : List Event} (first : (∃ fault, .cut fault ∈ events) ↔ Interrupted events)
    (second : (∃ fault, .cut fault ∈ more) ↔ Interrupted more) :
    (∃ fault, .cut fault ∈ events ++ more) ↔ Interrupted (events ++ more) := by
  simp only [Interrupted, List.mem_append, and_or_left, exists_or] at first second ⊢
  exact or_congr first second

theorem CutsOnly.cut_iff {step : Step} {events : List Event} (cuts : CutsOnly step events) :
    (∃ fault, .cut fault ∈ events) ↔ Interrupted events := by
  constructor
  · rintro ⟨fault, member⟩
    obtain ⟨a, message, rfl, under, broken⟩ := cuts.cut fault member
    exact ⟨a, message, under, broken⟩
  · rintro ⟨a, message, under, broken⟩
    exact ⟨_, cuts.broken a message under broken⟩

/-- A close that takes effect interrupts nothing in the same step. -/
theorem CutsOnly.cut_sinceClose_iff {step : Step} {events : List Event} (cuts : CutsOnly step events) :
    (∃ fault, .cut fault ∈ sinceClose events) ↔ Interrupted (sinceClose events) := by
  by_cases closing : .closing ∈ events
  · have calm : ¬Interrupted events := by
      rintro ⟨a, message, _, broken⟩
      cases (cuts.closing closing).symm.trans (cuts.came a _ broken)
    constructor
    · rintro ⟨fault, member⟩
      exact absurd (cuts.cut_iff.mp ⟨fault, sinceClose_subset _ member⟩) calm
    · rintro ⟨a, message, under, member⟩
      exact absurd ⟨a, message, under, sinceClose_subset _ member⟩ calm
  · rw [sinceClose_of_not_mem closing]
    exact cut_nil_iff

theorem Faultless.take (before : c.Faultless steps) (here : c.At s) {step : Step} (member : step ∈ steps)
    (integral : step.isIntegral) : (c.take step).Faultless steps := by
  obtain ⟨sound, events, past, cuts⟩ := take_sound before.sound here integral
  refine ⟨sound, ?_, fun a o came => ?_⟩
  · rw [past]
    by_cases asked : .closing ∈ c.past
    · rw [sinceClose_append_of_mem asked]
      exact cut_append_iff before.cut cuts.cut_iff
    · rw [sinceClose_append_of_not_mem asked]
      exact cuts.cut_sinceClose_iff
  · rw [past] at came
    rcases List.mem_append.mp came with old | new
    · exact before.came a o old
    · rw [← cuts.came a o new]
      exact member

theorem faultless_run (opened : Opening.ofOptions o interval = .ok opening)
    (integral : ∀ step ∈ steps, step.isIntegral) : ((Course.opened opening).run steps).Faultless steps := by
  have started : (Course.opened opening).Faultless steps := by
    have quiet : ∀ e ∈ (Course.opened opening).past, e.isQuiet = true := fun e => isQuiet_of_told
    have uncome : ∀ a o, .came a o ∉ (Course.opened opening).past := by
      simp [Course.opened]
    have unasked : .closing ∉ (Course.opened opening).past := fun member => by cases quiet _ member
    refine ⟨⟨fun h c found => ?_, fun a member => by cases member⟩, ?_, fun a o came => absurd came (uncome a o)⟩
    · cases (Opening.counter?_eq_none opened h).symm.trans found
    · rw [sinceClose_of_not_mem unasked]
      exact cut_nil_iff
  refine (run_induction (P := fun c => (∃ s, c.At s) ∧ c.Faultless steps)
    ⟨⟨.ready, (placed_opened opened).here⟩, started⟩ ?_).2
  rintro c step member ⟨⟨s, here⟩, before⟩
  obtain ⟨_, next, advances⟩ := take_advances here step
  exact ⟨⟨next, advances.here⟩, before.take here member (integral step member)⟩

end Course

end MetricTree
