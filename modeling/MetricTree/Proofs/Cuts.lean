import MetricTree.Proofs.FaultlessPasses
import MetricTree.Proofs.StageSteps

namespace MetricTree

namespace Move

/-- A move leaves integers, and waits for nothing that is not there. -/
structure Sound (m : Move) : Prop where
  integral : m.loop.tree.Integral
  within : ∀ a, m.next = .waits a → a.Within m.loop.tree

theorem Sound.after {m : Move} (sound : m.Sound) (notices : List Notice) : (Move.after notices m).Sound :=
  ⟨sound.integral, sound.within⟩

end Move

namespace Loop

variable {l : Loop}

theorem pass_within (l : Loop) (duty : Duty) (tally : Summary)
    {found : Except Fault (Option (Observation × Pass)) × Tree} {seen : Option (Observation × Pass)}
    (succeeds : found.1 = .ok seen) (within : ∀ o p, seen = some (o, p) → p.cursor.Within found.2) :
    (∀ a, (l.pass duty tally found).next = .waits a → a.Within (l.pass duty tally found).loop.tree) ∧
      ∀ fault, (l.pass duty tally found).next ≠ .ends (.error fault) := by
  obtain ⟨r, tree⟩ := found
  cases succeeds
  cases seen with
  | none => exact ⟨fun a same => by cases same; trivial, fun fault same => by cases same⟩
  | some found => exact ⟨fun a same => by cases same; exact within _ _ rfl, fun fault same => by cases same⟩

theorem follow_sound (integral : l.tree.Integral) (plan : Plan) :
    (l.follow plan).Sound ∧ ∀ fault, (l.follow plan).next ≠ .ends (.error fault) := by
  have kept := (l.follow_sweeps plan).integral integral
  cases plan with
  | pass duty =>
    obtain ⟨seen, run, within⟩ := Tree.enter_succeeds .empty integral l.tree.identities
    obtain ⟨still, unfailing⟩ := l.pass_within duty .empty run within
    exact ⟨⟨kept, still⟩, unfailing⟩
  | answer answer => exact ⟨⟨kept, fun a same => by cases same⟩, fun fault same => by cases same⟩
  | leave last answer =>
    have ends : (∃ a, (l.follow (.leave last answer)).next = .waits (.leaving a)) ∨
        ∃ a, (l.follow (.leave last answer)).next = .ends (.ok a) := by
      simp only [follow, leave]
      split
      · exact .inl ⟨_, rfl⟩
      · exact .inr ⟨_, rfl⟩
    rcases ends with ⟨b, waits⟩ | ⟨b, ends⟩
    · rw [waits]
      exact ⟨⟨kept, fun a same => by rw [waits] at same; cases same; trivial⟩, fun fault same => by cases same⟩
    · rw [ends]
      exact ⟨⟨kept, fun a same => by rw [ends] at same; cases same⟩, fun fault same => by cases same⟩

theorem close_sound (integral : l.tree.Integral) :
    l.close.Sound ∧ ∀ fault, l.close.next ≠ .ends (.error fault) := by
  unfold close
  split
  · exact follow_sound integral _
  · exact follow_sound (l := { l with phase := .closing }) integral _

/-- With integers only, a pass under way is cut short by an interruption and by nothing else. -/
theorem resume_sound {a : Activity} {o : Outcome} (integral : l.tree.Integral) (within : a.Within l.tree) :
    (l.resume a o).Sound ∧ ∀ fault, (l.resume a o).next = .ends (.error fault) → a.duty?.isSome →
      ∃ message, o = .aborted message ∧ fault = .aborted message := by
  have kept := (l.resume_sweeps a o).integral integral
  cases a with
  | leaving answer =>
    refine ⟨⟨kept, fun a same => ?_⟩, fun fault same under => by cases under⟩
    cases o <;> cases same
  | flushing duty tally =>
    have sound := follow_sound (l := { l with passes := l.passes + 1, busy := false }) integral
      (l.planAfter (Loop.flushed tally o) duty)
    cases o with
    | returned => exact ⟨sound.1.after _, fun fault same => absurd same (sound.2 fault)⟩
    | failed failure => exact ⟨sound.1.after _, fun fault same => absurd same (sound.2 fault)⟩
    | aborted message =>
      exact ⟨⟨integral, fun a same => by cases same⟩, fun fault same _ => ⟨message, rfl, by cases same; rfl⟩⟩
  | observing duty p seen =>
    have visits : ∀ tally, ∃ seen, (l.tree.continuePass { p with tally := tally }).1 = .ok seen ∧
        ∀ o next, seen = some (o, next) → next.cursor.Within (l.tree.continuePass { p with tally := tally }).2 :=
      fun tally => Tree.continuePass_succeeds integral within
    obtain ⟨found, run, still⟩ := visits (tallied p.tally seen o)
    have paused := l.pass_within duty (tallied p.tally seen o) run still
    cases o with
    | returned => exact ⟨⟨kept, paused.1⟩, fun fault same => absurd same (paused.2 fault)⟩
    | failed failure => exact ⟨⟨kept, paused.1⟩, fun fault same => absurd same (paused.2 fault)⟩
    | aborted message =>
      exact ⟨⟨integral, fun a same => by cases same⟩, fun fault same _ => ⟨message, rfl, by cases same; rfl⟩⟩

/-- Of what a pass makes, an interrupted call ends it. -/
theorem resume_aborted {a : Activity} {message : String} (under : a.duty?.isSome) :
    l.resume a (.aborted message) = answered { l with busy := false } (.error (.aborted message)) := by
  cases a with
  | observing | flushing => rfl
  | leaving => cases under

end Loop

namespace Course

/-- All that waits for the reporter is there, in a tree of integers. -/
structure Sound (c : Course) : Prop where
  integral : c.loop.tree.Integral
  within : ∀ a ∈ c.waiting, a.Within c.loop.tree

variable {c : Course} {s : Stage}

theorem move_sound {before : List Event} {plan : Option Plan} {m : Move} (sound : m.Sound)
    (extended : m.loop.tree.Extends c.loop.tree) (within : ∀ a ∈ c.waiting, a.Within c.loop.tree) :
    (c.move before plan m).Sound := by
  refine ⟨sound.integral, fun a member => ?_⟩
  have still : ∀ a ∈ c.waiting, a.Within m.loop.tree := fun a old => (within a old).extends extended
  cases next : m.next with
  | ends answer =>
    simp only [move, next] at member
    exact still a member
  | waits b =>
    simp only [move, next] at member
    rcases List.mem_cons.mp member with rfl | old
    · exact sound.within a next
    · exact still a old

/-- What a move cuts short is a pass that fails, in a loop that is not closed. -/
theorem cut_mem_own {plan : Option Plan} {m : Move} {fault : Fault} :
    .cut fault ∈ own plan m ↔ m.next = .ends (.error fault) ∧ m.loop.phase ≠ .closed := by
  have untold : .cut fault ∉ m.notices.map Event.told := by simp
  have unplanned : .cut fault ∉ (plan.map Plan.events).getD [] := by
    rcases plan with _ | _ | _ | _ <;> simp [Plan.events]
  simp only [own, List.mem_append, untold, unplanned, false_or]
  unfold Move.ending
  rcases m.next with a | other | answer
  · simp
  · by_cases closed : m.loop.phase = .closed
    · simp [closed]
    · simp [closed, eq_comm]
  · simp

/-- What the events of a step tell of interruptions: with integers only, a pass is cut short if and only
if the reporter breaks off a call that the pass makes. -/
structure CutsOnly (step : Step) (events : List Event) : Prop where
  cut : ∀ fault, .cut fault ∈ events → ∃ a message, fault = .aborted message ∧ a.duty?.isSome ∧
    .came a (.aborted message) ∈ events
  broken : ∀ a message, a.duty?.isSome → .came a (.aborted message) ∈ events → .cut (.aborted message) ∈ events
  came : ∀ a o, .came a o ∈ events → step = .outcome o
  closing : .closing ∈ events → step = .close

theorem CutsOnly.of_quiet {step : Step} {events : List Event} (quiet : ∀ e ∈ events, e.isQuiet = true)
    (uncome : ∀ a o, .came a o ∉ events) : CutsOnly step events where
  cut fault member := by cases quiet _ member
  broken a message _ member := absurd member (uncome _ _)
  came a o member := absurd member (uncome _ _)
  closing member := by cases quiet _ member

theorem uncome_of_change {t u : Tree} {events : List Event} (change : t.Change events u) :
    ∀ a o, .came a o ∉ events := by
  cases change <;> simp

/-- With integers only, nothing that waits vanishes in a step, and only the reporter cuts a pass short. -/
def StaysSound (c : Course) (step : Step) : Prop :=
  (c.take step).Sound ∧ ∃ events, (c.take step).past = c.past ++ events ∧ CutsOnly step events

theorem Sound.request {r : Request} (sound : c.Sound) (integral : (Step.request r).isIntegral) :
    c.StaysSound (.request r) := by
  cases run : r.perform c.loop.tree with
  | error fault =>
    simp only [StaysSound, take, run]
    exact ⟨sound, [], (List.append_nil _).symm, .of_quiet (fun e member => by cases member) fun a o => by simp⟩
  | ok done =>
    have change := Request.perform_change run
    simp only [StaysSound, take, run]
    refine ⟨⟨change.integral sound.integral (Request.perform_integers run integral), fun a member => ?_⟩,
      _, rfl, .of_quiet (isQuiet_of_perform run) ?_⟩
    · exact (sound.within a member).extends change.extends
    · exact uncome_of_change change

theorem Sound.report (sound : c.Sound) : c.StaysSound .report := by
  have moved := c.loop.follow_sound sound.integral c.loop.planReport
  refine ⟨move_sound moved.1 c.loop.report_sweeps.extends sound.within, _, c.past_move _ _ _, ?_, ?_, ?_, ?_⟩
  · exact fun fault member => absurd (cut_mem_own.mp member).1 (moved.2 fault)
  · exact fun a message _ member => by cases isOwn_of_own member
  · exact fun a o member => by cases isOwn_of_own member
  · exact fun member => by cases isOwn_of_own member

theorem Sound.close (sound : c.Sound) : c.StaysSound .close := by
  have moved := c.loop.close_sound sound.integral
  have came : ∀ a o, .came a o ∉ (if c.loop.phase.isOver then [] else [Event.closing]) ++
      own (some c.loop.planClose) c.loop.close := by
    intro a o member
    rcases List.mem_append.mp member with asked | member
    · split at asked <;> simp at asked
    · cases isOwn_of_own member
  refine ⟨move_sound moved.1 c.loop.close_sweeps.extends sound.within, _, c.past_move _ _ _, ?_, ?_, ?_, ?_⟩
  · intro fault member
    rcases List.mem_append.mp member with asked | member
    · split at asked <;> simp at asked
    · exact absurd (cut_mem_own.mp member).1 (moved.2 fault)
  · exact fun a message _ member => absurd member (came _ _)
  · exact fun a o member => absurd member (came _ _)
  · exact fun _ => rfl

theorem Sound.outcome (sound : c.Sound) (here : c.At s) (o : Outcome) : c.StaysSound (.outcome o) := by
  cases waiting : c.waiting with
  | nil =>
    simp only [StaysSound, take, waiting]
    exact ⟨sound, [], (List.append_nil _).symm, .of_quiet (fun e member => by cases member) fun a o => by simp⟩
  | cons a outer =>
    have within : ∀ b ∈ c.waiting, b.Within c.loop.tree := sound.within
    rw [waiting, List.forall_mem_cons] at within
    have moved := c.loop.resume_sound (o := o) sound.integral within.1
    have past := past_move { c with waiting := outer } [.came a o] (a.plan? c.loop o) (c.loop.resume a o)
    have came : ∀ b p, .came b p ∈ [.came a o] ++ own (a.plan? c.loop o) (c.loop.resume a o) → b = a ∧ p = o := by
      intro b p member
      rcases List.mem_append.mp member with first | member
      · cases List.mem_singleton.mp first
        exact ⟨rfl, rfl⟩
      · cases isOwn_of_own member
    simp only [StaysSound, take, waiting]
    refine ⟨move_sound moved.1 (c.loop.resume_sweeps a o).extends within.2, _, past, ?_, ?_, ?_, ?_⟩
    · intro fault member
      rcases List.mem_append.mp member with first | member
      · cases List.mem_singleton.mp first
      · obtain ⟨ends, unclosed⟩ := cut_mem_own.mp member
        rcases here.front waiting with ⟨under, _⟩ | ⟨parting, closed⟩
        · obtain ⟨message, rfl, rfl⟩ := moved.2 fault ends under
          exact ⟨a, message, rfl, under, List.mem_append_left _ (List.mem_singleton.mpr rfl)⟩
        · obtain ⟨notices, answer, same, _⟩ := c.loop.resume_of_leaving (o := o) parting
          rw [same] at unclosed
          exact absurd closed unclosed
    · intro b message under member
      obtain ⟨rfl, rfl⟩ := came b _ member
      rcases here.front waiting with ⟨_, unclosed⟩ | ⟨parting, _⟩
      · refine List.mem_append_right _ (cut_mem_own.mpr ?_)
        rw [Loop.resume_aborted under]
        exact ⟨rfl, unclosed⟩
      · rw [parting] at under
        cases under
    · intro b p member
      rw [(came b p member).2]
    · intro member
      rcases List.mem_append.mp member with first | member
      · cases List.mem_singleton.mp first
      · cases isOwn_of_own member

theorem take_sound (sound : c.Sound) (here : c.At s) {step : Step} (integral : step.isIntegral) :
    c.StaysSound step := by
  cases step with
  | request r => exact sound.request integral
  | start =>
    have same : (c.take .start).loop.tree = c.loop.tree := c.loop.start_tree
    refine ⟨⟨same ▸ sound.integral, same ▸ sound.within⟩, _, rfl, .of_quiet (fun e => isQuiet_of_told) ?_⟩
    simp
  | report => exact sound.report
  | close => exact sound.close
  | outcome o => exact sound.outcome here o

end Course

end MetricTree
