import MetricTree.Proofs.LoopMoves

namespace MetricTree

namespace Course

/-- Is it neither a close nor a pass that begins or is cut, and no call of the reporter? -/
def Event.isQuiet : Event → Bool
  | .closing | .began _ | .called _ | .cut _ => false
  | _ => true

theorem isQuiet_of_told {notices : List Notice} {e : Event} (member : e ∈ notices.map Event.told) :
    e.isQuiet = true := by
  obtain ⟨notice, _, rfl⟩ := List.mem_map.mp member
  rfl

/-- How far a loop has come with its close. A pass is asked for its last when a close has taken effect. -/
inductive Stage where
  | ready
  | passing (duty : Duty) (asked : Bool)
  | stuck
  | finished

namespace Stage

/-- What happens when a pass pauses, and the stage that it leaves the loop at. -/
inductive Pauses (duty : Duty) (asked : Bool) : List Event → Stage → Prop
  | waits {a : Activity} (same : a.duty? = some duty) : Pauses duty asked [.called a] (.passing duty asked)
  | breaks {fault : Fault} :
      Pauses duty asked [.cut fault, .answered (.error fault)] (if asked then .stuck else .ready)

/-- What can happen at a stage of a loop with such a reporter, and the stage that is next. -/
inductive Leads (reporter : Option Reporter) : Stage → List Event → Stage → Prop
  | quiet {s : Stage} {events : List Event} (quiet : ∀ e ∈ events, e.isQuiet = true) : Leads reporter s events s
  | goesOn {duty : Duty} {asked : Bool} {a : Activity} {o : Outcome} {notices : List Notice}
      {ending : List Event} {s : Stage} (pauses : Pauses duty asked ending s) :
      Leads reporter (.passing duty asked) (.came a o :: notices.map .told ++ ending) s
  | report {ending : List Event} {s : Stage} (pauses : Pauses .report false ending s) :
      Leads reporter .ready (.began .report :: ending) s
  | reported {tally : Summary} {o : Outcome} {notices : List Notice} {answer : Option Summary} :
      Leads reporter (.passing .report false)
        (.came (.flushing .report tally) o :: notices.map .told ++ [.answered (.ok answer)]) .ready
  | ask {answer : Option Summary} :
      Leads reporter (.passing .report false) [.closing, .answered (.ok answer)] (.passing .report true)
  | close {ending : List Event} {s : Stage} (attached : reporter.isSome) (pauses : Pauses .close true ending s) :
      Leads reporter .ready (.closing :: .began .close :: ending) s
  | closeBare {notices : List Notice} {answer : Option Summary} (bare : reporter = none) :
      Leads reporter .ready (.closing :: notices.map .told ++ [.answered (.ok answer)]) .finished
  | farewell {tally summary : Summary} {o : Outcome} {notices : List Notice} {ending : List Event} {s : Stage}
      (calm : o.aborts = false) (pauses : Pauses (.farewell summary) true ending s) :
      Leads reporter (.passing .report true)
        (.came (.flushing .report tally) o :: notices.map .told ++ [.began (.farewell summary)] ++ ending) s
  | leave {duty : Duty} {tally : Summary} {o : Outcome} {notices : List Notice} {r : Reporter} {last : Event}
      (late : duty.isLast = true) (attached : reporter = some r)
      (parting : ∃ answer, last = if r.closes then .called (.leaving answer) else .answered (.ok answer)) :
      Leads reporter (.passing duty true) (.came (.flushing duty tally) o :: notices.map .told ++ [last]) .finished

end Stage

end Course

/-- Can a pass for this duty be under way in this phase, with or without a close asked for? -/
def Phase.Allows (p : Phase) (duty : Duty) : Bool → Prop
  | false => p.isOver = false ∧ duty = .report
  | true => p = .closing

theorem Phase.Allows.ne_closed {p : Phase} {duty : Duty} {asked : Bool} (allowed : p.Allows duty asked) :
    p ≠ .closed := by
  rintro rfl
  cases asked with
  | false => cases allowed.1
  | true => cases allowed

namespace Course

/-- The stage that a course is at. There is never more than one call of the reporter that has not come out. -/
inductive At (c : Course) : Stage → Prop
  | ready (none : c.waiting = []) (rest : c.loop.busy = false) (phase : c.loop.phase.isOver = false) : At c .ready
  | passing {a : Activity} {duty : Duty} {asked : Bool} (one : c.waiting = [a]) (same : a.duty? = some duty)
      (busy : c.loop.busy = true) (attached : c.loop.reporter.isSome) (phase : c.loop.phase.Allows duty asked) :
      At c (.passing duty asked)
  | stuck (none : c.waiting = []) (rest : c.loop.busy = false) (attached : c.loop.reporter.isSome)
      (phase : c.loop.phase = .closing) : At c .stuck
  | finished (parting : ∀ a ∈ c.waiting, a.duty? = none) (rest : c.loop.busy = false) (phase : c.loop.phase = .closed) :
      At c .finished

variable {c d : Course} {s : Stage}

/-- Between the phases that are not over, a stage does not distinguish. -/
theorem At.congr (here : c.At s) (waiting : d.waiting = c.waiting) (busy : d.loop.busy = c.loop.busy)
    (reporter : d.loop.reporter = c.loop.reporter)
    (phase : d.loop.phase = c.loop.phase ∨ c.loop.phase.isOver = false ∧ d.loop.phase.isOver = false) :
    d.At s := by
  rcases phase with same | ⟨before, after⟩
  · cases here with
    | ready none rest unclosed => exact .ready (waiting ▸ none) (busy ▸ rest) (same ▸ unclosed)
    | passing one serves under attached allowed =>
      exact .passing (waiting ▸ one) serves (busy ▸ under) (reporter ▸ attached) (same ▸ allowed)
    | stuck none rest attached closing =>
      exact .stuck (waiting ▸ none) (busy ▸ rest) (reporter ▸ attached) (same ▸ closing)
    | finished parting rest closed => exact .finished (waiting ▸ parting) (busy ▸ rest) (same ▸ closed)
  · cases here with
    | ready none rest _ => exact .ready (waiting ▸ none) (busy ▸ rest) after
    | @passing a duty asked one serves under attached allowed =>
      cases asked with
      | false => exact .passing (waiting ▸ one) serves (busy ▸ under) (reporter ▸ attached) ⟨after, allowed.2⟩
      | true => rw [Phase.Allows] at allowed; rw [allowed] at before; cases before
    | stuck _ _ _ closing => rw [closing] at before; cases before
    | finished _ _ closed => rw [closed] at before; cases before

/-- Until the loop is closed, what waits for the reporter is a pass; then it is the close. -/
theorem At.front {a : Activity} {outer : List Activity} (here : c.At s) (waiting : c.waiting = a :: outer) :
    a.duty?.isSome ∧ c.loop.phase ≠ .closed ∨ a.duty? = none ∧ c.loop.phase = .closed := by
  cases here with
  | ready none | stuck none => rw [none] at waiting; cases waiting
  | passing one same _ _ allowed =>
    rw [one] at waiting
    cases waiting
    exact .inl ⟨Option.isSome_iff_exists.mpr ⟨_, same⟩, allowed.ne_closed⟩
  | finished parting _ closed => exact .inr ⟨parting a (waiting ▸ List.mem_cons_self ..), closed⟩

end Course

end MetricTree
