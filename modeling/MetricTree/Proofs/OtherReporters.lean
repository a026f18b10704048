import MetricTree.Proofs.PassTrace

namespace MetricTree

/-- The loop with this reporter. -/
def Loop.on (l : Loop) (r : Reporter) : Loop := { l with reporter := some r }

def Call.isClose : Call → Bool
  | .close => true
  | _ => false

/-- Does it belong to a pass? -/
def Activity.inPass (a : Activity) : Bool := a.duty?.isSome

/-- Is there nothing left to be done but to close the reporter? -/
def Next.parts : Next → Bool
  | .waits a => !a.inPass
  | .ends _ => true

/-- What comes next for two reporters: the same, or nothing but that one of them can be closed. -/
def Next.Swaps (m n : Next) : Prop := m = n ∨ m.parts = true ∧ n.parts = true

/-- Passes that go on alike, or nothing left to be done for either reporter but to close it. -/
inductive Next.Akin : Next → Next → Prop
  | waits {a b : Activity} (alike : a.Alike b) : Akin (.waits a) (.waits b)
  | parts {m n : Next} (first : m.parts = true) (second : n.parts = true) : Akin m n

/-- Moves of two reporters that leave the same. -/
structure Move.Akin (r q : Reporter) (m n : Move) : Prop where
  loop : ∃ k : Loop, m.loop = k.on r ∧ n.loop = k.on q
  next : m.next.Akin n.next

theorem Activity.Alike.symm {a b : Activity} (alike : a.Alike b) : b.Alike a := by
  have duties : ∀ {d e : Duty}, d.Alike e → e.Alike d := by
    intro d e same
    cases same <;> constructor
  cases alike with
  | observing duty waiting cursor => exact .observing (duties duty) waiting.symm cursor.symm
  | flushing duty => exact .flushing (duties duty)
  | leaving => exact .leaving

theorem Activity.Alike.inPass {a b : Activity} (alike : a.Alike b) : a.inPass = b.inPass := by
  cases alike <;> rfl

theorem Next.Alike.parts {m n : Next} (alike : m.Alike n) : m.parts = n.parts := by
  cases alike with
  | waits alike => rw [Next.parts, Next.parts, alike.inPass]
  | ends => rfl

theorem Next.Alike.akin {m n k : Next} (alike : m.Alike n) (swaps : n.Swaps k) : m.Akin k := by
  rcases swaps with rfl | ⟨first, second⟩
  · cases alike with
    | waits alike => exact .waits alike
    | ends => exact .parts rfl rfl
  · exact .parts (alike.parts.trans first) second

namespace Loop

variable {l : Loop} {r q : Reporter}

theorem pass_on (l : Loop) (r : Reporter) (duty : Duty) (tally : Summary)
    (found : Except Fault (Option (Observation × Pass)) × Tree) :
    ((l.on r).pass duty tally found).loop = (l.pass duty tally found).loop.on r ∧
      ((l.on r).pass duty tally found).next = (l.pass duty tally found).next := by
  obtain ⟨fault | _ | ⟨o, p⟩, after⟩ := found <;> exact ⟨rfl, rfl⟩

theorem leave_parts (l : Loop) (last : Summary) (answer : Option Summary) :
    (l.leave last answer).next.parts = true := by
  unfold leave
  simp only
  split <;> rfl

/-- What a plan leads to depends on the reporter only in whether it is closed. -/
theorem follow_on (l : Loop) (r q : Reporter) (plan : Plan) :
    (∃ k : Loop, ((l.on r).follow plan).loop = k.on r ∧ ((l.on q).follow plan).loop = k.on q) ∧
      ((l.on r).follow plan).next.Swaps ((l.on q).follow plan).next := by
  cases plan with
  | answer answer => exact ⟨⟨l, rfl, rfl⟩, .inl rfl⟩
  | leave last answer =>
    exact ⟨⟨{ l with phase := .closed }, rfl, rfl⟩, .inr ⟨leave_parts _ _ answer, leave_parts _ _ answer⟩⟩
  | pass duty =>
    obtain ⟨first, same⟩ := l.pass_on r duty .empty l.tree.beginPass
    obtain ⟨second, same'⟩ := l.pass_on q duty .empty l.tree.beginPass
    exact ⟨⟨_, first, second⟩, .inl (same.trans same'.symm)⟩

theorem follow_akin (l : Loop) (r q : Reporter) (plan : Plan) :
    Move.Akin r q ((l.on r).follow plan) ((l.on q).follow plan) :=
  ⟨(l.follow_on r q plan).1, (Move.Alike.refl _).next.akin (l.follow_on r q plan).2⟩

theorem start_on (l : Loop) (r : Reporter) : (l.on r).start.1 = l.start.1.on r := by
  by_cases started : (l.phase != .idle) = true
  · rw [start, start, if_pos started, if_pos (show ((l.on r).phase != .idle) = true from started)]
  · rw [start, start, if_neg started, if_neg (show ¬((l.on r).phase != .idle) = true from started)]
    by_cases manual : l.interval.atMost .zero = true
    · rw [if_pos manual, if_pos (show (l.on r).interval.atMost .zero = true from manual)]
    · rw [if_neg manual, if_neg (show ¬(l.on r).interval.atMost .zero = true from manual)]
      rfl

theorem close_akin (l : Loop) (r q : Reporter) : Move.Akin r q (l.on r).close (l.on q).close := by
  have planned : (l.on r).planClose = (l.on q).planClose := rfl
  unfold close
  rw [planned]
  split
  · next asked =>
    rw [if_pos (show (l.on q).phase.isOver = true from asked)]
    exact l.follow_akin r q _
  · next unclosed =>
    rw [if_neg (show ¬(l.on q).phase.isOver = true from unclosed)]
    exact follow_akin { l with phase := .closing } r q _

/-- Unless it is broken off, a call that comes out leads to the same for two reporters. -/
theorem resume_on (l : Loop) (r q : Reporter) (a : Activity) {o : Outcome} (calm : o.aborts = false) :
    (∃ k : Loop, ((l.on r).resume a o).loop = k.on r ∧ ((l.on q).resume a o).loop = k.on q) ∧
      ((l.on r).resume a o).next.Swaps ((l.on q).resume a o).next := by
  cases a with
  | observing duty p seen =>
    obtain ⟨notices, same⟩ := (l.on r).resume_observing duty p seen calm
    obtain ⟨notices', same'⟩ := (l.on q).resume_observing duty p seen calm
    obtain ⟨first, next⟩ := l.pass_on r duty (tallied p.tally seen o)
      (l.tree.continuePass { p with tally := tallied p.tally seen o })
    obtain ⟨second, next'⟩ := l.pass_on q duty (tallied p.tally seen o)
      (l.tree.continuePass { p with tally := tallied p.tally seen o })
    rw [same, same']
    exact ⟨⟨_, first, second⟩, .inl (next.trans next'.symm)⟩
  | flushing duty tally =>
    obtain ⟨notices, same⟩ := (l.on r).resume_flushing duty tally calm
    obtain ⟨notices', same'⟩ := (l.on q).resume_flushing duty tally calm
    rw [same, same']
    exact follow_on { l with passes := l.passes + 1, busy := false } r q _
  | leaving answer =>
    obtain ⟨_, _, same, _⟩ := (l.on r).resume_of_leaving (a := .leaving answer) (o := o) rfl
    obtain ⟨_, _, same', _⟩ := (l.on q).resume_of_leaving (a := .leaving answer) (o := o) rfl
    rw [same, same']
    exact ⟨⟨l, rfl, rfl⟩, .inr ⟨rfl, rfl⟩⟩

theorem resume_akin {a b : Activity} {o p : Outcome} (alike : a.Alike b) (calm : o.aborts = false)
    (calm' : p.aborts = false) : Move.Akin r q ((l.on r).resume a o) ((l.on q).resume b p) := by
  have moves := (l.on r).resume_alike alike calm calm'
  obtain ⟨loop, next⟩ := l.resume_on r q b calm'
  exact ⟨moves.loop ▸ loop, moves.next.akin next⟩

end Loop

namespace Course

/-- Courses of two reporters with the same loop, that have made the same calls and wait for the same, but for the
closing of the reporter. -/
structure Akin (r q : Reporter) (c d : Course) : Prop where
  loop : ∃ l : Loop, c.loop = l.on r ∧ d.loop = l.on q
  waiting : List.Forall₂ Activity.Alike (c.waiting.filter Activity.inPass) (d.waiting.filter Activity.inPass)
  calls : (calls c.past).filter (!·.isClose) = (calls d.past).filter (!·.isClose)

variable {r q : Reporter} {c d : Course}

theorem nextCalls_of_parts {m : Next} (parts : m.parts = true) : (nextCalls m).filter (!·.isClose) = [] := by
  rcases m with a | answer
  · cases a with
    | leaving => rfl
    | observing | flushing => cases parts
  · rfl

theorem waiting_move_of_parts {before : List Event} {plan : Option Plan} {m : Move} (parts : m.next.parts = true) :
    (c.move before plan m).waiting.filter Activity.inPass = c.waiting.filter Activity.inPass := by
  simp only [move]
  rcases next : m.next with a | answer
  · rw [next, Next.parts, Bool.not_eq_true'] at parts
    exact List.filter_cons_of_neg (by rw [parts]; exact Bool.false_ne_true)
  · rfl

theorem move_akin {before before' : List Event} {plan plan' : Option Plan} {m n : Move} (moves : Move.Akin r q m n)
    (waiting : List.Forall₂ Activity.Alike (c.waiting.filter Activity.inPass) (d.waiting.filter Activity.inPass))
    (same : (calls c.past).filter (!·.isClose) = (calls d.past).filter (!·.isClose)) (uncalled : calls before = [])
    (uncalled' : calls before' = []) : Akin r q (c.move before plan m) (d.move before' plan' n) := by
  obtain ⟨loop, next⟩ := moves
  refine ⟨loop, ?_, ?_⟩
  · generalize first : m.next = one, second : n.next = other at next
    cases next with
    | parts parts parts' =>
      rw [waiting_move_of_parts (first ▸ parts), waiting_move_of_parts (second ▸ parts')]
      exact waiting
    | @waits a b alike =>
      simp only [move, first, second, List.filter_cons, alike.inPass]
      split
      · exact .cons alike waiting
      · exact waiting
  · rw [calls_move uncalled, calls_move uncalled', List.filter_append, List.filter_append, same]
    generalize m.next = one, n.next = other at next
    cases next with
    | parts parts parts' => rw [nextCalls_of_parts parts, nextCalls_of_parts parts']
    | waits alike => rw [nextCalls, nextCalls, alike.call]

theorem Akin.errand (akin : Akin r q c d) {step : Step} (outside : step.isErrand = true) :
    Akin r q (c.take step) (d.take step) := by
  obtain ⟨l, waiting, past⟩ := c
  obtain ⟨m, waiting', past'⟩ := d
  obtain ⟨⟨k, rfl, rfl⟩, both, same⟩ := akin
  have still : ∀ {events events' : List Event}, Course.calls events = [] → Course.calls events' = [] →
      (Course.calls (past ++ events)).filter (!·.isClose) =
        (Course.calls (past' ++ events')).filter (!·.isClose) := by
    intro events events' quiet quiet'
    rw [calls_append, calls_append, quiet, quiet', List.append_nil, List.append_nil]
    exact same
  cases step with
  | outcome o => cases outside
  | request asked =>
    cases run : asked.perform k.tree with
    | error fault =>
      have first : asked.perform (k.on r).tree = .error fault := run
      have second : asked.perform (k.on q).tree = .error fault := run
      simp only [take, first, second]
      exact ⟨⟨k, rfl, rfl⟩, both, same⟩
    | ok done =>
      have first : asked.perform (k.on r).tree = .ok done := run
      have second : asked.perform (k.on q).tree = .ok done := run
      have quiet := calls_of_quiet (isQuiet_of_perform run)
      simp only [take, first, second]
      exact ⟨⟨{ k with tree := done.2 }, rfl, rfl⟩, both, still quiet quiet⟩
  | start =>
    exact ⟨⟨k.start.1, k.start_on r, k.start_on q⟩, both,
      still (calls_of_quiet fun e => isQuiet_of_told) (calls_of_quiet fun e => isQuiet_of_told)⟩
  | report => exact move_akin (k.follow_akin r q _) both same rfl rfl
  | close => exact move_akin (k.close_akin r q) both same (by split <;> rfl) (by split <;> rfl)

/-- What a call that closes the reporter leads to does not concern another reporter. -/
theorem answer_of_leaving {a : Activity} {outer : List Activity} (temper : Temper) (waits : c.waiting = a :: outer)
    (leaving : a.inPass = false) :
    (c.answer temper).loop = c.loop ∧ (c.answer temper).waiting = outer ∧
      Course.calls (c.answer temper).past = Course.calls c.past := by
  have parting : a.duty? = none := Option.isNone_iff_eq_none.mp (Option.isSome_eq_false_iff.mp leaving)
  obtain ⟨notices, reply, resumes, unplanned⟩ :=
    c.loop.resume_of_leaving (o := temper.outcome c.past) parting
  rw [answer_eq temper waits, resumes, unplanned]
  exact ⟨rfl, rfl, (calls_move rfl).trans (List.append_nil _)⟩

theorem filter_of_leaving {a : Activity} {outer : List Activity} (leaving : a.inPass = false) :
    (a :: outer).filter Activity.inPass = outer.filter Activity.inPass :=
  List.filter_cons_of_neg (by rw [leaving]; exact Bool.false_ne_true)

/-- A reporter that is closed meanwhile. -/
theorem Akin.of_leaving {a : Activity} {outer : List Activity} (akin : Akin r q c d) (temper : Temper)
    (waits : c.waiting = a :: outer) (leaving : a.inPass = false) : Akin r q (c.answer temper) d := by
  obtain ⟨loop, waiting, past⟩ := answer_of_leaving temper waits leaving
  have both := akin.waiting
  rw [waits, filter_of_leaving leaving, ← waiting] at both
  exact ⟨loop ▸ akin.loop, both, past ▸ akin.calls⟩

theorem Akin.symm (akin : Akin r q c d) : Akin q r d c := by
  obtain ⟨⟨l, first, second⟩, waiting, same⟩ := akin
  exact ⟨⟨l, second, first⟩, (waiting.imp fun _ _ alike => alike.symm).flip, same.symm⟩

/-- A call in a pass comes out for both. -/
theorem Akin.answer {a b : Activity} {outer other : List Activity} (akin : Akin r q c d) (temper temper' : Temper)
    (waits : c.waiting = a :: outer) (waits' : d.waiting = b :: other) (inPass : a.inPass = true)
    (inPass' : b.inPass = true) : Akin r q (c.answer temper) (d.answer temper') := by
  obtain ⟨⟨l, first, second⟩, waiting, same⟩ := akin
  rw [waits, waits', List.filter_cons_of_pos inPass, List.filter_cons_of_pos inPass'] at waiting
  obtain ⟨alike, rest⟩ := List.forall₂_cons.mp waiting
  rw [answer_eq temper waits, answer_eq temper' waits', first, second]
  exact move_akin (Loop.resume_akin alike (temper.outcome_aborts _) (temper'.outcome_aborts _)) rest same rfl rfl

/-- When nothing waits for one reporter, all that may wait for the other is that it is closed. -/
theorem Akin.leaving (akin : Akin r q c d) (none : c.waiting = []) {a : Activity} {outer : List Activity}
    (waits : d.waiting = a :: outer) : a.inPass = false := by
  have both := akin.waiting
  rw [none, waits, List.filter_nil, List.forall₂_nil_left_iff, List.filter_eq_nil_iff] at both
  exact Bool.eq_false_iff.mpr (both a (List.mem_cons_self ..))

theorem Akin.idle (akin : Akin r q c d) (none : c.waiting = [])
    (ready : ∀ a outer, d.waiting = a :: outer → a.inPass = true) : d.waiting = [] := by
  cases waits : d.waiting with
  | nil => rfl
  | cons a outer => exact absurd ((akin.leaving none waits).symm.trans (ready a outer waits)) Bool.false_ne_true

/-- The calls that close the other reporter may come out first. -/
theorem Served.of_leaving {temper : Temper} {errands : List Step} {d' : Course} (akin : Akin r q c d)
    (served : Served temper d errands d') :
    ∃ e, Akin r q c e ∧ Served temper e errands d' ∧ ∀ a outer, e.waiting = a :: outer → a.inPass = true := by
  induction served with
  | done none => exact ⟨_, akin, .done none, fun a outer waits => absurd none (waiting_ne_nil waits)⟩
  | errand none outside later _ =>
    exact ⟨_, akin, .errand none outside later, fun a outer waits => absurd none (waiting_ne_nil waits)⟩
  | @call d d' errands some later ih =>
    obtain ⟨b, outer, waits⟩ := List.exists_cons_of_ne_nil some
    cases inPass : b.inPass with
    | false => exact ih (akin.symm.of_leaving temper waits inPass).symm
    | true =>
      refine ⟨d, akin, .call some later, fun a outer' waits' => ?_⟩
      cases waits.symm.trans waits'
      exact inPass

/-- Two reporters are attached to trees that are opened with the same options. -/
theorem akin_opened {o : Options} {interval : Interval} {opening other : Opening}
    (opened : Opening.ofOptions { o with reporter := some r } interval = .ok opening)
    (opened' : Opening.ofOptions { o with reporter := some q } interval = .ok other) :
    Akin r q (Course.opened opening) (Course.opened other) := by
  have uncalled : ∀ opening, Course.calls (Course.opened opening).past = [] :=
    fun _ => calls_of_quiet fun e => isQuiet_of_told
  refine ⟨?_, .nil, by rw [uncalled, uncalled]⟩
  obtain ⟨_, _, rest⟩ := bind_eq_ok.mp opened
  obtain ⟨_, _, rest'⟩ := bind_eq_ok.mp opened'
  obtain ⟨separator, separates, rest⟩ := bind_eq_ok.mp rest
  obtain ⟨_, separates', rest'⟩ := bind_eq_ok.mp rest'
  cases separates.symm.trans separates'
  obtain ⟨stem, stems, rest⟩ := bind_eq_ok.mp rest
  obtain ⟨_, stems', rest'⟩ := bind_eq_ok.mp rest'
  cases stems.symm.trans stems'
  obtain ⟨tags, tagged, rest⟩ := bind_eq_ok.mp rest
  obtain ⟨_, tagged', rest'⟩ := bind_eq_ok.mp rest'
  cases tagged.symm.trans tagged'
  obtain ⟨seconds, waits, rest⟩ := bind_eq_ok.mp rest
  obtain ⟨_, waits', rest'⟩ := bind_eq_ok.mp rest'
  cases waits.symm.trans waits'
  cases rest
  cases rest'
  let bare : Loop := ⟨(Tree.ofRoot separator stem tags).2, seconds, none, .idle, 0, false⟩
  exact ⟨bare.start.1, bare.start_on r, bare.start_on q⟩

/-- Two reporters that do not call back leave the same behind, and are called alike but for the closing, whichever of
their calls fail. -/
theorem Served.akin {temper temper' : Temper} {errands : List Step} {c' d' : Course} (akin : Akin r q c d)
    (first : Served temper c errands c') (second : Served temper' d errands d') : Akin r q c' d' := by
  -- By induction on the first way. The second one may be ahead or behind by calls that close its reporter, so that these
  -- are let out first wherever it goes on.
  induction first generalizing d with
  | done none =>
    obtain ⟨e, akin, second, ready⟩ := second.of_leaving akin
    cases second with
    | done => exact akin
    | call some => exact absurd (akin.idle none ready) some
  | errand none outside _ ih =>
    obtain ⟨e, akin, second, ready⟩ := second.of_leaving akin
    cases second with
    | errand _ _ later => exact ih (akin.errand outside) later
    | call some => exact absurd (akin.idle none ready) some
  | call some _ ih =>
    obtain ⟨a, outer, waits⟩ := List.exists_cons_of_ne_nil some
    cases inPass : a.inPass with
    | false => exact ih (akin.of_leaving temper waits inPass) second
    | true =>
      have behind : ∀ {e}, Akin r q _ e → e.waiting ≠ [] := fun akin none =>
        absurd (inPass.symm.trans (akin.symm.leaving none waits)) (by decide)
      obtain ⟨e, akin, second, ready⟩ := second.of_leaving akin
      cases second with
      | done none => exact absurd none (behind akin)
      | errand none => exact absurd none (behind akin)
      | call some' later =>
        obtain ⟨b, other, waits'⟩ := List.exists_cons_of_ne_nil some'
        exact ih (akin.answer temper temper' waits waits' inPass (ready b other waits')) later

end Course

end MetricTree
