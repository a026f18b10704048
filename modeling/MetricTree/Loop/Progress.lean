import MetricTree.Loop.Run

namespace MetricTree

/-- How much a cursor leaves to be visited: its stage first, then the names of that stage. -/
def Cursor.rank : Cursor → Nat × Nat
  | .counters _ names => (1, names.length)
  | .gauges _ names => (0, names.length)

/-- Only a report can be followed by another pass. -/
def Duty.rank : Duty → Nat
  | .report => 2
  | .close => 1
  | .farewell _ => 1

/-- How much an activity leaves to be done: passes, then scopes to enter, then the rest of a scope. -/
def Activity.rank : Activity → Nat × Nat × Nat × Nat
  | .observing duty p _ => (duty.rank, p.waiting.length + 1, p.cursor.rank)
  | .flushing duty _ => (duty.rank, 0, 0, 0)
  | .leaving _ => (0, 0, 0, 0)

instance : WellFoundedRelation Activity := invImage Activity.rank inferInstance

namespace Tree

theorem scan_shorter {visit : Tree → Text → Except Fault (Option Observation × Tree)} {t after : Tree}
    {names rest : List Text} {o : Observation}
    (found : scan visit t names = (.ok (some (o, rest)), after)) : rest.length < names.length := by
  induction names generalizing t with
  | nil => cases found
  | cons name tail ih =>
    simp only [scan] at found
    split at found
    · cases found
    · exact Nat.lt_succ_of_lt (ih found)
    · cases found
      exact Nat.lt_succ_self _

theorem scanGauges_rank {visit : Tree → Text → Except Fault (Option Observation × Tree)} {t : Tree}
    {identity : Text} {names : List Text} {o : Observation} {cursor : Cursor}
    (found : (scan visit t names).1.map (·.map fun (o, rest) => (o, Cursor.gauges identity rest)) =
      .ok (some (o, cursor))) :
    cursor.rank.1 = 0 ∧ cursor.rank.2 < names.length := by
  rcases run : scan visit t names with ⟨_ | _ | ⟨seen, rest⟩, after⟩
  · rw [run] at found; cases found
  · rw [run] at found; cases found
  · rw [run] at found
    cases found
    exact ⟨rfl, scan_shorter run⟩

theorem nextWithin_rank {t after : Tree} {cursor next : Cursor} {o : Observation}
    (found : t.nextWithin cursor = (.ok (some (o, next)), after)) :
    Prod.Lex (· < ·) (· < ·) next.rank cursor.rank := by
  cases cursor with
  | gauges identity names =>
    obtain ⟨stage, shorter⟩ := scanGauges_rank (congrArg Prod.fst found)
    exact Prod.lex_def.2 (.inr ⟨stage, shorter⟩)
  | counters identity names =>
    simp only [nextWithin] at found
    split at found
    · cases found
    · next run =>
      cases found
      exact Prod.lex_def.2 (.inr ⟨rfl, scan_shorter run⟩)
    · obtain ⟨stage, _⟩ := scanGauges_rank (congrArg Prod.fst found)
      exact Prod.lex_def.2 (.inl (stage ▸ Nat.zero_lt_one))

theorem enter_waiting {t after : Tree} {tally : Summary} {scopes : List Text} {o : Observation}
    {p : Pass} (found : t.enter tally scopes = (.ok (some (o, p)), after)) :
    p.waiting.length < scopes.length := by
  induction scopes generalizing t with
  | nil => cases found
  | cons identity waiting ih =>
    simp only [enter] at found
    split at found
    · cases found
    · cases found
      exact Nat.lt_succ_self _
    · exact Nat.lt_succ_of_lt (ih found)

theorem continuePass_rank {t after : Tree} {p next : Pass} {o : Observation}
    (found : t.continuePass p = (.ok (some (o, next)), after)) :
    Prod.Lex (· < ·) (Prod.Lex (· < ·) (· < ·)) (next.waiting.length, next.cursor.rank)
      (p.waiting.length, p.cursor.rank) := by
  simp only [continuePass] at found
  split at found
  · cases found
  · next run =>
    cases found
    exact Prod.lex_def.2 (.inr ⟨rfl, nextWithin_rank run⟩)
  · exact Prod.lex_def.2 (.inl (enter_waiting found))

end Tree

namespace Loop

/-- Is the first activity nearer to its end than the second? -/
abbrev Nearer (b a : Activity) : Prop := WellFoundedRelation.rel b a

theorem nearer_iff {b a : Activity} :
    Nearer b a ↔
      Prod.Lex (· < ·) (Prod.Lex (· < ·) (Prod.Lex (· < ·) (· < ·))) b.rank a.rank := Iff.rfl

theorem leave_nearer {l : Loop} {last : Summary} {answer : Option Summary} {a b : Activity}
    (step : (l.leave last answer).next = .waits b) (owed : 0 < a.rank.1) : Nearer b a := by
  simp only [leave] at step
  split at step
  · cases step
    exact nearer_iff.2 (Prod.lex_def.2 (.inl owed))
  · cases step

theorem pass_duty {l : Loop} {duty : Duty} {tally : Summary}
    {found : Except Fault (Option (Observation × Pass)) × Tree} {b : Activity}
    (step : (l.pass duty tally found).next = .waits b) : b.rank.1 = duty.rank := by
  rcases found with ⟨_ | _ | ⟨o, p⟩, tree⟩ <;> cases step <;> rfl

theorem planAfter_nearer {l : Loop} {summary tally : Summary} {duty : Duty} {b : Activity}
    (step : (l.follow (l.planAfter summary duty)).next = .waits b) : Nearer b (.flushing duty tally) := by
  cases duty with
  | report =>
    simp only [planAfter] at step
    split at step
    · exact nearer_iff.2 (Prod.lex_def.2 (.inl (by rw [pass_duty step]; exact Nat.lt_succ_self 1)))
    · cases step
  | close => exact leave_nearer step Nat.zero_lt_one
  | farewell answer => exact leave_nearer step Nat.zero_lt_one

/-- Whatever the outcome, an activity that goes on is nearer to its end than before. -/
theorem resume_nearer {l : Loop} {a b : Activity} {outcome : Outcome}
    (step : (l.resume a outcome).next = .waits b) : Nearer b a := by
  cases a with
  | leaving answer => cases outcome <;> cases step
  | flushing duty tally =>
    cases outcome with
    | aborted message => cases step
    | returned => exact planAfter_nearer step
    | failed failure => exact planAfter_nearer step
  | observing duty p o =>
    have goesOn : ∀ found, (∃ tally tree, found = l.tree.continuePass { p with tally := tally } ∧
        (l.pass duty tally (found.1, tree)).next = .waits b) → Nearer b (.observing duty p o) := by
      rintro found ⟨tally, tree, rfl, step⟩
      rcases run : l.tree.continuePass { p with tally := tally } with ⟨_ | _ | ⟨seen, next⟩, after⟩
      · rw [run] at step; cases step
      · rw [run] at step
        cases step
        exact nearer_iff.2 (Prod.lex_def.2 (.inr ⟨rfl, Prod.lex_def.2 (.inl (Nat.succ_pos _))⟩))
      · rw [run] at step
        cases step
        have lower := Tree.continuePass_rank run
        refine nearer_iff.2 (Prod.lex_def.2 (.inr ⟨rfl, Prod.lex_def.2 ?_⟩))
        rcases Prod.lex_def.1 lower with fewer | ⟨same, inside⟩
        · exact .inl (Nat.succ_lt_succ fewer)
        · exact .inr ⟨congrArg Nat.succ same, inside⟩
    cases outcome with
    | aborted message => cases step
    | returned => exact goesOn _ ⟨_, _, rfl, step⟩
    | failed failure => exact goesOn _ ⟨_, _, rfl, step⟩

end Loop

end MetricTree
