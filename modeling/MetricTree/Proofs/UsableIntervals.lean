import MetricTree.Proofs.Openings

namespace MetricTree

namespace Magnitude

theorem roundHalfEven_le (num den : Nat) : roundHalfEven num den ≤ num / den + 1 := by
  unfold roundHalfEven
  extract_lets quotient rest
  split
  · omega
  · split <;> omega

/-- What is well below the largest finite magnitude is rounded to a finite one. -/
theorem nearestUnits_ne_infinity {num den exponent : Nat} (low : num / den < Nat.pow 2 exponent)
    (bounded : exponent ≤ 2097) : nearestUnits num den ≠ infinity := by
  unfold nearestUnits
  extract_lets shift
  have below : num / den < Nat.pow 2 (shift + 53) :=
    Nat.lt_of_lt_of_le Nat.lt_log2_self (Nat.pow_le_pow_right Nat.two_pos (by omega))
  have short : shift ≤ 2044 := by
    by_cases nothing : num / den = 0
    · exact Nat.le_trans (Nat.sub_le ..) (by rw [nothing, Nat.log2_zero]; exact Nat.zero_le _)
    · exact Nat.sub_le_sub_right (Nat.le_of_lt_succ (Nat.lt_of_lt_of_le ((Nat.log2_lt nothing).mpr low) bounded)) 52
  have significand : roundHalfEven num (den * Nat.pow 2 shift) ≤ Nat.pow 2 53 := by
    refine Nat.le_trans (roundHalfEven_le ..) (Nat.succ_le_of_lt ?_)
    rw [← Nat.div_div_eq_div_mul]
    exact Nat.div_lt_of_lt_mul (Nat.pow_add 2 shift 53 ▸ below)
  have finite : shift * Nat.pow 2 52 + roundHalfEven num (den * Nat.pow 2 shift) < infinityRank := by
    calc shift * Nat.pow 2 52 + roundHalfEven num (den * Nat.pow 2 shift)
      _ ≤ 2044 * Nat.pow 2 52 + Nat.pow 2 53 := Nat.add_le_add (Nat.mul_le_mul_right _ short) significand
      _ < infinityRank := by decide
  rw [ofRank, dif_pos finite]
  exact fun same => absurd (congrArg Fin.val same) (Nat.ne_of_lt finite)

theorem nearest_ne_infinity {num den exponent : Nat} (low : num < den * Nat.pow 2 exponent) (bounded : exponent ≤ 1023) :
    nearest num den ≠ infinity := by
  have scaled {unit k : Nat} (spelled : unit = Nat.pow 2 k) : num * unit < den * Nat.pow 2 (exponent + k) := by
    subst spelled
    calc num * Nat.pow 2 k
      _ < den * Nat.pow 2 exponent * Nat.pow 2 k := Nat.mul_lt_mul_of_pos_right low (Nat.two_pow_pos k)
      _ = den * (Nat.pow 2 exponent * Nat.pow 2 k) := Nat.mul_assoc ..
      _ = den * Nat.pow 2 (exponent + k) := congrArg (den * ·) (Nat.pow_add 2 exponent k).symm
  obtain ⟨places, unit⟩ : ∃ places, 1074 = places := ⟨_, rfl⟩
  exact nearestUnits_ne_infinity (Nat.div_lt_of_lt_mul (scaled (unitsPerOne_eq unit))) (by omega)

end Magnitude

theorem Span.isFinite_seconds {microseconds : Int} {s : Span} (made : Span.ofMicroseconds microseconds = .ok s) :
    s.seconds.isFinite = true := by
  unfold ofMicroseconds at made
  extract_lets days at made
  split at made
  · cases made
  · split at made
    · cases made
    · next few =>
      cases made
      have small : microseconds.natAbs < 1000000 * 2 ^ 67 := by
        have counted : days = microseconds.fdiv 86400000000 := rfl
        rw [Int.fdiv_eq_ediv_of_nonneg _ (by decide)] at counted
        omega
      exact bne_iff_ne.mpr (Magnitude.nearest_ne_infinity small (by decide))

/-- Intervals that are not given as a binary64 number, or as a text that can name any. -/
inductive Interval.Exact : Interval → Prop
  | null : Exact (.value .null)
  | bool (b : Bool) : Exact (.value (.bool b))
  | int (n : Int) : Exact (.value (.int n))
  | span {microseconds : Int} {s : Span} (made : Span.ofMicroseconds microseconds = .ok s) : Exact (.span s)

theorem Interval.Exact.isFinite {interval : Interval} {s : Binary64} (exact : interval.Exact)
    (converted : interval.rawSeconds = .ok s) : s.isFinite = true := by
  cases exact with
  | null =>
    cases converted
    decide
  | bool b =>
    cases converted
    cases b with
    | false => decide
    | true => exact bne_iff_ne.mpr (@Magnitude.nearest_ne_infinity 1 1 1 (by decide) (by decide))
  | int n =>
    simp only [rawSeconds, Value.toBinary64, Binary64.ofInt?] at converted
    split at converted
    · cases converted
    · next finite =>
      cases converted
      exact bne_iff_ne.mpr finite
  | span made =>
    cases converted
    exact Span.isFinite_seconds made

namespace Binary64

/-- A finite number of seconds that is not negative. -/
def IsWait (s : Binary64) : Prop := s.isFinite = true ∧ zero.atMost s = true

variable {s : Binary64} {place : Int}

theorem less_zero (placed : s.place? = some place) : s.less zero = decide (place < 0) := by
  rw [less, placed]
  rfl

theorem zero_less (placed : s.place? = some place) : zero.less s = decide (0 < place) := by
  rw [less, placed]
  rfl

theorem equals_zero (placed : s.place? = some place) : s.equals zero = (place == 0) := by
  rw [equals, placed]
  rfl

theorem atMost_zero (placed : s.place? = some place) : s.atMost zero = decide (place ≤ 0) := by
  rw [atMost, less_zero placed, equals_zero placed, Bool.eq_iff_iff, Bool.or_eq_true, decide_eq_true_iff, beq_iff_eq,
    decide_eq_true_iff, Int.le_iff_lt_or_eq]

theorem zero_atMost (placed : s.place? = some place) : zero.atMost s = decide (0 ≤ place) := by
  have equals : zero.equals s = decide (0 = place) := by
    rw [equals, placed]
    rfl
  rw [atMost, zero_less placed, equals, Bool.eq_iff_iff, Bool.or_eq_true, decide_eq_true_iff, decide_eq_true_iff,
    decide_eq_true_iff, Int.le_iff_lt_or_eq]

theorem place_of_isFinite (finite : s.isFinite = true) : ∃ place, s.place? = some place := by
  cases s with
  | nan => cases finite
  | signed negative m => exact ⟨_, rfl⟩

/-- Whatever is not less than zero can be waited, unless it is no number or without end. -/
theorem isWait_iff (accepted : s.less zero = false) : s.IsWait ↔ s ≠ .nan ∧ s ≠ .signed false .infinity := by
  cases s with
  | nan => exact ⟨fun wait => absurd wait.1 (by decide), fun apart => absurd rfl apart.1⟩
  | signed negative m =>
    have placed : (Binary64.signed negative m).place? = some (if negative then -(m.val : Int) else m.val) := rfl
    rw [less_zero placed, decide_eq_false_iff_not, Int.not_lt] at accepted
    rw [IsWait, zero_atMost placed, decide_eq_true_iff, isFinite, bne_iff_ne]
    constructor
    · rintro ⟨finite, _⟩
      exact ⟨nofun, fun same => finite (Binary64.signed.inj same).2⟩
    · rintro ⟨_, apart⟩
      refine ⟨?_, accepted⟩
      rintro rfl
      cases negative with
      | false => exact apart rfl
      | true => exact absurd accepted (by decide)

end Binary64

theorem Loop.start_phase {l : Loop} (idle : l.phase = .idle) :
    l.start.1.interval = l.interval ∧ l.start.1.phase = if l.interval.atMost .zero then .idle else .running := by
  rw [start, idle, if_neg (by decide)]
  split
  · exact ⟨rfl, idle⟩
  · exact ⟨rfl, rfl⟩

/-- A loop that is idle if there are no seconds to wait is so just if they are zero. -/
theorem Loop.phase_of_accepted {s : Binary64} (accepted : s.less .zero = false) {phase : Phase}
    (started : phase = if s.atMost .zero then .idle else .running) :
    (s.IsWait → (phase = .running ↔ Binary64.zero.less s = true) ∧ (phase = .idle ↔ s.equals .zero = true)) ∧
      (¬s.IsWait → phase = .running) := by
  subst started
  constructor
  · intro wait
    obtain ⟨place, placed⟩ := Binary64.place_of_isFinite wait.1
    rw [Binary64.less_zero placed, decide_eq_false_iff_not] at accepted
    rw [Binary64.atMost_zero placed, Binary64.zero_less placed, Binary64.equals_zero placed]
    by_cases positive : 0 < place
    · have above : ¬place ≤ 0 := Int.not_le.mpr positive
      have nonzero : place ≠ 0 := (Int.ne_of_lt positive).symm
      simp [positive, above, nonzero]
    · have none : place = 0 := by omega
      simp [none]
  · intro endless
    rw [Binary64.isWait_iff accepted, not_and_or, not_not, not_not] at endless
    rcases endless with rfl | rfl <;> rfl

namespace Interval

variable {interval : Interval} {s : Binary64}

theorem Exact.isWait (exact : interval.Exact) (converted : interval.rawSeconds = .ok s)
    (accepted : s.less .zero = false) : s.IsWait := by
  have finite := exact.isFinite converted
  refine (Binary64.isWait_iff accepted).mpr ⟨?_, ?_⟩ <;> rintro rfl <;> cases finite

theorem seconds_eq_ok : interval.seconds = .ok s ↔ interval.rawSeconds = .ok s ∧ s.less .zero = false := by
  rw [seconds]
  cases interval.rawSeconds with
  | error fault => exact ⟨nofun, nofun⟩
  | ok t =>
    change (if t.less .zero then throw (Fault.negativeInterval t) else pure t) = Except.ok s ↔ _
    split
    · next negative =>
      refine ⟨nofun, ?_⟩
      rintro ⟨⟨⟩, accepted⟩
      rw [negative] at accepted
      cases accepted
    · next accepted =>
      refine ⟨?_, And.left⟩
      rintro ⟨⟩
      exact ⟨rfl, Bool.eq_false_iff.mpr accepted⟩

theorem seconds_of_negative (converted : interval.rawSeconds = .ok s) (negative : s.less .zero = true) :
    interval.seconds = .error (.negativeInterval s) := by
  rw [seconds, converted]
  exact if_pos negative

end Interval

namespace Opening

/-- The interval is looked at last: either nothing can be opened, or what is opened comes of the seconds alone. -/
theorem ofOptions_eq (o : Options) :
    (∃ fault, ∀ interval, ofOptions o interval = .error fault) ∨ ∃ separator stem tags, ∀ interval : Interval,
      ofOptions o interval = interval.seconds.map fun seconds =>
        let (loop, notices) := Loop.start ⟨(Tree.ofRoot separator stem tags).2, seconds, o.reporter, .idle, 0, false⟩
        ⟨(Tree.ofRoot separator stem tags).1, loop, notices⟩ := by
  unfold ofOptions
  cases Options.checkReporter o.reporter with
  | error fault => exact .inl ⟨fault, fun _ => rfl⟩
  | ok =>
    cases Options.checkSeparator o.separator with
    | error fault => exact .inl ⟨fault, fun _ => rfl⟩
    | ok separator =>
      cases Identity.checkName "prefix" true o.stem with
      | error fault => exact .inl ⟨fault, fun _ => rfl⟩
      | ok stem =>
        cases Identity.checkTags o.tags with
        | error fault => exact .inl ⟨fault, fun _ => rfl⟩
        | ok tags =>
          refine .inr ⟨separator, stem, tags, fun interval => ?_⟩
          cases interval.seconds <;> rfl

/-- A tree that is opened has the seconds of its interval, which are not below zero. Its loop runs unless they are at
most zero. -/
theorem interval_of_ofOptions {o : Options} {interval : Interval} {opening : Opening}
    (opened : ofOptions o interval = .ok opening) :
    interval.rawSeconds = .ok opening.loop.interval ∧ opening.loop.interval.less .zero = false ∧
      opening.loop.phase = if opening.loop.interval.atMost .zero then .idle else .running := by
  rcases ofOptions_eq o with ⟨fault, fails⟩ | ⟨separator, stem, tags, opens⟩
  · rw [fails] at opened
    cases opened
  · rw [opens] at opened
    cases taken : interval.seconds with
    | error fault =>
      rw [taken] at opened
      cases opened
    | ok s =>
      rw [taken] at opened
      cases opened
      obtain ⟨converted, accepted⟩ := Interval.seconds_eq_ok.mp taken
      obtain ⟨same, phase⟩ :=
        @Loop.start_phase ⟨(Tree.ofRoot separator stem tags).2, s, o.reporter, .idle, 0, false⟩ rfl
      refine ⟨?_, ?_, ?_⟩ <;> dsimp only <;> rw [same]
      exacts [converted, accepted, phase]

end Opening

/-- A tree is opened with whatever comes to seconds that are not below zero, which are seconds to wait unless they are
no number or without end. Then its loop runs if they are above zero, and is idle if they are zero. Seconds without end,
and what is no number, let it run too. Seconds below zero are refused. -/
theorem intervals_usable (o : Options) (interval : Interval) :
    (∀ opening, Opening.ofOptions o interval = .ok opening →
      let s := opening.loop.interval
      interval.rawSeconds = .ok s ∧ (s.IsWait ↔ s ≠ .nan ∧ s ≠ .signed false .infinity) ∧
        (interval.Exact → s.IsWait) ∧
        (s.IsWait → (opening.loop.phase = .running ↔ Binary64.zero.less s = true) ∧
          (opening.loop.phase = .idle ↔ s.equals .zero = true)) ∧
        (¬s.IsWait → opening.loop.phase = .running)) ∧
    ∀ s, interval.rawSeconds = .ok s → s.less .zero = true →
      (∃ fault, Opening.ofOptions o interval = .error fault) ∧
        ∀ opening, Opening.ofOptions o (.value .null) = .ok opening →
          Opening.ofOptions o interval = .error (.negativeInterval s) := by
  constructor
  · intro opening opened
    obtain ⟨converted, accepted, phase⟩ := Opening.interval_of_ofOptions opened
    generalize opening.loop.interval = s at converted accepted phase ⊢
    obtain ⟨timed, endless⟩ := Loop.phase_of_accepted accepted phase
    exact ⟨converted, Binary64.isWait_iff accepted, fun exact => exact.isWait converted accepted, timed, endless⟩
  · intro s converted negative
    have refused := Interval.seconds_of_negative converted negative
    rcases Opening.ofOptions_eq o with ⟨fault, fails⟩ | ⟨separator, stem, tags, opens⟩
    · refine ⟨⟨fault, fails interval⟩, fun opening opened => ?_⟩
      rw [fails] at opened
      cases opened
    · have fails : Opening.ofOptions o interval = .error (.negativeInterval s) := by
        rw [opens, refused]
        rfl
      exact ⟨⟨_, fails⟩, fun _ _ => fails⟩

/-- Half a second, the zero with a sign, and a microsecond too little. -/
theorem intervals_usable_given :
    let half := Binary64.signed false (.ofRank (1022 * Nat.pow 2 52))
    (∃ opening, Opening.ofOptions .standard (.value (.float half)) = .ok opening ∧ opening.loop.phase = .running) ∧
    (∃ opening, Opening.ofOptions .standard (.value (.float (.signed true .zero))) = .ok opening ∧
      opening.loop.phase = .idle) ∧
    Opening.ofOptions .standard (.span ⟨-1⟩) = .error (.negativeInterval (Span.seconds ⟨-1⟩)) := by
  intro half
  refine ⟨⟨_, rfl, ?_⟩, ⟨_, rfl, ?_⟩, ?_⟩
  · obtain ⟨_, wait, _, timed, _⟩ := (intervals_usable .standard (.value (.float half))).1 _ rfl
    exact (timed (wait.mpr (by decide))).1.mpr (by decide)
  · obtain ⟨_, wait, _, timed, _⟩ := (intervals_usable .standard (.value (.float (.signed true .zero)))).1 _ rfl
    exact (timed (wait.mpr (by decide))).2.mpr (by decide)
  · exact ((intervals_usable .standard (.span ⟨-1⟩)).2 _ rfl (by decide +kernel)).2 _ rfl

/-- What is no number is neither below zero nor at most zero, and the text of what is without end is not below zero. -/
theorem intervals_unusable :
    (∃ opening, Opening.ofOptions .standard (.value (.float .nan)) = .ok opening ∧ opening.loop.phase = .running ∧
      opening.loop.interval = .nan ∧ ¬opening.loop.interval.IsWait) ∧
    ∃ opening, Opening.ofOptions .standard (.value (.text "inf")) = .ok opening ∧ opening.loop.phase = .running ∧
      opening.loop.interval = .signed false .infinity ∧ ¬opening.loop.interval.IsWait :=
  ⟨⟨_, rfl, rfl, rfl, fun wait => absurd wait.1 (by decide)⟩,
    ⟨_, rfl, rfl, rfl, fun wait => absurd wait.1 (by decide)⟩⟩

end MetricTree
