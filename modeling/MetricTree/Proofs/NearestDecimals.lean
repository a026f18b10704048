import Mathlib.Data.Nat.Log
import Mathlib.Tactic.Ring
import MetricTree.Binary64.Notation

namespace MetricTree

/-- Rounding depends on the quotient alone. -/
theorem roundHalfEven_mul (num den : Nat) {k : Nat} (positive : 0 < k) :
    roundHalfEven (num * k) (den * k) = roundHalfEven num den := by
  have rest : 2 * (num * k % (den * k)) = 2 * (num % den) * k := by
    rw [Nat.mul_mod_mul_right, Nat.mul_assoc]
  simp only [roundHalfEven, Nat.mul_div_mul_right _ _ positive, rest, Nat.mul_lt_mul_right positive]

theorem roundHalfEven_of_exact (n : Nat) {den : Nat} (positive : 0 < den) : roundHalfEven (n * den) den = n := by
  rw [roundHalfEven, Nat.mul_mod_left, Nat.mul_zero, if_pos positive, Nat.mul_div_cancel _ positive]

namespace Magnitude

variable {m : Magnitude}

theorem nearestUnits_mul (num den : Nat) {k : Nat} (positive : 0 < k) :
    nearestUnits (num * k) (den * k) = nearestUnits num den := by
  have unit : ∀ shift, den * k * Nat.pow 2 shift = den * Nat.pow 2 shift * k := fun shift => by ring
  simp only [nearestUnits, Nat.mul_div_mul_right _ _ positive, unit, roundHalfEven_mul _ _ positive]

theorem nearest_mul (num den : Nat) {k : Nat} (positive : 0 < k) : nearest (num * k) (den * k) = nearest num den := by
  rw [nearest, nearest, Nat.mul_right_comm, nearestUnits_mul _ _ positive]

/-- Equal quotients have the same nearest magnitude. -/
theorem nearest_congr {num den num' den' : Nat} (positive : 0 < den) (positive' : 0 < den')
    (equal : num * den' = num' * den) : nearest num den = nearest num' den' := by
  rw [← nearest_mul num den positive', equal, Nat.mul_comm den den', nearest_mul num' den' positive]

theorem val_lt_of_ne_infinity (finite : m ≠ infinity) : m.val < infinityRank :=
  Nat.lt_of_le_of_ne (Nat.le_of_lt_succ m.isLt) fun same => finite (Fin.ext same)

/-- A count of units of which the leading ones fill a significand is found at its own rank. -/
theorem nearestUnits_scaled {leading shift : Nat} (narrow : leading < Nat.pow 2 53)
    (filled : shift = 0 ∨ Nat.pow 2 52 ≤ leading) :
    nearestUnits (leading * Nat.pow 2 shift) 1 = ofRank (shift * Nat.pow 2 52 + leading) := by
  have binade : (leading * Nat.pow 2 shift).log2 - 52 = shift := by
    rcases filled with rfl | wide
    · by_cases zero : leading = 0
      · rw [zero]; rfl
      · have : leading.log2 < 53 := (Nat.log2_lt zero).mpr narrow
        rw [Nat.pow_eq, Nat.pow_zero, Nat.mul_one]
        omega
    · have lower : 2 ^ (52 + shift) ≤ leading * 2 ^ shift := by
        rw [Nat.pow_add]
        exact Nat.mul_le_mul_right _ wide
      have upper : leading * 2 ^ shift < 2 ^ (52 + shift + 1) := by
        rw [show 52 + shift + 1 = 53 + shift from Nat.add_right_comm .., Nat.pow_add]
        exact Nat.mul_lt_mul_of_pos_right narrow (Nat.two_pow_pos _)
      have positive : leading * 2 ^ shift ≠ 0 := Nat.ne_of_gt (Nat.lt_of_lt_of_le (Nat.two_pow_pos _) lower)
      rw [Nat.pow_eq, (Nat.log2_eq_iff positive).mpr ⟨lower, upper⟩, Nat.add_sub_cancel_left]
  simp only [nearestUnits, Nat.div_one, binade, Nat.one_mul]
  exact congrArg ofRank (congrArg _ (roundHalfEven_of_exact _ (Nat.two_pow_pos _)))

/-- A finite magnitude is its own nearest one. -/
theorem nearestUnits_units (finite : m ≠ infinity) : nearestUnits m.units 1 = m := by
  have placed : ofRank m.val = m := by rw [ofRank, dif_pos (val_lt_of_ne_infinity finite)]
  by_cases subnormal : m.val < Nat.pow 2 52
  · have shift : m.shift = 0 := by rw [Magnitude.shift, Nat.div_eq_of_lt subnormal]
    have significand : m.significand = m.val := if_pos subnormal
    have narrow : m.val < Nat.pow 2 53 := Nat.lt_trans subnormal (by decide)
    rw [units, shift, significand, nearestUnits_scaled narrow (.inl rfl), Nat.zero_mul, Nat.zero_add, placed]
  · have wide := Nat.le_of_not_lt subnormal
    have significand : m.significand = m.val % Nat.pow 2 52 + Nat.pow 2 52 := if_neg subnormal
    have binade : m.shift + 1 = m.val / Nat.pow 2 52 :=
      Nat.sub_add_cancel (Nat.div_pos wide (Nat.two_pow_pos 52))
    have rank : m.shift * Nat.pow 2 52 + m.significand = m.val := by
      calc m.shift * Nat.pow 2 52 + m.significand
        _ = Nat.pow 2 52 * (m.shift + 1) + m.val % Nat.pow 2 52 := by rw [significand]; ring
        _ = m.val := by rw [binade, Nat.div_add_mod]
    have narrow : m.significand < Nat.pow 2 53 := by
      rw [significand]
      exact Nat.add_lt_add_right (Nat.mod_lt _ (Nat.two_pow_pos 52)) _
    have filled : Nat.pow 2 52 ≤ m.significand := significand ▸ Nat.le_add_left _ _
    rw [units, nearestUnits_scaled narrow (.inr filled), rank, placed]

theorem shift_le (finite : m ≠ infinity) : m.shift ≤ 2045 := by
  have : m.val / Nat.pow 2 52 < 2047 := Nat.div_lt_of_lt_mul (Nat.mul_comm .. ▸ val_lt_of_ne_infinity finite)
  exact Nat.sub_le_sub_right (Nat.le_of_lt_succ this) 1

theorem units_lt {shift : Nat} (low : m.shift ≤ shift) : m.units < 2 ^ 53 * 2 ^ shift := by
  have narrow : m.significand < 2 ^ 53 := by
    unfold significand
    split
    · next subnormal => exact Nat.lt_trans subnormal (by decide)
    · exact Nat.add_lt_add_right (Nat.mod_lt _ (Nat.two_pow_pos 52)) _
  calc m.units
    _ < 2 ^ 53 * 2 ^ m.shift := Nat.mul_lt_mul_of_pos_right narrow (Nat.two_pow_pos _)
    _ ≤ 2 ^ 53 * 2 ^ shift := Nat.mul_le_mul_left _ (Nat.pow_le_pow_right Nat.two_pos low)

end Magnitude

namespace Decimal

/-- Zeros at the end of the digits count as digits. -/
theorem size_mul_pow {n : Nat} (nonzero : n ≠ 0) (k : Nat) (scale scale' : Int) :
    (⟨n * 10 ^ k, scale⟩ : Decimal).size = (⟨n, scale'⟩ : Decimal).size + k := by
  induction k with
  | zero => rw [Nat.pow_zero, Nat.mul_one]; rfl
  | succ k ih =>
    have last : n * 10 ^ (k + 1) = n * 10 ^ k * 10 := by rw [Nat.pow_succ, Nat.mul_assoc]
    have large : 10 ≤ n * 10 ^ k * 10 :=
      Nat.le_mul_of_pos_left _ (Nat.mul_pos (Nat.pos_of_ne_zero nonzero) (Nat.pow_pos (by decide)))
    rw [size] at ih ⊢
    rw [last, Nat.toDigits_of_base_le (by decide) large, List.length_append, Nat.mul_div_cancel _ (by decide), ih]
    rfl

/-- Zeros at the end of the digits are as good as a larger scale. -/
theorem nearest_mul_pow (n k : Nat) (scale : Int) :
    (⟨n * 10 ^ k, scale⟩ : Decimal).nearest = (⟨n, scale + k⟩ : Decimal).nearest := by
  by_cases zero : n = 0
  · simp only [nearest, zero, Nat.zero_mul, if_true]
  have nonzero : n * 10 ^ k ≠ 0 := Nat.mul_ne_zero zero (Nat.pow_pos (by decide)).ne'
  have place : ((⟨n * 10 ^ k, scale⟩ : Decimal).size : Int) + scale =
      (⟨n, scale + k⟩ : Decimal).size + (scale + k) := by
    rw [size_mul_pow zero k scale (scale + k)]
    push_cast
    ring
  have exponents : k + scale.toNat + (-(scale + k)).toNat = (scale + k).toNat + (-scale).toNat := by omega
  have equal : n * 10 ^ k * 10 ^ scale.toNat * 10 ^ (-(scale + k)).toNat =
      n * 10 ^ (scale + k).toNat * 10 ^ (-scale).toNat := by
    simp only [Nat.mul_assoc, ← Nat.pow_add]
    rw [exponents]
  simp only [nearest, nonzero, zero, if_false, place, Nat.pow_eq]
  rw [Magnitude.nearest_congr (Nat.pow_pos (by decide)) (Nat.pow_pos (by decide)) equal]

theorem nearest_dropZeros (count : Nat) (d : Decimal) : (dropZeros count d).nearest = d.nearest := by
  induction count generalizing d with
  | zero => rfl
  | succ count ih =>
    unfold dropZeros
    split
    · next round =>
      have whole : d.digits / 10 * 10 ^ 1 = d.digits := Nat.div_mul_cancel (Nat.dvd_of_mod_eq_zero round)
      rw [ih]
      exact (nearest_mul_pow _ 1 _).symm.trans (congrArg (fun n => nearest ⟨n, d.scale⟩) whole)
    · rfl

theorem nearest_trim (d : Decimal) : d.trim.nearest = d.nearest := by
  unfold trim
  split
  · next zero => simp only [nearest, zero, if_true]
  · exact nearest_dropZeros _ _

theorem digits_dropZeros (count : Nat) {d : Decimal} (nonzero : d.digits ≠ 0) : (dropZeros count d).digits ≠ 0 := by
  induction count generalizing d with
  | zero => exact nonzero
  | succ count ih =>
    unfold dropZeros
    split
    · next round => exact ih (by simp only; omega)
    · exact nonzero

/-- A decimal that is zero has no scale, and so no zeros to be written for it. -/
def IsPlain (d : Decimal) : Prop := d.digits = 0 → d.scale = 0

theorem isPlain_trim (d : Decimal) : d.trim.IsPlain := by
  unfold trim IsPlain
  split
  · exact fun _ => rfl
  · next nonzero => exact fun zero => absurd zero (digits_dropZeros _ nonzero)

end Decimal

namespace Magnitude

variable {m : Magnitude}

theorem nearestUnits_tens (units places : Nat) :
    nearestUnits (units * Nat.pow 5 places * Nat.pow 10 0 * Nat.pow 2 places) (Nat.pow 10 places) =
      nearestUnits units 1 := by
  have tens : Nat.pow 5 places * Nat.pow 2 places = Nat.pow 10 places := (Nat.mul_pow 5 2 places).symm
  have digits : units * Nat.pow 5 places * Nat.pow 10 0 * Nat.pow 2 places = units * Nat.pow 10 places := by
    rw [← tens, show Nat.pow 10 0 = 1 from rfl, Nat.mul_one, Nat.mul_assoc]
  have scaled := nearestUnits_mul units 1 (show 0 < Nat.pow 10 places from Nat.pow_pos (by decide))
  rw [digits, ← scaled, Nat.one_mul]

theorem exact_eq (m : Magnitude) {places : Nat} (count : 1074 = places) :
    m.exact = ⟨m.units * Nat.pow 5 places, -places⟩ := by
  unfold exact
  rw [count, show (-1074 : Int) = -places by omega]

/-- As many places as a unit has factors of two make the units whole. -/
theorem nearest_tens (units : Nat) {places : Nat} (unit : unitsPerOne = Nat.pow 2 places) :
    nearest (units * Nat.pow 5 places * Nat.pow 10 (-(places : Int)).toNat) (Nat.pow 10 (- -(places : Int)).toNat) =
      nearestUnits units 1 := by
  rw [Int.toNat_neg_natCast, Int.neg_neg, Int.toNat_natCast, nearest, unit]
  exact nearestUnits_tens units places

/-- The exact value of a finite magnitude reads back. -/
theorem nearest_exact (finite : m ≠ infinity) : m.exact.nearest = m := by
  have whole := nearestUnits_units finite
  by_cases zero : m.units = 0
  · have digits : m.exact.digits = 0 := by simp only [exact, zero, Nat.zero_mul]
    calc m.exact.nearest
      _ = nearestUnits 0 1 := by rw [Decimal.nearest, if_pos digits]; rfl
      _ = m := by rw [← zero, whole]
  have positive : ∀ places, 0 < Nat.pow 5 places := fun places => Nat.pow_pos (by decide)
  have upper : m.exact.size ≤ 1384 := by
    refine (Nat.length_toDigits_le_iff (by decide) (by decide)).mpr ?_
    refine Nat.lt_trans (Nat.mul_lt_mul_of_pos_right (units_lt (shift_le finite)) (positive 1074)) ?_
    decide +kernel
  have lower : ¬m.exact.size ≤ 743 := by
    refine mt (Nat.length_toDigits_le_iff (by decide) (by decide)).mp (Nat.not_lt_of_le ?_)
    refine Nat.le_trans ?_ (Nat.le_mul_of_pos_left _ (Nat.pos_of_ne_zero zero))
    decide +kernel
  have nonzero : m.exact.digits ≠ 0 := Nat.mul_ne_zero zero (positive 1074).ne'
  have scale : m.exact.scale = -1074 := rfl
  rw [Decimal.nearest, if_neg nonzero, if_neg (by omega), if_neg (by omega)]
  -- The number of places becomes a variable, so that no power of it is evaluated.
  obtain ⟨places, count⟩ : ∃ places, 1074 = places := ⟨_, rfl⟩
  rw [exact_eq m count]
  exact (nearest_tens m.units (unitsPerOne_eq count)).trans whole

theorem nearest_closest? {count : Nat} {d : Decimal} (found : m.closest? count = some d) : d.nearest = m := by
  unfold closest? at found
  extract_lets exact dropped unit low high at found
  split at found
  · next reads =>
    obtain rfl := Option.some.inj found
    split
    · exact reads
    · next farther => exact of_not_not fun misses => farther (.inl misses)
  · obtain ⟨reads, same⟩ := Option.ite_none_right_eq_some.mp found
    obtain rfl := Option.some.inj same
    exact reads

/-- The shortest decimal of a finite magnitude reads back. -/
theorem nearest_shortest (finite : m ≠ infinity) : m.shortest.nearest = m := by
  rw [shortest, Decimal.nearest_trim]
  cases found : (List.range 17).findSome? fun n => m.closest? (n + 1) with
  | none =>
    rw [Option.getD_none]
    exact nearest_exact finite
  | some d =>
    rw [Option.getD_some]
    obtain ⟨_, _, closest⟩ := List.exists_of_findSome?_eq_some found
    exact nearest_closest? closest

theorem isPlain_shortest (m : Magnitude) : m.shortest.IsPlain := Decimal.isPlain_trim _

end Magnitude

end MetricTree
