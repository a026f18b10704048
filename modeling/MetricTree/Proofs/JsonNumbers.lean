import Mathlib.Data.List.TakeWhile
import MetricTree.Binary64.Places
import MetricTree.Json.Reader
import MetricTree.Proofs.NearestDecimals

namespace MetricTree

section Runs

variable {α : Type} {p : α → Bool} {xs ys : List α}

/-- No further element is taken into a run that ends before it. -/
theorem takeWhile_append_of_stop (all : ∀ x ∈ xs, p x = true) (stop : ∀ y ∈ ys.head?, p y = false) :
    (xs ++ ys).takeWhile p = xs := by
  rw [List.takeWhile_append_of_pos all]
  cases ys with
  | nil => exact List.append_nil xs
  | cons y ys =>
    have outside : ¬p y = true := by rw [stop y rfl]; decide
    rw [List.takeWhile_cons_of_neg outside, List.append_nil]

theorem dropWhile_append_of_stop (all : ∀ x ∈ xs, p x = true) (stop : ∀ y ∈ ys.head?, p y = false) :
    (xs ++ ys).dropWhile p = ys := by
  rw [List.dropWhile_append_of_pos all]
  cases ys with
  | nil => rfl
  | cons y ys =>
    have outside : ¬p y = true := by rw [stop y rfl]; decide
    rw [List.dropWhile_cons_of_neg outside]

end Runs

namespace Text

theorem natOfDigits_eq (cs : List Char) : natOfDigits cs = Nat.ofDigitChars 10 cs 0 := Nat.ofDigitChars_eq_foldl.symm

theorem natOfDigits_toDigits (n : Nat) : natOfDigits (Nat.toDigits 10 n) = n := by
  rw [natOfDigits_eq, Nat.ofDigitChars_ten_toDigits]

theorem natOfDigits_zeros_append (k : Nat) (cs : List Char) :
    natOfDigits (List.replicate k '0' ++ cs) = natOfDigits cs := by
  rw [natOfDigits_eq, Nat.ofDigitChars_append, Nat.ofDigitChars_replicate_zero, Nat.mul_zero, natOfDigits_eq]

theorem natOfDigits_append_zeros (cs : List Char) (k : Nat) :
    natOfDigits (cs ++ List.replicate k '0') = natOfDigits cs * 10 ^ k := by
  rw [natOfDigits_eq, Nat.ofDigitChars_append, Nat.ofDigitChars_replicate_zero, Nat.mul_comm, natOfDigits_eq]

theorem isDigit_toDigits (n : Nat) : ∀ c ∈ Nat.toDigits 10 n, c.isDigit = true :=
  fun _ => Nat.isDigit_of_mem_toDigits (by decide) (by decide)

/-- Only zero is written with a zero in front. -/
theorem eq_zero_of_head?_toDigits {n : Nat} (front : (Nat.toDigits 10 n).head? = some '0') : n = 0 := by
  induction n using Nat.strongRecOn with
  | ind n ih =>
    by_cases small : n < 10
    · have read := natOfDigits_toDigits n
      rw [Nat.toDigits_of_lt_base small] at front read
      rw [← read, Option.some.inj front]
      rfl
    · have large := Nat.le_of_not_lt small
      have later : (Nat.toDigits 10 (n / 10)).head? = some '0' := by
        obtain ⟨c, cs, split⟩ := List.exists_cons_of_ne_nil (Nat.toDigits_ne_nil (n := n / 10) (b := 10))
        rw [Nat.toDigits_of_base_le (by decide) large, split] at front
        rw [split]
        exact front
      have zero : n / 10 = 0 := ih _ (Nat.div_lt_self (by omega) (by decide)) later
      omega

theorem isDigit_zeros {k : Nat} {cs : List Char} (digits : ∀ c ∈ cs, c.isDigit = true) :
    ∀ c ∈ List.replicate k '0' ++ cs, c.isDigit = true := by
  intro c member
  rcases List.mem_append.mp member with zero | digit
  · rw [List.eq_of_mem_replicate zero]
    rfl
  · exact digits c digit

theorem natural?_digits {cs : List Char} (nonempty : cs ≠ []) (digits : ∀ c ∈ cs, c.isDigit = true) :
    natural? cs = some (natOfDigits cs) := by
  have all : cs.all Char.isDigit = true := List.all_eq_true.mpr digits
  simp only [natural?, all, List.isEmpty_eq_false_iff.mpr nonempty, Bool.not_true, Bool.or_false, Bool.false_eq_true,
    if_false]

end Text

namespace Json

theorem isWordChar_digits {cs : List Char} (digits : ∀ c ∈ cs, c.isDigit = true) : ∀ c ∈ cs, isWordChar c = true := by
  intro c member
  simp only [isWordChar, Char.isAlphanum, digits c member, Bool.or_true, Bool.true_or]

end Json

open Text

namespace Decimal

theorem exponent?_exponentText (n : Int) : exponent? (exponentText n) = some n := by
  have digits := isDigit_zeros (k := 2 - (Nat.toDigits 10 n.natAbs).length) (isDigit_toDigits n.natAbs)
  have nonempty : List.replicate (2 - (Nat.toDigits 10 n.natAbs).length) '0' ++ Nat.toDigits 10 n.natAbs ≠ [] :=
    List.append_ne_nil_of_right_ne_nil _ Nat.toDigits_ne_nil
  have read := natural?_digits nonempty digits
  rw [natOfDigits_zeros_append, natOfDigits_toDigits] at read
  rw [exponentText, exponent?, if_pos (.inl rfl), digitsAtLeast]
  by_cases negative : n < 0
  · rw [if_pos negative, integer?]
    simp only [splitSign, read, if_true]
    exact congrArg some (by omega : -(n.natAbs : Int) = n)
  · rw [if_neg negative, integer?]
    simp only [splitSign, read, Bool.false_eq_true, if_false]
    exact congrArg some (by omega : (n.natAbs : Int) = n)

/-- The point and what follows it, if anything does. -/
def fractional : List Char → List Char
  | [] => []
  | fraction => '.' :: fraction

theorem fractional_of_ne_nil {fraction : List Char} (nonempty : fraction ≠ []) :
    fractional fraction = '.' :: fraction := by
  obtain ⟨d, ds, rfl⟩ := List.exists_cons_of_ne_nil nonempty
  rfl

theorem eq_or_mem_of_mem_fractional {fraction : List Char} {c : Char} (member : c ∈ fractional fraction) :
    c = '.' ∨ c ∈ fraction := by
  cases fraction with
  | nil => cases member
  | cons d ds => exact List.mem_cons.mp member

theorem ofChars?_fractional {whole fraction tail : List Char} (digits : ∀ c ∈ whole, c.isDigit = true)
    (nonempty : whole ≠ []) (places : ∀ c ∈ fraction, c.isDigit = true)
    (stop : ∀ c ∈ tail.head?, c.isDigit = false) (pointless : ∀ c ∈ tail.head?, c ≠ '.') :
    ofChars? (whole ++ (fractional fraction ++ tail)) =
      (exponent? tail).map fun e => ⟨natOfDigits (whole ++ fraction), e - fraction.length⟩ := by
  have end' : ∀ c ∈ (fractional fraction ++ tail).head?, c.isDigit = false := by
    cases fraction with
    | nil => exact stop
    | cons d ds => exact fun c same => Option.some.inj same ▸ rfl
  have some' : whole.isEmpty = false := List.isEmpty_eq_false_iff.mpr nonempty
  simp only [ofChars?, takeWhile_append_of_stop digits end', dropWhile_append_of_stop digits end', some',
    Bool.false_and, Bool.false_eq_true, if_false]
  cases fraction with
  | nil =>
    cases tail with
    | nil => rfl
    | cons c cs =>
      have other := pointless c rfl
      simp only [fractional, List.nil_append]
      split
      · next same => exact absurd (List.head_eq_of_cons_eq same) other
      · rfl
  | cons d ds =>
    simp only [fractional, List.cons_append]
    rw [← List.cons_append, takeWhile_append_of_stop places stop, dropWhile_append_of_stop places stop]

/-- How a number is spelled that does not stand for an integer: digits with at most one zero in front, and then a
fraction, an exponent or both. -/
structure Spelling where
  whole : List Char
  fraction : List Char
  power? : Option Int
  digits : ∀ c ∈ whole, c.isDigit = true
  nonempty : whole ≠ []
  proper : whole.head? = some '0' → whole = ['0']
  places : ∀ c ∈ fraction, c.isDigit = true
  marked : power? = none → fraction ≠ []

namespace Spelling

variable (s : Spelling)

def tail : List Char := s.power?.elim [] exponentText

def chars : List Char := s.whole ++ (fractional s.fraction ++ s.tail)

def decimal : Decimal := ⟨natOfDigits (s.whole ++ s.fraction), s.power?.getD 0 - s.fraction.length⟩

theorem chars_of_no_power (none : s.power? = none) : s.chars = s.whole ++ '.' :: s.fraction := by
  rw [chars, tail, none, Option.elim_none, List.append_nil, fractional_of_ne_nil (s.marked none)]

theorem head?_tail : ∀ c ∈ s.tail.head?, c = 'e' := by
  unfold tail
  cases s.power? with
  | none => exact fun _ member => nomatch member
  | some n => exact fun _ same => (Option.some.inj same).symm

theorem ofChars?_chars : ofChars? s.chars = some s.decimal := by
  have stop : ∀ c ∈ s.tail.head?, c.isDigit = false := fun c member => s.head?_tail c member ▸ rfl
  have pointless : ∀ c ∈ s.tail.head?, c ≠ '.' := fun c member => s.head?_tail c member ▸ by decide
  have read : exponent? s.tail = some (s.power?.getD 0) := by
    unfold tail
    cases s.power? with
    | none => rfl
    | some n => exact exponent?_exponentText n
  rw [chars, ofChars?_fractional s.digits s.nonempty s.places stop pointless, read, Option.map_some, decimal]

theorem front_isDigit : ∃ c cs, s.chars = c :: cs ∧ c.isDigit = true := by
  obtain ⟨c, cs, whole⟩ := List.exists_cons_of_ne_nil s.nonempty
  exact ⟨c, _, by rw [chars, whole, List.cons_append], s.digits c (whole ▸ List.mem_cons_self)⟩

theorem isWordChar_chars : ∀ c ∈ s.chars, Json.isWordChar c = true := by
  have point : ∀ c ∈ fractional s.fraction, Json.isWordChar c = true := by
    intro c member
    rcases eq_or_mem_of_mem_fractional member with rfl | place
    · rfl
    · exact Json.isWordChar_digits s.places c place
  have power : ∀ c ∈ s.tail, Json.isWordChar c = true := by
    unfold tail
    cases s.power? with
    | none => exact fun _ member => nomatch member
    | some n =>
      refine List.forall_mem_cons.mpr ⟨rfl, List.forall_mem_cons.mpr ⟨?_, ?_⟩⟩
      · split <;> rfl
      · exact Json.isWordChar_digits (isDigit_zeros (isDigit_toDigits _))
  exact List.forall_mem_append.mpr ⟨Json.isWordChar_digits s.digits, List.forall_mem_append.mpr ⟨point, power⟩⟩

theorem stop_after_whole : ∀ c ∈ (fractional s.fraction ++ s.tail).head?, c.isDigit = false := by
  cases s.fraction with
  | nil => exact fun c member => s.head?_tail c member ▸ rfl
  | cons d ds => exact fun c same => Option.some.inj same ▸ rfl

theorem rest_ne_nil : fractional s.fraction ++ s.tail ≠ [] := by
  unfold tail
  cases power : s.power? with
  | some n => exact List.append_ne_nil_of_right_ne_nil _ (List.cons_ne_nil _ _)
  | none =>
    obtain ⟨d, ds, fraction⟩ := List.exists_cons_of_ne_nil (s.marked power)
    rw [fraction]
    exact List.cons_ne_nil _ _

theorem hasBarePoint_rest : Json.hasBarePoint (fractional s.fraction ++ s.tail) = false := by
  cases fraction : s.fraction with
  | nil =>
    unfold tail
    cases s.power? <;> rfl
  | cons d ds => exact congrArg Bool.not (s.places d (fraction ▸ List.mem_cons_self))

theorem unsigned?_chars (negative : Bool) :
    Json.unsigned? negative s.chars = some (.float (.signed negative s.decimal.nearest)) := by
  have whole : s.chars.takeWhile Char.isDigit = s.whole := takeWhile_append_of_stop s.digits s.stop_after_whole
  have rest : s.chars.dropWhile Char.isDigit = fractional s.fraction ++ s.tail :=
    dropWhile_append_of_stop s.digits s.stop_after_whole
  have accepted : ¬(s.whole.isEmpty = true ∨ (s.whole.head? = some '0' ∧ s.whole ≠ ['0']) ∨
      Json.hasBarePoint (fractional s.fraction ++ s.tail) = true) := by
    rintro (empty | ⟨front, longer⟩ | bare)
    · exact s.nonempty (List.isEmpty_iff.mp empty)
    · exact longer (s.proper front)
    · rw [s.hasBarePoint_rest] at bare
      cases bare
  simp only [Json.unsigned?, whole, rest]
  rw [if_neg accepted, if_neg (by simpa only [List.isEmpty_iff] using s.rest_ne_nil), s.ofChars?_chars, Option.map_some]

variable {d : Decimal}

/-- Nothing in front of the point, and zeros between it and the digits. -/
def belowOne (d : Decimal) (zeros : Nat) : Spelling where
  whole := ['0']
  fraction := List.replicate zeros '0' ++ Nat.toDigits 10 d.digits
  power? := none
  digits _ member := List.mem_singleton.mp member ▸ rfl
  nonempty := List.cons_ne_nil _ _
  proper _ := rfl
  places := isDigit_zeros (isDigit_toDigits _)
  marked _ := List.append_ne_nil_of_right_ne_nil _ Nat.toDigits_ne_nil

/-- Zeros between the digits and the point, and one behind it. -/
def padded (d : Decimal) (zeros : Nat) (proper : d.digits = 0 → zeros = 0) : Spelling where
  whole := Nat.toDigits 10 d.digits ++ List.replicate zeros '0'
  fraction := ['0']
  power? := none
  digits := List.forall_mem_append.mpr
    ⟨isDigit_toDigits _, fun _ member => List.eq_of_mem_replicate member ▸ rfl⟩
  nonempty := List.append_ne_nil_of_left_ne_nil Nat.toDigits_ne_nil _
  proper front := by
    obtain ⟨c, cs, split⟩ := List.exists_cons_of_ne_nil (Nat.toDigits_ne_nil (n := d.digits) (b := 10))
    have zero : d.digits = 0 := eq_zero_of_head?_toDigits (by rw [split] at front ⊢; exact front)
    rw [proper zero, zero]
    rfl
  places _ member := List.mem_singleton.mp member ▸ rfl
  marked _ := List.cons_ne_nil _ _

/-- The point among the digits or behind them, and perhaps a power of ten. -/
def split (d : Decimal) (count : Nat) (power? : Option Int) (positive : 0 < count)
    (marked : power? = none → count < d.size) : Spelling where
  whole := (Nat.toDigits 10 d.digits).take count
  fraction := (Nat.toDigits 10 d.digits).drop count
  power? := power?
  digits c member := isDigit_toDigits _ c (List.mem_of_mem_take member)
  nonempty empty := (List.take_eq_nil_iff.mp empty).elim positive.ne' Nat.toDigits_ne_nil
  proper front := by
    rw [List.head?_take, if_neg positive.ne'] at front
    rw [eq_zero_of_head?_toDigits front]
    exact List.take_of_length_le positive
  places c member := isDigit_toDigits _ c (List.mem_of_mem_drop member)
  marked bare empty := Nat.not_le_of_lt (marked bare) (List.drop_eq_nil_iff.mp empty)

theorem decimal_belowOne {zeros : Nat} (place : (d.size : Int) + d.scale + zeros = 0) :
    (belowOne d zeros).decimal = d := by
  have value : natOfDigits (List.replicate (zeros + 1) '0' ++ Nat.toDigits 10 d.digits) = d.digits := by
    rw [natOfDigits_zeros_append, natOfDigits_toDigits]
  have length : (List.replicate zeros '0' ++ Nat.toDigits 10 d.digits).length = zeros + d.size := by
    rw [List.length_append, List.length_replicate, size]
  have scale : (0 : Int) - (zeros + d.size : Nat) = d.scale := by omega
  rw [List.replicate_succ] at value
  simp only [decimal, belowOne, List.cons_append, List.nil_append] at value ⊢
  rw [value, length, Option.getD_none, scale]

theorem nearest_padded {zeros : Nat} {proper : d.digits = 0 → zeros = 0} (place : d.scale = zeros) :
    (padded d zeros proper).decimal.nearest = d.nearest := by
  have value : natOfDigits (Nat.toDigits 10 d.digits ++ List.replicate zeros '0' ++ ['0']) =
      d.digits * 10 ^ (zeros + 1) := by
    rw [List.append_assoc, ← List.replicate_succ', natOfDigits_append_zeros, natOfDigits_toDigits]
  have scale : (0 : Int) - (1 : Nat) + (zeros + 1 : Nat) = d.scale := by omega
  simp only [decimal, padded]
  rw [value, nearest_mul_pow, Option.getD_none, List.length_singleton, scale]

theorem decimal_split {count : Nat} {power? : Option Int} {positive : 0 < count}
    {marked : power? = none → count < d.size} (fits : count ≤ d.size)
    (place : (d.size : Int) + d.scale = count + power?.getD 0) :
      (split d count power? positive marked).decimal = d := by
  have length : ((Nat.toDigits 10 d.digits).drop count).length = d.size - count := List.length_drop
  have scale : power?.getD 0 - (d.size - count : Nat) = d.scale := by omega
  simp only [decimal, split]
  rw [List.take_append_drop, natOfDigits_toDigits, length, scale]

end Spelling

variable {d : Decimal}

/-- Numbers are written as spellings that read back. -/
theorem exists_spelling (plain : d.IsPlain) :
    ∃ s : Spelling, d.written.toList = s.chars ∧ s.decimal.nearest = d.nearest := by
  have filled : 0 < d.size := Nat.length_toDigits_pos
  have unscaled : d.digits = 0 → d.size = 1 ∧ d.scale = 0 := fun zero => ⟨by rw [size, zero]; rfl, plain zero⟩
  unfold written
  extract_lets digits zeros lead whole mantissa exponent sign
  have lead_eq : lead = d.size + d.scale - 1 := rfl
  have length : digits.length = d.size := rfl
  split
  · have whole_eq : whole = (lead + 1).toNat := rfl
    split
    · next low =>
      refine ⟨.belowOne d (-lead - 1).toNat, ?_, ?_⟩
      · rw [String.toList_ofList, Spelling.chars_of_no_power _ rfl]
        rfl
      · rw [Spelling.decimal_belowOne (by omega)]
    · next high =>
      split
      · next short =>
        have place : d.scale = (whole - digits.length : Nat) := by omega
        refine ⟨.padded d (whole - digits.length) (fun zero => ?_), ?_, Spelling.nearest_padded place⟩
        · have := unscaled zero
          omega
        · rw [String.toList_ofList]
          rfl
      · next long =>
        refine ⟨.split d whole none (by omega) (fun _ => by omega), ?_, ?_⟩
        · rw [String.toList_ofList, Spelling.chars_of_no_power _ rfl]
          rfl
        · rw [Spelling.decimal_split (by omega) (by simp only [Option.getD_none]; omega)]
  · refine ⟨.split d 1 (some lead) Nat.one_pos (absurd · (Option.some_ne_none _)), ?_, ?_⟩
    · have shape : mantissa = digits.take 1 ++ fractional (digits.drop 1) := by
        unfold mantissa
        rcases digits with _ | ⟨c, _ | ⟨d, ds⟩⟩ <;> rfl
      rw [String.toList_ofList, shape, List.append_assoc, List.append_assoc]
      rfl
    · rw [Spelling.decimal_split filled (by simp only [Option.getD_some]; omega)]

end Decimal

namespace Json

theorem numeral?_of_digit {c : Char} {cs : List Char} (digit : c.isDigit = true) :
    numeral? (c :: cs) = unsigned? false (c :: cs) := by
  unfold numeral?
  split
  · next same =>
    obtain ⟨rfl, _⟩ := List.cons_eq_cons.mp same
    cases digit
  · rfl

theorem unsigned?_toDigits (negative : Bool) (n : Nat) :
    unsigned? negative (Nat.toDigits 10 n) =
      (ShortInt.ofInt (if negative then -n else n)).toOption.map .int := by
  have digits := isDigit_toDigits n
  have whole : (Nat.toDigits 10 n).takeWhile Char.isDigit = Nat.toDigits 10 n := List.takeWhile_eq_self_iff.mpr digits
  have rest : (Nat.toDigits 10 n).dropWhile Char.isDigit = [] := List.dropWhile_eq_nil_iff.mpr digits
  have accepted : ¬((Nat.toDigits 10 n).isEmpty = true ∨
      ((Nat.toDigits 10 n).head? = some '0' ∧ Nat.toDigits 10 n ≠ ['0']) ∨ hasBarePoint [] = true) := by
    rintro (empty | ⟨front, longer⟩ | bare)
    · exact Nat.toDigits_ne_nil (List.isEmpty_iff.mp empty)
    · exact longer (eq_zero_of_head?_toDigits front ▸ rfl)
    · cases bare
  simp only [unsigned?, whole, rest]
  rw [if_neg accepted, if_pos List.isEmpty_nil, natOfDigits_toDigits]

theorem toList_toString_negSucc (n : Nat) : (toString (Int.negSucc n)).toList = '-' :: Nat.toDigits 10 (n + 1) := by
  calc (toString (Int.negSucc n)).toList
    _ = ("-" ++ Nat.repr (n + 1)).toList := rfl
    _ = '-' :: Nat.toDigits 10 (n + 1) := by rw [String.toList_append, Nat.toList_repr]; rfl

/-- Characters that read as a value by themselves. -/
structure IsWord (cs : List Char) (j : Json) : Prop where
  read : word? cs = some j
  chars : ∀ c ∈ cs, isWordChar c = true

theorem isWord_int (n : ShortInt) : IsWord n.text.toList (.int n) := by
  have itself : (ShortInt.ofInt n.value).toOption.map Json.int = some (.int n) := by rw [ShortInt.ofInt_value]; rfl
  rw [ShortInt.text]
  cases value : n.value with
  | ofNat m =>
    obtain ⟨c, cs, digits⟩ := List.exists_cons_of_ne_nil (Nat.toDigits_ne_nil (n := m) (b := 10))
    have digit := isDigit_toDigits m c (digits ▸ List.mem_cons_self)
    have text : (toString (Int.ofNat m)).toList = Nat.toDigits 10 m := Nat.toList_repr
    have read : numeral? (Nat.toDigits 10 m) = some (.int n) := by
      calc numeral? (Nat.toDigits 10 m)
        _ = unsigned? false (Nat.toDigits 10 m) := by rw [digits, numeral?_of_digit digit]
        _ = (ShortInt.ofInt n.value).toOption.map .int := by rw [unsigned?_toDigits, value]; rfl
        _ = some (.int n) := itself
    rw [text]
    exact ⟨by rw [word?, read]; rfl, isWordChar_digits (isDigit_toDigits m)⟩
  | negSucc m =>
    have read : numeral? ('-' :: Nat.toDigits 10 (m + 1)) = some (.int n) := by
      calc numeral? ('-' :: Nat.toDigits 10 (m + 1))
        _ = (ShortInt.ofInt n.value).toOption.map .int := by rw [value]; exact unsigned?_toDigits true (m + 1)
        _ = some (.int n) := itself
    rw [toList_toString_negSucc]
    exact ⟨by rw [word?, read]; rfl, List.forall_mem_cons.mpr ⟨rfl, isWordChar_digits (isDigit_toDigits _)⟩⟩

theorem isWord_float (x : Binary64) : IsWord (floatText x).toList (.float x) := by
  cases x with
  | nan => exact ⟨rfl, List.all_eq_true.mp rfl⟩
  | signed negative m =>
    by_cases infinite : m = .infinity
    · subst infinite
      cases negative with
      | true => exact ⟨rfl, List.all_eq_true.mp rfl⟩
      | false => exact ⟨rfl, List.all_eq_true.mp rfl⟩
    obtain ⟨s, chars, nearest⟩ := Decimal.exists_spelling m.isPlain_shortest
    have same : s.decimal.nearest = m := nearest.trans (Magnitude.nearest_shortest infinite)
    have text : (floatText (.signed negative m)).toList = (if negative then "-" else "").toList ++ s.chars := by
      rw [floatText, if_neg infinite, Binary64.toText, if_neg infinite, String.toList_append, chars]
    have read : numeral? ((if negative then "-" else "").toList ++ s.chars) = some (.float (.signed negative m)) := by
      rw [← same]
      cases negative with
      | true => exact s.unsigned?_chars true
      | false =>
        obtain ⟨c, cs, front, digit⟩ := s.front_isDigit
        calc numeral? s.chars
          _ = unsigned? false s.chars := by rw [front, numeral?_of_digit digit]
          _ = _ := s.unsigned?_chars false
    have sign : ∀ c ∈ (if negative then "-" else "").toList, isWordChar c = true := by
      cases negative <;> exact List.all_eq_true.mp rfl
    rw [text]
    exact ⟨by rw [word?, read]; rfl, List.forall_mem_append.mpr ⟨sign, s.isWordChar_chars⟩⟩

end Json

end MetricTree
