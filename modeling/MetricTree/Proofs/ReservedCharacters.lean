import Mathlib.Data.List.Perm.Subperm
import MetricTree.Proofs.PlainText

namespace MetricTree

open Identity

namespace Text

variable {c d mark : Char}

theorem mem_hexDigits {width n : Nat} (member : c ∈ hexDigits width n) : ∃ digit < 16, c = hexDigit digit := by
  induction width generalizing n with
  | zero => cases member
  | succ width ih =>
    rcases List.mem_append.mp member with front | last
    · exact ih front
    · exact ⟨n % 16, Nat.mod_lt n (by decide), List.mem_singleton.mp last⟩

/-- What is given by number brings in no reserved character. -/
theorem not_isReserved_of_mem_numbered {kind : Char} {width n : Nat} (plain : isReserved kind = false)
    (member : d ∈ '\\' :: kind :: hexDigits width n) : isReserved d = false := by
  rcases List.mem_cons.mp member with rfl | member
  · decide
  · rcases List.mem_cons.mp member with rfl | member
    · exact plain
    · obtain ⟨digit, small, rfl⟩ := mem_hexDigits member
      have digits : ∀ digit < 16, isReserved (hexDigit digit) = false := by decide
      exact digits digit small

theorem eq_or_not_isReserved_of_mem_escape {letter : Letter} (member : d ∈ escape mark letter) :
    letter = d ∨ isReserved d = false := by
  cases letter with
  | half n => exact .inr (not_isReserved_of_mem_numbered (by decide) member)
  | char c =>
    simp only [escape] at member
    simp only [Letter.char.injEq]
    split at member
    · next same =>
      rcases List.mem_cons.mp member with rfl | last
      · exact .inr (by decide)
      · exact .inl (List.mem_singleton.mp last).symm
    · split at member
      · next short found =>
        refine .inr ?_
        unfold escapeControl? at found
        split at found <;> cases found <;> rcases List.mem_pair.mp member with rfl | rfl <;> decide
      · split at member
        · exact .inl (List.mem_singleton.mp member).symm
        · refine .inr ?_
          split at member
          · exact not_isReserved_of_mem_numbered (by decide) member
          · split at member <;> exact not_isReserved_of_mem_numbered (by decide) member

/-- A reserved character needs no escape. -/
theorem escape_of_isReserved (plain : isReserved mark = false) (reserved : isReserved c = true) :
    escape mark c = [c] := by
  have apart : c ≠ mark := by
    rintro rfl
    cases plain.symm.trans reserved
  have shown : c ≠ '\\' ∧ escapeControl? c = none ∧ isPrintable c = true := by
    have among : Letter.char c ∈ Fault.reservedCharacters := List.contains_iff_mem.mp reserved
    simp only [Fault.reservedCharacters, List.mem_cons, List.not_mem_nil, or_false, Letter.char.injEq] at among
    rcases among with rfl | rfl | rfl <;> decide
  obtain ⟨unescaped, uncontrolled, printable⟩ := shown
  simp only [escape, apart, unescaped, or_self, if_false, uncontrolled, printable, if_true]

theorem not_isReserved_quoteMark (letters : List Letter) : isReserved (quoteMark letters) = false := by
  unfold quoteMark
  split <;> decide

theorem exists_of_isReserved {letter : Letter} (reserved : isReserved letter = true) : ∃ d : Char, letter = d := by
  have among : letter ∈ Fault.reservedCharacters := List.contains_iff_mem.mp reserved
  simp only [Fault.reservedCharacters, List.mem_cons, List.not_mem_nil, or_false] at among
  rcases among with rfl | rfl | rfl <;> exact ⟨_, rfl⟩

/-- A text in quotes has the same reserved characters as without. -/
theorem mem_quoted (s : Text) {letter : Letter} (reserved : isReserved letter = true) :
    letter ∈ (quoted s : Text).toList ↔ letter ∈ s.toList := by
  obtain ⟨d, rfl⟩ := exists_of_isReserved reserved
  have plain := not_isReserved_quoteMark s.toList
  have apart : d ≠ quoteMark s.toList := by
    rintro rfl
    cases plain.symm.trans reserved
  have escaped (letter : Letter) : d ∈ escape (quoteMark s.toList) letter ↔ letter = d := by
    constructor
    · intro member
      exact (eq_or_not_isReserved_of_mem_escape member).resolve_right (Bool.not_eq_false _ ▸ reserved)
    · rintro rfl
      rw [escape_of_isReserved plain reserved]
      exact List.mem_singleton_self d
  rw [toList_ofString, List.mem_map_of_injective fun _ _ => Letter.char.inj, quoted, String.toList_ofList, quotedChars,
    List.mem_append, List.mem_cons, List.mem_singleton, List.mem_flatMap]
  simp only [apart, false_or, or_false, escaped, exists_eq_right]

end Text

namespace Fault

/-- A reserved character is named just where the text holds no other one. -/
theorem reservedNamed_quoted {part : String} {s : Text} {c : Letter} (plain : Plain part) (member : c ∈ s.toList)
    (reserved : isReserved c = true) :
    ((∀ d ∈ s.toList, isReserved d = true → d = c) → reservedNamed ↑(part ++ " " ++ Text.quoted s) c = c) ∧
      ((¬∀ d ∈ s.toList, isReserved d = true → d = c) → reservedNamed ↑(part ++ " " ++ Text.quoted s) c = '*') := by
  have before (d : Letter) (choice : d ∈ reservedCharacters) :
      (Text.ofString (part ++ " " ++ Text.quoted s)).toList.contains d = s.toList.contains d := by
    have known : isReserved d = true := List.contains_iff_mem.mpr choice
    have spaced : d ∉ (" " : Text).toList := by
      intro space
      cases List.mem_singleton.mp space
      cases known
    have parts : Text.ofString (part ++ " " ++ Text.quoted s) = part ++ " " ++ Text.quoted s := by
      rw [Text.ofString_append, Text.ofString_append]
    rw [parts, Bool.eq_iff_iff, List.contains_iff_mem, List.contains_iff_mem, Text.toList_append, Text.toList_append]
    simp only [List.mem_append, plain.not_mem known, spaced, Text.mem_quoted s known, false_or]
  have inside (d : Letter) :
      d ∈ reservedCharacters.filter s.toList.contains ↔ isReserved d = true ∧ d ∈ s.toList := by
    rw [List.mem_filter, List.contains_iff_mem, isReserved, List.contains_iff_mem]
  rw [reservedNamed, List.filter_congr before]
  constructor
  · intro single
    have distinct : (reservedCharacters.filter s.toList.contains).Nodup := List.Nodup.filter _ (by decide)
    have alone : reservedCharacters.filter s.toList.contains ⊆ [c] := by
      intro d found
      obtain ⟨known, within⟩ := (inside d).mp found
      exact List.mem_singleton.mpr (single d within known)
    exact if_pos (List.subperm_of_subset distinct alone).length_le
  · intro several
    refine if_neg fun short => several fun d within known => ?_
    by_contra other
    have both : [c, d] ⊆ reservedCharacters.filter s.toList.contains := by
      intro e either
      rcases List.mem_pair.mp either with rfl | rfl
      · exact (inside _).mpr ⟨reserved, member⟩
      · exact (inside _).mpr ⟨known, within⟩
    have distinct : [c, d].Nodup := List.nodup_cons.mpr
      ⟨fun same => other (List.mem_singleton.mp same).symm, List.nodup_singleton d⟩
    exact absurd (Nat.le_trans (List.subperm_of_subset distinct both).length_le short) (by decide : ¬2 ≤ 1)

end Fault

end MetricTree
