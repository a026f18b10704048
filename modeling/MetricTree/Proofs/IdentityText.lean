import MetricTree.Identity.Encoding
import MetricTree.Proofs.PlainText

namespace MetricTree

/-- A list is cut in one way only at the first place of an element. -/
theorem append_cons_eq_append_cons_iff {α : Type} {a : α} {xs ys s t : List α} (before : a ∉ xs) (other : a ∉ ys) :
    xs ++ a :: s = ys ++ a :: t ↔ xs = ys ∧ s = t := by
  induction xs generalizing ys with
  | nil =>
    cases ys with
    | nil => simp only [List.nil_append, List.cons.injEq, true_and]
    | cons y ys =>
      have apart : a ≠ y := fun same => other (same ▸ List.mem_cons_self ..)
      simp only [List.nil_append, List.cons_append, List.cons.injEq, apart, false_and, reduceCtorEq]
  | cons x xs ih =>
    rw [List.mem_cons, not_or] at before
    cases ys with
    | nil =>
      simp only [List.nil_append, List.cons_append, List.cons.injEq, Ne.symm before.1, false_and, reduceCtorEq]
    | cons y ys =>
      rw [List.mem_cons, not_or] at other
      simp only [List.cons_append, List.cons.injEq, ih before.2 other.2, and_assoc]

namespace Identity

/-- The letters that an identity ends with: those of its pairs. -/
def pairLetters (pairs : List (Text × Text)) : List Letter := (Text.join (pairPieces id pairs)).toList

/-- What follows the first pair. -/
def laterLetters : List (Text × Text) → List Letter
  | [] => []
  | pair :: rest => .char ',' :: pairLetters (pair :: rest)

theorem pairLetters_cons (pair : Text × Text) (rest : List (Text × Text)) :
    pairLetters (pair :: rest) = pair.1.toList ++ .char '=' :: (pair.2.toList ++ laterLetters rest) := by
  cases rest <;> rfl

theorem plus_not_mem_pairLetters {pairs : List (Text × Text)} (plain : PlainPairs pairs) :
    .char '+' ∉ pairLetters pairs := by
  induction pairs with
  | nil => exact List.not_mem_nil
  | cons pair rest ih =>
    obtain ⟨⟨key, value⟩, others⟩ := List.forall_mem_cons.mp plain
    rw [pairLetters_cons]
    simp only [List.mem_append, List.mem_cons, not_or]
    refine ⟨key.not_mem rfl, by decide, value.not_mem rfl, ?_⟩
    cases rest with
    | nil => exact List.not_mem_nil
    | cons next rest => exact List.not_mem_cons_of_ne_of_not_mem (by decide) (ih others)

/-- Pairs are read off their characters in one way only: a key ends at the first equals sign, and its value at the
first comma after that. -/
theorem pairLetters_injective {pairs others : List (Text × Text)} (plain : PlainPairs pairs)
    (plains : PlainPairs others) (same : pairLetters pairs = pairLetters others) : pairs = others := by
  induction pairs generalizing others with
  | nil =>
    cases others with
    | nil => rfl
    | cons pair rest =>
      rw [pairLetters_cons] at same
      exact absurd same.symm (List.append_ne_nil_of_right_ne_nil _ (List.cons_ne_nil _ _))
  | cons pair rest ih =>
    cases others with
    | nil =>
      rw [pairLetters_cons] at same
      exact absurd same (List.append_ne_nil_of_right_ne_nil _ (List.cons_ne_nil _ _))
    | cons other others =>
      obtain ⟨⟨key, value⟩, plain⟩ := List.forall_mem_cons.mp plain
      obtain ⟨⟨otherKey, otherValue⟩, plains⟩ := List.forall_mem_cons.mp plains
      rw [pairLetters_cons, pairLetters_cons,
        append_cons_eq_append_cons_iff (key.not_mem rfl) (otherKey.not_mem rfl)] at same
      obtain ⟨sameKey, same⟩ := same
      have noComma : .char ',' ∉ pair.2.toList := value.not_mem rfl
      have noOtherComma : .char ',' ∉ other.2.toList := otherValue.not_mem rfl
      cases rest with
      | nil =>
        cases others with
        | nil =>
          simp only [laterLetters, List.append_nil] at same
          rw [Prod.ext (Text.toList_inj.mp sameKey) (Text.toList_inj.mp same)]
        | cons next others =>
          rw [laterLetters, List.append_nil, laterLetters] at same
          exact absurd (same ▸ List.mem_append_right _ (List.mem_cons_self ..)) noComma
      | cons next rest =>
        cases others with
        | nil =>
          rw [laterLetters, laterLetters, List.append_nil] at same
          exact absurd (same ▸ List.mem_append_right _ (List.mem_cons_self ..)) noOtherComma
        | cons nextOther others =>
          rw [laterLetters, laterLetters, append_cons_eq_append_cons_iff noComma noOtherComma] at same
          rw [Prod.ext (Text.toList_inj.mp sameKey) (Text.toList_inj.mp same.1), ih plain plains same.2]

theorem toList_encode (stem : Text) (tags : Tags) :
    (encode stem tags).toList =
      if stem = "" then pairLetters (sortedPairs tags) else stem.toList ++ .char '+' :: pairLetters (sortedPairs tags) := by
  simp only [encode, Text.isEmpty_iff]
  split
  · rfl
  · rfl

theorem sortedPairs_perm (tags : Tags) : (sortedPairs tags).Perm tags.entries := List.mergeSort_perm _ _

theorem sortedPairs_plain {tags : Tags} (plain : PlainTags tags) : PlainPairs (sortedPairs tags) :=
  fun pair member => plain pair ((sortedPairs_perm tags).mem_iff.mp member)

theorem sortedPairs_sorted (tags : Tags) : (sortedPairs tags).Pairwise fun a b => a.1 ≤ b.1 := by
  have sorted := @List.pairwise_mergeSort _ (fun a b : Text × Text => decide (a.1 ≤ b.1))
    (fun a b c first second => decide_eq_true (Text.le_trans (of_decide_eq_true first) (of_decide_eq_true second)))
    (fun a b => by simpa using Text.le_total a.1 b.1) tags.entries
  exact sorted.imp of_decide_eq_true

/-- Sorting brings tags that agree into the same order, and no others. -/
theorem sortedPairs_eq_iff {tags others : Tags} (distinct : tags.keys.Nodup) (apart : others.keys.Nodup) :
    sortedPairs tags = sortedPairs others ↔ tags.Agrees others := by
  rw [Table.agrees_iff_perm distinct apart]
  constructor
  · intro same
    exact (sortedPairs_perm tags).symm.trans (same ▸ sortedPairs_perm others)
  · intro perm
    have sorted : (sortedPairs tags).Perm (sortedPairs others) :=
      ((sortedPairs_perm tags).trans perm).trans (sortedPairs_perm others).symm
    refine sorted.eq_of_pairwise ?_ (sortedPairs_sorted tags) (sortedPairs_sorted others)
    intro a b first second lower upper
    refine List.inj_on_of_nodup_map distinct ((sortedPairs_perm tags).mem_iff.mp first) ?_
      (Text.le_antisymm lower upper)
    exact (sortedPairs_perm tags).mem_iff.mp (sorted.mem_iff.mpr second)

theorem encode_congr {stem : Text} {tags others : Tags} (distinct : tags.keys.Nodup) (apart : others.keys.Nodup)
    (same : tags.Agrees others) : encode stem tags = encode stem others := by
  rw [encode, encode, (sortedPairs_eq_iff distinct apart).mpr same]

/-- An identity says what the stem and the tags are. The stem, if there is one, ends at the plus. -/
theorem encode_eq_encode_iff {stem other : Text} {tags others : Tags} (plainStem : Plain stem)
    (plainOther : Plain other) (plain : PlainTags tags) (plains : PlainTags others) (distinct : tags.keys.Nodup)
    (apart : others.keys.Nodup) : encode stem tags = encode other others ↔ stem = other ∧ tags.Agrees others := by
  have noPlus := plus_not_mem_pairLetters (sortedPairs_plain plain)
  have noOtherPlus := plus_not_mem_pairLetters (sortedPairs_plain plains)
  have injective := pairLetters_injective (sortedPairs_plain plain) (sortedPairs_plain plains)
  constructor
  · intro same
    rw [← Text.toList_inj, toList_encode, toList_encode] at same
    rw [← sortedPairs_eq_iff distinct apart]
    split at same
    · next bare =>
      split at same
      · next otherBare => exact ⟨bare.trans otherBare.symm, injective same⟩
      · exact absurd (same ▸ List.mem_append_right _ (List.mem_cons_self ..)) noPlus
    · split at same
      · exact absurd (same ▸ List.mem_append_right _ (List.mem_cons_self ..)) noOtherPlus
      · rw [append_cons_eq_append_cons_iff (plainStem.not_mem rfl) (plainOther.not_mem rfl)] at same
        exact ⟨Text.toList_inj.mp same.1, injective same.2⟩
  · rintro ⟨rfl, same⟩
    exact encode_congr distinct apart same

end Identity

end MetricTree
