import MetricTree.Proofs.PieceWriting
import MetricTree.Proofs.IdentityText

namespace MetricTree.Identity

theorem pairPieces_map (pairs : List (Text × Text)) :
    pairPieces Value.text (pairs.map fun pair => (.text pair.1, .text pair.2)) =
      (pairPieces id pairs).map .text := by
  induction pairs with
  | nil => rfl
  | cons pair rest ih =>
    cases rest with
    | nil => rfl
    | cons next rest =>
      simp only [List.map_cons, pairPieces, List.cons.injEq, id_eq, true_and] at ih ⊢
      exact ih

theorem pieces_map (stem? : Option Text) (pairs : List (Text × Text)) :
    pieces Value.text (stem?.map .text) (pairs.map fun pair => (.text pair.1, .text pair.2)) =
      (pieces id stem? pairs).map .text := by
  cases stem? with
  | none => exact pairPieces_map pairs
  | some stem => simp only [Option.map_some, pieces, pairPieces_map, List.map_cons, id_eq]

theorem joinFrom_texts (index : Nat) (texts : List Text) :
    joinFrom index (texts.map .text) = .ok (Text.join texts) := by
  induction texts generalizing index with
  | nil => rfl
  | cons s rest ih =>
    rw [List.map_cons, joinFrom, ih, Text.join_cons]
    rfl

theorem map_fst_sortedPairs (tags : Tags) :
    (sortedPairs tags).map (·.1) = tags.keys.mergeSort fun s t => decide (s ≤ t) :=
  List.map_mergeSort fun _ _ _ _ => rfl

theorem mapM_text?_texts (texts : List Text) : (texts.map .text).mapM Value.text? = some texts := by
  induction texts with
  | nil => rfl
  | cons s rest ih =>
    rw [List.map_cons, List.mapM_cons, ih]
    rfl

theorem sortKeys_given (tags : Tags) :
    sortKeys tags.given.keys = .ok ((sortedPairs tags).map fun pair => .text pair.1) := by
  simp only [sortKeys, Tags.keys_given, mapM_text?_texts, ← map_fst_sortedPairs, List.map_map]
  rfl

/-- Of texts, the identity is put together as for any values. -/
theorem encodeValues_given (stem : Text) {tags : Tags} (distinct : tags.keys.Nodup) :
    encodeValues (.text stem) tags.given = .ok (encode stem tags) := by
  have pairs : ((sortedPairs tags).map fun pair => Value.text pair.1).map
      (fun key => (key, (tags.given.get? key).getD .null)) =
        (sortedPairs tags).map fun pair => (.text pair.1, .text pair.2) := by
    rw [List.map_map]
    refine List.map_congr_left fun pair member => ?_
    have found := Table.get?_of_mem_entries distinct ((sortedPairs_perm tags).mem_iff.mp member)
    simp only [Function.comp_apply, Tags.get?_given, Value.textKey?, Option.bind_some, found, Option.map_some,
      Option.getD_some]
  have front : (if (Value.text stem).isTruthy then some (Value.text stem) else none) =
      (if stem.isEmpty then none else some stem).map .text := by
    by_cases empty : stem.isEmpty
    · simp only [Value.isTruthy, empty, Bool.not_true, Bool.false_eq_true, if_false, if_true, Option.map_none]
    · simp only [Value.isTruthy, empty, Bool.not_false, Bool.false_eq_true, if_false, if_true, Option.map_some]
  have taken : valuePieces (.text stem) tags.given =
      .ok ((pieces id (if stem.isEmpty then none else some stem) (sortedPairs tags)).map .text) := by
    rw [← pieces_map, ← front, ← pairs]
    exact bind_eq_ok.mpr ⟨_, sortKeys_given tags, rfl⟩
  exact bind_eq_ok.mpr ⟨_, taken, joinFrom_texts 0 _⟩

/-- What is encoded on an empty buffer is the identity. -/
theorem encodePooled_eq {pool : Pool Buffer} (emptied : ∀ buffer ∈ pool.idle, buffer = []) (stem : Value)
    (tags : Table Value Value) : (encodePooled pool stem tags).1 = encodeValues stem tags := by
  have blank : pool.take.1.getD [] = [] := by
    unfold Pool.take
    split
    · rfl
    · next stored => exact emptied _ (stored ▸ List.mem_cons_self ..)
  simp only [encodePooled_eq_atOnce, encodeAtOnce, blank, List.nil_append]
  rfl

/-- The pool after encoding one stem and tags after the other, whether or not they could be encoded. -/
def poolAfter (encoded : List (Value × Table Value Value)) : Pool Buffer :=
  encoded.foldl (fun pool input => (encodePooled pool input.1 input.2).2) buffers

/-- Buffers come back emptied. -/
theorem emptied_encodePooled {pool : Pool Buffer} (emptied : ∀ buffer ∈ pool.idle, buffer = []) (stem : Value)
    (tags : Table Value Value) : ∀ buffer ∈ (encodePooled pool stem tags).2.idle, buffer = [] := by
  have rest : ∀ buffer ∈ pool.take.2.idle, buffer = [] := by
    unfold Pool.take
    split
    · exact emptied
    · next stored => exact fun buffer member => emptied buffer (stored ▸ List.mem_cons_of_mem _ member)
  simp only [encodePooled_eq_atOnce, encodeAtOnce, Pool.put]
  split
  · exact rest
  · exact List.forall_mem_append.mpr ⟨rest, List.forall_mem_singleton.mpr rfl⟩

theorem emptied_poolAfter (encoded : List (Value × Table Value Value)) :
    ∀ buffer ∈ (poolAfter encoded).idle, buffer = [] := by
  unfold poolAfter
  have first : ∀ buffer ∈ buffers.idle, buffer = [] := List.forall_mem_nil _
  generalize buffers = pool at first
  induction encoded generalizing pool with
  | nil => exact first
  | cons input rest ih => exact ih _ (emptied_encodePooled first input.1 input.2)

/-- Stems and tags that can be embedded in identities always have one, and two of them have the same one only if
the stems are equal, and the tags but for their order; whatever else was encoded before. -/
theorem identity_eq_iff {part piece : String} {p q : Value} {s t : Table Value Value} {stem other : Text}
    {tags others : Tags} (stemAccepted : checkName part true p = .ok stem)
    (otherAccepted : checkName piece true q = .ok other) (tagsAccepted : checkTags s = .ok tags)
    (othersAccepted : checkTags t = .ok others) (distinct : s.keys.Nodup) (apart : t.keys.Nodup)
    (before between : List (Value × Table Value Value)) :
    ∃ i j, (encodePooled (poolAfter before) p s).1 = .ok i ∧ (encodePooled (poolAfter between) q t).1 = .ok j ∧
      (i = j ↔ p = q ∧ s.Agrees t) := by
  obtain ⟨rfl, plainStem, _⟩ := checkName_eq_ok.mp stemAccepted
  obtain ⟨rfl, plainOther, _⟩ := checkName_eq_ok.mp otherAccepted
  obtain ⟨rfl, plain⟩ := checkTags_eq_ok.mp tagsAccepted
  obtain ⟨rfl, plains⟩ := checkTags_eq_ok.mp othersAccepted
  rw [Tags.nodup_keys_given] at distinct apart
  refine ⟨encode stem tags, encode other others, ?_, ?_, ?_⟩
  · rw [encodePooled_eq (emptied_poolAfter before), encodeValues_given stem distinct]
  · rw [encodePooled_eq (emptied_poolAfter between), encodeValues_given other apart]
  · rw [encode_eq_encode_iff plainStem plainOther plain plains distinct apart, Value.text.injEq,
      Tags.given_agrees_iff]

/-- An empty key with an empty value beside another pair, in either order, on a new buffer and on one that a failure
has left; and the same empty pair alone, which is not the same as no pair. -/
theorem identity_eq_iff_empty_pair :
    let pair : Tags := ⟨[("", "")]⟩
    let tags : Tags := ⟨[("", ""), ("k", "v")]⟩
    let others : Tags := ⟨[("k", "v"), ("", "")]⟩
    let failing : List (Value × Table Value Value) := [(.int 7, others.given)]
    (∃ i, (encodePooled buffers (.text "p") tags.given).1 = .ok i ∧
      (encodePooled (poolAfter failing) (.text "p") others.given).1 = .ok i) ∧
    ∃ i j, (encodePooled buffers (.text "") pair.given).1 = .ok i ∧
      (encodePooled (poolAfter failing) (.text "") (Tags.given .empty)).1 = .ok j ∧ i ≠ j := by
  intro pair tags others failing
  have stem : ∀ s, Plain s → checkName "prefix" true (.text s) = .ok s :=
    fun s plain => checkName_eq_ok.mpr ⟨rfl, plain, fun _ => rfl⟩
  have accept : ∀ found : Tags, PlainTags found → checkTags found.given = .ok found :=
    fun found plain => checkTags_eq_ok.mpr ⟨rfl, plain⟩
  constructor
  · obtain ⟨i, j, first, second, same⟩ := identity_eq_iff (stem "p" (by decide)) (stem "p" (by decide))
      (accept tags (by decide)) (accept others (by decide)) (Tags.nodup_keys_given.mpr (by decide))
      (Tags.nodup_keys_given.mpr (by decide)) [] failing
    have agree : i = j := same.mpr ⟨rfl, Tags.given_agrees_iff.mpr (by decide)⟩
    exact ⟨i, first, agree ▸ second⟩
  · obtain ⟨i, j, first, second, same⟩ := identity_eq_iff (stem "" (by decide)) (stem "" (by decide))
      (accept pair (by decide)) (accept .empty (by decide)) (Tags.nodup_keys_given.mpr (by decide))
      (Tags.nodup_keys_given.mpr (by decide)) [] failing
    refine ⟨i, j, first, second, fun agree => ?_⟩
    exact absurd (Tags.given_agrees_iff.mp (same.mp agree).2) (by decide)

end MetricTree.Identity
