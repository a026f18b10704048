import MetricTree.Identity.Part
import MetricTree.Proofs.TableMaps
import MetricTree.Proofs.TreeCells

namespace MetricTree

/-- Tags as callers pass them. -/
def Tags.given (tags : Tags) : Table Value Value :=
  ⟨tags.entries.map fun pair => (.text pair.1, .text pair.2)⟩

namespace Identity

/-- A text without the characters that identities are built with. -/
def Plain (s : Text) : Prop := ∀ c ∈ s.toList, isReserved c = false

-- Only the characters of the text are asked, not all that there are.
instance (s : Text) : Decidable (Plain s) := List.decidableBAll (fun c => isReserved c = false) s.toList

/-- Keys and values that can all be embedded in an identity. -/
def PlainPairs (pairs : List (Text × Text)) : Prop := ∀ pair ∈ pairs, Plain pair.1 ∧ Plain pair.2

def PlainTags (tags : Tags) : Prop := PlainPairs tags.entries

instance (pairs : List (Text × Text)) : Decidable (PlainPairs pairs) :=
  inferInstanceAs (Decidable (∀ pair ∈ pairs, Plain pair.1 ∧ Plain pair.2))

instance (tags : Tags) : Decidable (PlainTags tags) := inferInstanceAs (Decidable (PlainPairs tags.entries))

theorem Plain.append {s t : Text} (first : Plain s) (second : Plain t) : Plain (s ++ t) := by
  intro c member
  rw [Text.toList_append, List.mem_append] at member
  exact member.elim (first c) (second c)

theorem Plain.not_mem {s : Text} {c : Letter} (plain : Plain s) (reserved : isReserved c = true) : c ∉ s.toList :=
  fun member => Bool.noConfusion (reserved.symm.trans (plain c member))

theorem checkPart_text_of_plain {part : String} {s : Text} (plain : Plain s) : checkPart part (.text s) = .ok s := by
  have absent : s.toList.find? isReserved = none :=
    List.find?_eq_none.mpr fun c member => (plain c member) ▸ Bool.false_ne_true
  simp only [checkPart, absent]
  rfl

theorem checkPart_eq_ok {part : String} {s : Text} {v : Value} : checkPart part v = .ok s ↔ v = .text s ∧ Plain s := by
  constructor
  · intro run
    cases v with
    | text t =>
      simp only [checkPart] at run
      cases found : t.toList.find? isReserved with
      | some c =>
        rw [found] at run
        cases run
      | none =>
        rw [found] at run
        cases run
        exact ⟨rfl, fun c member => Bool.not_eq_true _ ▸ List.find?_eq_none.mp found c member⟩
    | _ => cases run
  · rintro ⟨rfl, plain⟩
    exact checkPart_text_of_plain plain

theorem checkName_eq_ok {part : String} {s : Text} {allowEmpty : Bool} {v : Value} :
    checkName part allowEmpty v = .ok s ↔ v = .text s ∧ Plain s ∧ (s = "" → allowEmpty = true) := by
  unfold checkName
  rw [bind_eq_ok]
  constructor
  · rintro ⟨t, accepted, run⟩
    obtain ⟨rfl, plain⟩ := checkPart_eq_ok.mp accepted
    split at run
    · cases run
    · next filled =>
      cases run
      refine ⟨rfl, plain, ?_⟩
      rintro rfl
      simpa [Text.isEmpty_iff] using filled
  · rintro ⟨rfl, plain, filled⟩
    refine ⟨s, checkPart_eq_ok.mpr ⟨rfl, plain⟩, ?_⟩
    rw [if_neg]
    · rfl
    · rw [Bool.and_eq_true, not_and, Text.isEmpty_iff]
      intro empty
      simp [filled empty]

theorem checkTagEntries_eq_ok {entries : List (Value × Value)} {pairs : List (Text × Text)} :
    checkTagEntries entries = .ok pairs ↔
      entries = pairs.map (fun pair => (.text pair.1, .text pair.2)) ∧ PlainPairs pairs := by
  induction entries generalizing pairs with
  | nil =>
    constructor
    · intro run
      cases run
      exact ⟨rfl, fun _ member => by cases member⟩
    · rintro ⟨same, _⟩
      rw [List.map_eq_nil_iff.mp same.symm]
      rfl
  | cons entry rest ih =>
    simp only [checkTagEntries, bind_eq_ok]
    constructor
    · rintro ⟨k, keyAccepted, v, valueAccepted, others, run, same⟩
      cases same
      obtain ⟨key, plainKey⟩ := checkPart_eq_ok.mp keyAccepted
      obtain ⟨value, plainValue⟩ := checkPart_eq_ok.mp valueAccepted
      obtain ⟨rfl, plain⟩ := ih.mp run
      refine ⟨?_, List.forall_mem_cons.mpr ⟨⟨plainKey, plainValue⟩, plain⟩⟩
      rw [List.map_cons, ← key, ← value]
    · rintro ⟨same, plain⟩
      obtain ⟨pair, others, rfl, rfl, rfl⟩ := List.map_eq_cons_iff.mp same.symm
      obtain ⟨⟨key, value⟩, plain⟩ := List.forall_mem_cons.mp plain
      exact ⟨_, checkPart_text_of_plain key, _, checkPart_text_of_plain value, others, ih.mpr ⟨rfl, plain⟩, rfl⟩

/-- Tags are accepted just if they are texts throughout, without reserved characters, and stay as they are. -/
theorem checkTags_eq_ok {tags : Table Value Value} {found : Tags} :
    checkTags tags = .ok found ↔ tags = found.given ∧ PlainTags found := by
  obtain ⟨entries⟩ := tags
  obtain ⟨pairs⟩ := found
  unfold checkTags
  rw [bind_eq_ok]
  constructor
  · rintro ⟨others, run, same⟩
    cases same
    obtain ⟨rfl, plain⟩ := checkTagEntries_eq_ok.mp run
    exact ⟨rfl, plain⟩
  · rintro ⟨same, plain⟩
    cases same
    exact ⟨pairs, checkTagEntries_eq_ok.mpr ⟨rfl, plain⟩, rfl⟩

end Identity

namespace Tags

open Identity

variable {tags others : Tags}

theorem keys_given (tags : Tags) : tags.given.keys = tags.keys.map .text := by
  simp only [given, Table.keys, List.map_map]
  rfl

theorem nodup_keys_given : tags.given.keys.Nodup ↔ tags.keys.Nodup := by
  rw [keys_given]
  exact List.nodup_map_iff fun _ _ same => Value.text.inj same

theorem get?_given (tags : Tags) (v : Value) :
    tags.given.get? v = (v.textKey?.bind tags.get?).map .text := by
  obtain ⟨pairs⟩ := tags
  have same : ((fun entry : Value × Value => entry.1 == v) ∘ fun pair : Text × Text =>
      (Value.text pair.1, Value.text pair.2)) = fun pair => v.textKey?.any (pair.1 == ·) := rfl
  simp only [given, Table.get?, List.find?_map, Option.map_map, same]
  cases v.textKey? with
  | none =>
    have nothing : pairs.find? (fun pair => (none : Option Text).any (pair.1 == ·)) = none :=
      List.find?_eq_none.mpr fun _ _ => Bool.false_ne_true
    rw [nothing]
    rfl
  | some s =>
    simp only [Option.bind_some, Table.get?, Option.map_map]
    rfl

/-- Tags agree as callers pass them just if they agree as texts. -/
theorem given_agrees_iff : tags.given.Agrees others.given ↔ tags.Agrees others := by
  constructor
  · intro same k
    have here := same (.text k)
    simp only [get?_given, Value.textKey?, Option.bind_some] at here
    exact Option.map_injective (fun _ _ => Value.text.inj) here
  · intro same v
    rw [get?_given, get?_given, funext same]

theorem given_insert (tags : Tags) (k v : Text) :
    tags.given.insert (.text k) (.text v) = given (tags.insert k v) := by
  obtain ⟨pairs⟩ := tags
  simp only [given, Table.insert, Table.mk.injEq]
  induction pairs with
  | nil => rfl
  | cons pair rest ih =>
    have same : (Value.text pair.1 == Value.text k) = (pair.1 == k) := rfl
    simp only [List.map_cons, Table.insertEntry, same]
    split
    · rfl
    · rw [List.map_cons, ih]

theorem given_overlay (tags others : Tags) : tags.given.overlay others.given = given (tags.overlay others) := by
  obtain ⟨pairs⟩ := others
  induction pairs generalizing tags with
  | nil => rfl
  | cons pair rest ih =>
    have first := given_insert tags pair.1 pair.2
    simp only [Table.overlay, given, List.map_cons, List.foldl_cons] at ih first ⊢
    rw [first]
    exact ih _

end Tags

end MetricTree
