import Mathlib.Data.List.Nodup
import MetricTree.Table

namespace MetricTree.Table

variable {κ α : Type} [BEq κ] {t : Table κ α} {k : κ} {v : α}

theorem map_fst_insertEntry (entries : List (κ × α)) :
    (insertEntry k v entries).map (·.1) =
      if entries.any (fun entry => entry.1 == k) then entries.map (·.1) else entries.map (·.1) ++ [k] := by
  induction entries with
  | nil => rfl
  | cons entry rest ih =>
    by_cases here : (entry.1 == k) = true
    · simp only [insertEntry, here, if_true, List.map_cons, List.any_cons, Bool.true_or]
    · simp only [insertEntry, here, Bool.false_eq_true, if_false, List.map_cons, ih, List.any_cons,
        Bool.false_or]
      split <;> rfl

variable [LawfulBEq κ]

theorem contains_iff : t.contains k = true ↔ k ∈ t.keys := by
  simp only [contains, keys, List.any_eq_true, List.mem_map, beq_iff_eq]

theorem keys_insert_of_mem (member : k ∈ t.keys) : (t.insert k v).keys = t.keys := by
  have present := contains_iff.mpr member
  simp only [contains] at present
  simp only [keys, insert, map_fst_insertEntry, present, if_true]

theorem keys_insert_of_not_mem (fresh : k ∉ t.keys) : (t.insert k v).keys = t.keys ++ [k] := by
  have absent : t.contains k = false := by
    rw [← Bool.not_eq_true, contains_iff]
    exact fresh
  simp only [contains] at absent
  simp only [keys, insert, map_fst_insertEntry, absent, Bool.false_eq_true, if_false]

/-- A new key comes after all others. -/
theorem keys_prefix_insert : t.keys <+: (t.insert k v).keys := by
  by_cases member : k ∈ t.keys
  · exact (keys_insert_of_mem member).symm ▸ List.prefix_refl _
  · rw [keys_insert_of_not_mem member]
    exact List.prefix_append _ _

theorem nodup_keys_insert (distinct : t.keys.Nodup) : (t.insert k v).keys.Nodup := by
  by_cases member : k ∈ t.keys
  · rwa [keys_insert_of_mem member]
  · rw [keys_insert_of_not_mem member, List.nodup_append]
    refine ⟨distinct, List.nodup_singleton k, ?_⟩
    rintro old inside _ new rfl
    rw [List.mem_singleton] at new
    exact member (new ▸ inside)

theorem find?_insertEntry_self (entries : List (κ × α)) :
    ((insertEntry k v entries).find? fun entry => entry.1 == k).map (·.2) = some v := by
  induction entries with
  | nil => simp only [insertEntry, List.find?_cons, beq_self_eq_true, Option.map_some]
  | cons entry rest ih =>
    by_cases here : (entry.1 == k) = true
    · simp only [insertEntry, here, if_true, List.find?_cons, Option.map_some]
    · simp only [insertEntry, here, Bool.false_eq_true, if_false, List.find?_cons]
      exact ih

theorem find?_insertEntry_other {k' : κ} (other : k' ≠ k) (entries : List (κ × α)) :
    (insertEntry k v entries).find? (fun entry => entry.1 == k') =
      entries.find? (fun entry => entry.1 == k') := by
  induction entries with
  | nil => simp only [insertEntry, List.find?_cons, beq_false_of_ne other.symm, List.find?_nil]
  | cons entry rest ih =>
    by_cases here : (entry.1 == k) = true
    · have elsewhere : (entry.1 == k') = false := by
        rw [eq_of_beq here]
        exact beq_false_of_ne other.symm
      simp only [insertEntry, here, if_true, List.find?_cons, elsewhere]
    · simp only [insertEntry, here, Bool.false_eq_true, if_false, List.find?_cons, ih]

/-- An insertion is seen under its own key, and nowhere else. -/
theorem get?_insert [DecidableEq κ] (t : Table κ α) (k k' : κ) (v : α) :
    (t.insert k v).get? k' = if k' = k then some v else t.get? k' := by
  by_cases same : k' = k
  · rw [if_pos same, same]
    exact find?_insertEntry_self t.entries
  · rw [if_neg same]
    simp only [get?, insert, find?_insertEntry_other same]

theorem mem_entries_of_get? (found : t.get? k = some v) : (k, v) ∈ t.entries := by
  obtain ⟨entry, seen, rfl⟩ := Option.map_eq_some_iff.mp found
  have key : (entry.1 == k) = true := List.find?_some (p := fun e : κ × α => e.1 == k) seen
  cases eq_of_beq key
  exact List.mem_of_find?_eq_some seen

theorem mem_keys_of_get? (found : t.get? k = some v) : k ∈ t.keys :=
  List.mem_map_of_mem (mem_entries_of_get? found)

theorem exists_get?_of_mem_keys (member : k ∈ t.keys) : ∃ v, t.get? k = some v := by
  obtain ⟨entry, inside, rfl⟩ := List.mem_map.mp member
  have some : (t.entries.find? fun e => e.1 == entry.1).isSome := by
    rw [List.find?_isSome]
    exact ⟨entry, inside, beq_self_eq_true _⟩
  obtain ⟨found, seen⟩ := Option.isSome_iff_exists.mp some
  exact ⟨found.2, by simp only [get?, seen, Option.map_some]⟩

/-- With distinct keys, every entry is the one that is found. -/
theorem get?_of_mem_entries (distinct : t.keys.Nodup) (member : (k, v) ∈ t.entries) :
    t.get? k = some v := by
  obtain ⟨w, found⟩ := exists_get?_of_mem_keys (List.mem_map_of_mem (f := Prod.fst) member)
  have same := List.inj_on_of_nodup_map distinct member (mem_entries_of_get? found) rfl
  cases same
  exact found

end MetricTree.Table
