import Mathlib.Data.List.Induction
import MetricTree.Proofs.TableLookup

namespace MetricTree.Table

variable {κ α β : Type}

theorem keys_map (f : α → β) (t : Table κ α) : (t.map f).keys = t.keys := by
  simp only [keys, map, List.map_map]
  rfl

variable [BEq κ]

theorem get?_map (f : α → β) (t : Table κ α) (k : κ) : (t.map f).get? k = (t.get? k).map f := by
  simp only [get?, map, List.find?_map, Option.map_map]
  rfl

theorem map_insert (f : α → β) (t : Table κ α) (k : κ) (v : α) :
    (t.insert k v).map f = (t.map f).insert k (f v) := by
  obtain ⟨entries⟩ := t
  simp only [insert, map, mk.injEq]
  induction entries with
  | nil => rfl
  | cons entry rest ih =>
    simp only [insertEntry, List.map_cons]
    split
    · rfl
    · rw [List.map_cons, ih]

/-- The same values under the same keys, in whatever order the keys arrived. -/
def Agrees (s t : Table κ α) : Prop := ∀ k, s.get? k = t.get? k

theorem Agrees.refl (t : Table κ α) : t.Agrees t := fun _ => rfl

theorem Agrees.symm {s t : Table κ α} (same : s.Agrees t) : t.Agrees s := fun k => (same k).symm

theorem Agrees.trans {s t u : Table κ α} (first : s.Agrees t) (second : t.Agrees u) : s.Agrees u :=
  fun k => (first k).trans (second k)

variable [LawfulBEq κ] {s t : Table κ α} {k : κ} {v : α}

theorem get?_eq_none_iff : t.get? k = none ↔ k ∉ t.keys := by
  constructor
  · intro absent member
    obtain ⟨v, found⟩ := exists_get?_of_mem_keys member
    cases absent.symm.trans found
  · intro fresh
    by_contra present
    obtain ⟨v, found⟩ := Option.ne_none_iff_exists'.mp present
    exact fresh (mem_keys_of_get? found)

theorem get?_eq_some_iff (distinct : t.keys.Nodup) : t.get? k = some v ↔ (k, v) ∈ t.entries :=
  ⟨mem_entries_of_get?, get?_of_mem_entries distinct⟩

instance [DecidableEq α] : Decidable (s.Agrees t) :=
  decidable_of_iff (∀ k ∈ s.keys ++ t.keys, s.get? k = t.get? k) <| by
    refine ⟨fun same k => ?_, fun same k _ => same k⟩
    by_cases member : k ∈ s.keys ++ t.keys
    · exact same k member
    · rw [List.mem_append, not_or] at member
      rw [get?_eq_none_iff.mpr member.1, get?_eq_none_iff.mpr member.2]

/-- Two tables agree if and only if their entries are the same but for their order. -/
theorem agrees_iff_perm (distinct : s.keys.Nodup) (others : t.keys.Nodup) :
    s.Agrees t ↔ s.entries.Perm t.entries := by
  rw [List.perm_ext_iff_of_nodup distinct.of_map others.of_map]
  constructor
  · rintro same ⟨k, v⟩
    rw [← get?_eq_some_iff distinct, ← get?_eq_some_iff others, same]
  · intro same k
    refine Option.ext fun v => ?_
    rw [get?_eq_some_iff distinct, get?_eq_some_iff others, same]

theorem nodup_keys_overlay (right : Table κ α) (distinct : t.keys.Nodup) : (t.overlay right).keys.Nodup := by
  obtain ⟨entries⟩ := right
  simp only [overlay]
  induction entries generalizing t with
  | nil => exact distinct
  | cons entry rest ih => exact ih (nodup_keys_insert distinct)

theorem mem_entries_insert {e : κ × α} (member : e ∈ (t.insert k v).entries) : e = (k, v) ∨ e ∈ t.entries := by
  obtain ⟨entries⟩ := t
  simp only [insert] at member ⊢
  induction entries with
  | nil => exact .inl (List.mem_singleton.mp member)
  | cons entry rest ih =>
    unfold insertEntry at member
    split at member
    · next here =>
      rcases List.mem_cons.mp member with rfl | later
      · exact .inl (by rw [eq_of_beq here])
      · exact .inr (List.mem_cons_of_mem _ later)
    · rcases List.mem_cons.mp member with rfl | later
      · exact .inr (List.mem_cons_self ..)
      · exact (ih later).imp_right (List.mem_cons_of_mem _)

theorem mem_keys_insert {k' : κ} : k' ∈ (t.insert k v).keys ↔ k' = k ∨ k' ∈ t.keys := by
  by_cases member : k ∈ t.keys
  · rw [keys_insert_of_mem member]
    exact ⟨.inr, fun either => either.elim (fun same => same ▸ member) id⟩
  · rw [keys_insert_of_not_mem member, List.mem_append, List.mem_singleton, or_comm]

theorem mem_keys_overlay {right : Table κ α} : k ∈ (t.overlay right).keys ↔ k ∈ t.keys ∨ k ∈ right.keys := by
  obtain ⟨entries⟩ := right
  simp only [overlay]
  induction entries generalizing t with
  | nil => exact (or_iff_left List.not_mem_nil).symm
  | cons entry rest ih =>
    rw [List.foldl_cons, ih, mem_keys_insert, or_comm (b := k ∈ t.keys), or_assoc]
    exact or_congr_right List.mem_cons.symm

theorem mem_entries_overlay {e : κ × α} {right : Table κ α} (member : e ∈ (t.overlay right).entries) :
    e ∈ t.entries ∨ e ∈ right.entries := by
  obtain ⟨entries⟩ := right
  simp only [overlay] at member ⊢
  induction entries generalizing t with
  | nil => exact .inl member
  | cons entry rest ih =>
    rcases ih member with sooner | later
    · rcases mem_entries_insert sooner with rfl | old
      · exact .inr (List.mem_cons_self ..)
      · exact .inl old
    · exact .inr (List.mem_cons_of_mem _ later)

variable [DecidableEq κ]

theorem Agrees.overlay (same : s.Agrees t) (right : Table κ α) : (s.overlay right).Agrees (t.overlay right) := by
  obtain ⟨entries⟩ := right
  simp only [Table.overlay]
  induction entries generalizing s t with
  | nil => exact same
  | cons entry rest ih =>
    refine ih fun k => ?_
    rw [get?_insert, get?_insert, same]

/-- Of two tables laid one over the other, the upper one is asked first. -/
theorem get?_overlay (left : Table κ α) {right : Table κ α} (distinct : right.keys.Nodup) (k : κ) :
    (left.overlay right).get? k = (right.get? k).or (left.get? k) := by
  obtain ⟨entries⟩ := right
  induction entries generalizing left with
  | nil => rfl
  | cons entry rest ih =>
    have apart : entry.1 ∉ keys ⟨rest⟩ := (List.nodup_cons.mp distinct).1
    have later := ih (left.insert entry.1 entry.2) (List.nodup_cons.mp distinct).2
    simp only [Table.overlay, List.foldl_cons] at later ⊢
    rw [later, get?_insert]
    by_cases here : k = entry.1
    · subst here
      rw [get?_eq_none_iff.mpr apart, if_pos rfl]
      simp only [get?, List.find?_cons, beq_self_eq_true, Option.map_some, Option.none_or, Option.some_or]
    · rw [if_neg here]
      simp only [get?, List.find?_cons, beq_false_of_ne (Ne.symm here)]

/-- Of several entries under a key, the last one counts. -/
theorem get?_ofList (entries : List (κ × α)) (k : κ) :
    (ofList entries).get? k = (entries.filter fun e => e.1 == k).getLast?.map (·.2) := by
  induction entries using List.reverseRecOn with
  | nil => rfl
  | append_singleton sooner e ih =>
    have last : ofList (sooner ++ [e]) = (ofList sooner).insert e.1 e.2 := List.foldl_concat ..
    rw [last, get?_insert, ih, List.filter_append, List.filter_singleton]
    by_cases here : k = e.1
    · rw [if_pos here, beq_iff_eq.mpr here.symm, cond_true, List.getLast?_concat, Option.map_some]
    · rw [if_neg here, beq_false_of_ne (Ne.symm here), cond_false, List.append_nil]

/-- Laying two tables over a third one after the other is laying over it the one that they make together. -/
theorem overlay_overlay (base : Table κ α) (distinct : s.keys.Nodup) (others : t.keys.Nodup) :
    ((base.overlay s).overlay t).Agrees (base.overlay (s.overlay t)) := by
  intro k
  rw [get?_overlay _ others, get?_overlay _ distinct, get?_overlay _ (nodup_keys_overlay t distinct),
    get?_overlay _ others, Option.or_assoc]

/-- A table laid over another one changes nothing just if all its entries are there already. -/
theorem overlay_agrees_iff (base : Table κ α) (distinct : t.keys.Nodup) :
    (base.overlay t).Agrees base ↔ ∀ e ∈ t.entries, base.get? e.1 = some e.2 := by
  constructor
  · rintro same ⟨k, v⟩ member
    rw [← same, get?_overlay _ distinct, get?_of_mem_entries distinct member, Option.some_or]
  · intro there k
    rw [get?_overlay _ distinct]
    cases found : t.get? k with
    | none => rw [Option.none_or]
    | some v => rw [Option.some_or, there _ (mem_entries_of_get? found)]

end MetricTree.Table
