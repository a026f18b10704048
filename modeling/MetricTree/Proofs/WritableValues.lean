import MetricTree.Json.Image
import MetricTree.Value.Literal
import MetricTree.Proofs.TreeCells

namespace MetricTree.Value

/-- The values that one holds at any depth, itself among them. -/
inductive Inside (part : Value) : Value → Prop where
  | here : Inside part part
  | list {items : List Value} {v : Value} (member : v ∈ items) (inside : Inside part v) : Inside part (.list items)
  | tuple {items : List Value} {v : Value} (member : v ∈ items) (inside : Inside part v) : Inside part (.tuple items)
  | dict {entries : List (Value × Value)} {entry : Value × Value} (member : entry ∈ entries)
      (inside : Inside part entry.2) : Inside part (.dict entries)

/-- Can the value stand for the name of a member? -/
def isKey : Value → Bool
  | .null | .bool _ | .float _ | .text _ => true
  | .int n => n.natAbs < Text.leastTooLong
  | _ => false

/-- What JSON cannot write, whatever it holds: an integer that is too long, bytes, a set, an object of another type, and
a dictionary with a key that names no member. -/
def resists : Value → Bool
  | .int n => Text.leastTooLong ≤ n.natAbs
  | .bytes _ | .set _ | .object _ => true
  | .dict entries => entries.any fun entry => !entry.1.isKey
  | _ => false

/-- Something that JSON cannot write is inside. -/
def Unwritable (v : Value) : Prop := ∃ part, Inside part v ∧ part.resists = true

theorem exists_return {α β : Type} {f : α → β} {x : Except Fault α} :
    (∃ b, (do return f (← x)) = Except.ok b) ↔ ∃ a, x = .ok a := by
  cases x with
  | ok a => exact iff_of_true ⟨f a, rfl⟩ ⟨a, rfl⟩
  | error => exact iff_of_false nofun nofun

theorem exists_memberName {v : Value} : (∃ name, v.memberName = .ok name) ↔ v.isKey = true := by
  cases v with
  | int n => rw [memberName, exists_return, ShortInt.exists_ofInt, isKey, decide_eq_true_iff]
  | null | bool | float | text => exact iff_of_true ⟨_, rfl⟩ rfl
  | bytes | list | tuple | set | dict | object => exact iff_of_false nofun nofun

theorem exists_imageItems {items : List Value} :
    (∃ js, imageItems items = .ok js) ↔ ∀ v ∈ items, ∃ j, v.image = .ok j := by
  induction items with
  | nil => exact iff_of_true ⟨[], rfl⟩ nofun
  | cons item rest ih =>
    rw [List.forall_mem_cons, ← ih, imageItems]
    constructor
    · rintro ⟨js, found⟩
      obtain ⟨first, image, found⟩ := bind_eq_ok.mp found
      obtain ⟨others, images, _⟩ := bind_eq_ok.mp found
      exact ⟨⟨first, image⟩, others, images⟩
    · rintro ⟨⟨first, image⟩, others, images⟩
      exact ⟨first :: others, bind_eq_ok.mpr ⟨first, image, bind_eq_ok.mpr ⟨others, images, rfl⟩⟩⟩

theorem exists_imageEntries {entries : List (Value × Value)} :
    (∃ js, imageEntries entries = .ok js) ↔ ∀ entry ∈ entries, entry.1.isKey = true ∧ ∃ j, entry.2.image = .ok j := by
  induction entries with
  | nil => exact iff_of_true ⟨[], rfl⟩ nofun
  | cons entry rest ih =>
    rw [List.forall_mem_cons, ← ih, ← exists_memberName, imageEntries]
    constructor
    · rintro ⟨js, found⟩
      obtain ⟨name, named, found⟩ := bind_eq_ok.mp found
      obtain ⟨first, image, found⟩ := bind_eq_ok.mp found
      obtain ⟨others, images, _⟩ := bind_eq_ok.mp found
      exact ⟨⟨⟨name, named⟩, first, image⟩, others, images⟩
    · rintro ⟨⟨⟨name, named⟩, first, image⟩, others, images⟩
      exact ⟨(name, first) :: others,
        bind_eq_ok.mpr ⟨name, named, bind_eq_ok.mpr ⟨first, image, bind_eq_ok.mpr ⟨others, images, rfl⟩⟩⟩⟩

theorem exists_literal_of_member {items : List Value} {parts : List Text} (written : literals items = .ok parts) :
    ∀ v ∈ items, ∃ s, v.literal = .ok s := by
  induction items generalizing parts with
  | nil => exact List.forall_mem_nil _
  | cons item rest ih =>
    obtain ⟨first, literal, others⟩ := bind_eq_ok.mp written
    obtain ⟨_, others, _⟩ := bind_eq_ok.mp others
    exact List.forall_mem_cons.mpr ⟨⟨first, literal⟩, ih others⟩

theorem exists_literal_of_entry {entries : List (Value × Value)} {parts : List Text}
    (written : literalEntries entries = .ok parts) : ∀ entry ∈ entries, ∃ s, entry.2.literal = .ok s := by
  induction entries generalizing parts with
  | nil => exact List.forall_mem_nil _
  | cons entry rest ih =>
    obtain ⟨_, _, others⟩ := bind_eq_ok.mp written
    obtain ⟨held, literal, others⟩ := bind_eq_ok.mp others
    obtain ⟨_, others, _⟩ := bind_eq_ok.mp others
    exact List.forall_mem_cons.mpr ⟨⟨held, literal⟩, ih others⟩

/-- Nothing is written out that has an integer inside which is too long. -/
theorem short_of_literal {v : Value} {n : Int} (inside : Inside (.int n) v) {s : Text} (written : v.literal = .ok s) :
    n.natAbs < Text.leastTooLong := by
  induction inside generalizing s with
  | here =>
    obtain ⟨short, made, _⟩ := bind_eq_ok.mp written
    exact ShortInt.exists_ofInt.mp ⟨short, made⟩
  | list member _ ih | tuple member _ ih =>
    obtain ⟨parts, literals, _⟩ := bind_eq_ok.mp written
    obtain ⟨_, literal⟩ := exists_literal_of_member literals _ member
    exact ih literal
  | dict member _ ih =>
    obtain ⟨parts, literals, _⟩ := bind_eq_ok.mp written
    obtain ⟨_, literal⟩ := exists_literal_of_entry literals _ member
    exact ih literal

theorem unwritable_list {items : List Value} : Unwritable (.list items) ↔ ∃ v ∈ items, Unwritable v := by
  constructor
  · rintro ⟨part, inside, resists⟩
    cases inside with
    | here => cases resists
    | list member inside => exact ⟨_, member, part, inside, resists⟩
  · rintro ⟨v, member, part, inside, resists⟩
    exact ⟨part, .list member inside, resists⟩

theorem unwritable_tuple {items : List Value} : Unwritable (.tuple items) ↔ ∃ v ∈ items, Unwritable v := by
  constructor
  · rintro ⟨part, inside, resists⟩
    cases inside with
    | here => cases resists
    | tuple member inside => exact ⟨_, member, part, inside, resists⟩
  · rintro ⟨v, member, part, inside, resists⟩
    exact ⟨part, .tuple member inside, resists⟩

theorem unwritable_dict {entries : List (Value × Value)} :
    Unwritable (.dict entries) ↔ ∃ entry ∈ entries, entry.1.isKey = false ∨ Unwritable entry.2 := by
  constructor
  · rintro ⟨part, inside, resists⟩
    cases inside with
    | here =>
      obtain ⟨entry, member, nameless⟩ := List.any_eq_true.mp resists
      exact ⟨entry, member, .inl (Bool.not_eq_eq_eq_not.mp nameless)⟩
    | dict member inside => exact ⟨_, member, .inr ⟨part, inside, resists⟩⟩
  · rintro ⟨entry, member, nameless | ⟨part, inside, resists⟩⟩
    · exact ⟨_, .here, List.any_eq_true.mpr ⟨entry, member, congrArg not nameless⟩⟩
    · exact ⟨part, .dict member inside, resists⟩

theorem unwritable_leaf {v : Value} (leaf : ∀ part, Inside part v → part = v) :
    Unwritable v ↔ v.resists = true := by
  constructor
  · rintro ⟨part, inside, resists⟩
    exact leaf part inside ▸ resists
  · exact fun resists => ⟨v, .here, resists⟩

/-- A value has an image unless something that JSON cannot write is inside it. -/
theorem exists_image (v : Value) : (∃ j, v.image = .ok j) ↔ ¬Unwritable v := by
  match v with
  | .null | .bool _ | .float _ | .text _ =>
    refine iff_of_true ⟨_, rfl⟩ ?_
    rintro ⟨part, inside, resists⟩
    cases inside
    cases resists
  | .int n =>
    have leaf : ∀ part, Inside part (.int n) → part = .int n := by
      rintro _ ⟨⟩
      rfl
    rw [unwritable_leaf leaf, image, exists_return, ShortInt.exists_ofInt, resists, decide_eq_true_iff, Nat.not_le]
  | .bytes _ | .set _ | .object _ => exact iff_of_false nofun (not_not_intro ⟨_, .here, rfl⟩)
  | .list items =>
    rw [unwritable_list, image, exists_return, exists_imageItems, not_exists]
    exact forall_congr' fun v => by
      rw [not_and]
      exact forall_congr' fun member => exists_image v
  | .tuple items =>
    rw [unwritable_tuple, image, exists_return, exists_imageItems, not_exists]
    exact forall_congr' fun v => by
      rw [not_and]
      exact forall_congr' fun member => exists_image v
  | .dict entries =>
    rw [unwritable_dict, image, exists_return, exists_imageEntries, not_exists]
    exact forall_congr' fun entry => by
      rw [not_and, not_or, Bool.not_eq_false]
      exact forall_congr' fun member => and_congr_right fun _ => exists_image entry.2
termination_by v
decreasing_by
  · have inside := List.sizeOf_lt_of_mem member
    simp only [list.sizeOf_spec]
    omega
  · have inside := List.sizeOf_lt_of_mem member
    simp only [tuple.sizeOf_spec]
    omega
  · have inside := List.sizeOf_lt_of_mem member
    cases entry
    simp only [dict.sizeOf_spec, Prod.mk.sizeOf_spec] at inside ⊢
    omega

/-- Nor has it an image. -/
theorem short_of_image {v : Value} {n : Int} (inside : Inside (.int n) v) {j : Json} (image : v.image = .ok j) :
    n.natAbs < Text.leastTooLong := by
  by_contra long
  exact (exists_image v).mp ⟨j, image⟩ ⟨_, inside, decide_eq_true (Nat.le_of_not_lt long)⟩

end MetricTree.Value
