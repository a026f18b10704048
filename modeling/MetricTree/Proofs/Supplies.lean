import MetricTree.Identity.Pool

namespace MetricTree

namespace Pool

variable {α : Type}

theorem size_take (p : Pool α) : p.take.2.size = p.size - 1 := by
  obtain ⟨capacity, _ | _⟩ := p <;> rfl

theorem capacity_take (p : Pool α) : p.take.2.capacity = p.capacity := by
  obtain ⟨capacity, _ | _⟩ := p <;> rfl

theorem capacity_put (p : Pool α) (object : α) : (p.put object).capacity = p.capacity := by
  unfold put
  split <;> rfl

theorem size_put {p : Pool α} (room : p.size < p.capacity) (object : α) : (p.put object).size = p.size + 1 := by
  have spare : p.isFull = false := by
    rw [isFull, Bool.and_eq_false_iff, decide_eq_false_iff_not, decide_eq_false_iff_not, Int.not_le]
    exact .inr room
  rw [put, spare]
  exact List.length_append

/-- A pool that gives an object and takes one back has as many as before, but never none. -/
theorem size_put_take {p : Pool α} (limited : 0 < p.capacity) (bounded : p.size ≤ p.capacity) (object : α) :
    (p.take.2.put object).size = max p.size 1 := by
  have room : (p.take.2.size : Int) < p.take.2.capacity := by
    rw [size_take, capacity_take]
    omega
  rw [size_put room, size_take]
  omega

end Pool

namespace Supply

variable {α : Type} {make : Nat → α} {s : Supply α} {capacity : Int}

/-- What can be done with a supply. -/
inductive Use (α : Type) where
  | get
  | put (object : α)

def use (make : Nat → α) (s : Supply α) : Use α → Supply α
  | .get => (s.get make).2
  | .put object => s.put object

/-- The supply after several uses. -/
def after (make : Nat → α) (s : Supply α) (uses : List (Use α)) : Supply α := uses.foldl (use make) s

/-- A use of a supply, with what it found and what it left. -/
structure Step (α : Type) where
  use : Use α
  before : Supply α
  after : Supply α

def history (make : Nat → α) : Supply α → List (Use α) → List (Step α)
  | _, [] => []
  | s, u :: rest => ⟨u, s, s.use make u⟩ :: history make (s.use make u) rest

namespace Step

/-- The object that was taken from the pool: the one that was given without being made. -/
def taken (make : Nat → α) (i : Step α) : List α :=
  match i.use with
  | .get => if i.after.made = i.before.made then [(i.before.get make).1] else []
  | .put _ => []

/-- The object that was put aside and not dropped: the one that made the pool larger. -/
def accepted (i : Step α) : List α :=
  match i.use with
  | .get => []
  | .put object => if i.after.pool.size = i.before.pool.size then [] else [object]

/-- Was an object asked for while the pool was empty? -/
def isShort (i : Step α) : Bool :=
  match i.use with
  | .get => i.before.pool.size == 0
  | .put _ => false

end Step

/-- Makes objects and puts them aside, one after the other. -/
def fill (make : Nat → α) : Nat → Supply α → Supply α
  | 0, s => s
  | n + 1, s => fill make n { s.put (make s.made) with made := s.made + 1 }

theorem get_nil (empty : s.pool.idle = []) : s.get make = (make s.made, { s with made := s.made + 1 }) := by
  obtain ⟨⟨capacity, idle⟩, made⟩ := s
  cases empty
  rfl

theorem get_cons {object : α} {rest : List α} (front : s.pool.idle = object :: rest) :
    s.get make = (object, { s with pool := { s.pool with idle := rest } }) := by
  obtain ⟨⟨capacity, idle⟩, made⟩ := s
  cases front
  rfl

theorem put_full (full : s.pool.isFull = true) (object : α) : s.put object = s := by
  rw [put, Pool.put, if_pos full]

theorem put_spare (spare : s.pool.isFull = false) (object : α) :
    s.put object = { s with pool := { s.pool with idle := s.pool.idle ++ [object] } } := by
  rw [put, Pool.put, spare]
  rfl

/-- The pool keeps to its capacity, if that is a limit. -/
structure Fits (capacity : Int) (s : Supply α) : Prop where
  limited : s.pool.capacity = capacity
  bounded : 0 < capacity → s.pool.size ≤ capacity

theorem Fits.isFull_iff (fits : s.Fits capacity) :
    s.pool.isFull = true ↔ 0 < capacity ∧ (s.pool.size : Int) = capacity := by
  obtain ⟨rfl, bounded⟩ := fits
  rw [Pool.isFull, Bool.and_eq_true, decide_eq_true_iff, decide_eq_true_iff]
  refine and_congr_right fun limited => ⟨fun full => ?_, fun full => Int.le_of_eq full.symm⟩
  exact Int.le_antisymm (bounded limited) full

theorem Fits.use (fits : s.Fits capacity) (u : Use α) : (s.use make u).Fits capacity := by
  obtain ⟨limited, bounded⟩ := fits
  cases u with
  | get =>
    cases front : s.pool.idle with
    | nil =>
      rw [Supply.use, get_nil front]
      exact ⟨limited, bounded⟩
    | cons object rest =>
      rw [Supply.use, get_cons front]
      refine ⟨limited, fun positive => ?_⟩
      have held := bounded positive
      rw [Pool.size, front, List.length_cons] at held
      dsimp only [Pool.size]
      omega
  | put object =>
    cases full : s.pool.isFull with
    | true =>
      rw [Supply.use, put_full full]
      exact ⟨limited, bounded⟩
    | false =>
      rw [Supply.use, put_spare full]
      refine ⟨limited, fun positive => ?_⟩
      rw [Pool.isFull, Bool.and_eq_false_iff, decide_eq_false_iff_not, decide_eq_false_iff_not] at full
      simp only [Pool.size, List.length_append, List.length_singleton]
      omega

/-- What was taken and what is left is what there was and what was accepted. -/
theorem taken_append (make : Nat → α) (s : Supply α) (u : Use α) :
    Step.taken make ⟨u, s, s.use make u⟩ ++ (s.use make u).pool.idle =
      s.pool.idle ++ Step.accepted ⟨u, s, s.use make u⟩ := by
  cases u with
  | get =>
    cases front : s.pool.idle with
    | nil => simp [Step.taken, Step.accepted, Supply.use, get_nil front, front]
    | cons object rest => simp [Step.taken, Step.accepted, Supply.use, get_cons front]
  | put object =>
    cases full : s.pool.isFull with
    | true => simp [Step.taken, Step.accepted, Supply.use, put_full full]
    | false => simp [Step.taken, Step.accepted, Supply.use, put_spare full, Pool.size]

theorem flatMap_taken_append (make : Nat → α) (s : Supply α) (uses : List (Use α)) :
    (history make s uses).flatMap (Step.taken make) ++ (s.after make uses).pool.idle =
      s.pool.idle ++ (history make s uses).flatMap Step.accepted := by
  induction uses generalizing s with
  | nil => exact (List.append_nil _).symm
  | cons u rest ih =>
    have later : s.after make (u :: rest) = (s.use make u).after make rest := rfl
    rw [history, List.flatMap_cons, List.flatMap_cons, later, List.append_assoc, ih, ← List.append_assoc, taken_append,
      List.append_assoc]

theorem made_use (make : Nat → α) (s : Supply α) (u : Use α) :
    (s.use make u).made = s.made + if Step.isShort ⟨u, s, s.use make u⟩ then 1 else 0 := by
  cases u with
  | get =>
    cases front : s.pool.idle with
    | nil => simp [Step.isShort, Supply.use, get_nil front, Pool.size, front]
    | cons object rest => simp [Step.isShort, Supply.use, get_cons front, Pool.size, front]
  | put object => rfl

theorem made_after (make : Nat → α) (s : Supply α) (uses : List (Use α)) :
    (s.after make uses).made = s.made + (history make s uses).countP Step.isShort := by
  induction uses generalizing s with
  | nil => rfl
  | cons u rest ih =>
    have later : s.after make (u :: rest) = (s.use make u).after make rest := rfl
    rw [later, ih, made_use, history, List.countP_cons]
    omega

/-- Every use finds a pool that fits, and is one of these uses. -/
theorem of_mem_history {uses : List (Use α)} {i : Step α} (fits : s.Fits capacity)
    (member : i ∈ history make s uses) : i.before.Fits capacity ∧ i.after = i.before.use make i.use := by
  induction uses generalizing s with
  | nil => cases member
  | cons u rest ih =>
    rcases List.mem_cons.mp member with rfl | later
    · exact ⟨fits, rfl⟩
    · exact ih (fits.use u) later

/-- While there is room, whatever is made is put aside. -/
theorem fill_range (make : Nat → α) {n k : Nat} (room : k + n ≤ capacity.toNat) :
    fill make n ⟨⟨capacity, (List.range k).map make⟩, k⟩ = ⟨⟨capacity, (List.range (k + n)).map make⟩, k + n⟩ := by
  induction n generalizing k with
  | zero => rfl
  | succ n ih =>
    have spare : Pool.isFull ⟨capacity, (List.range k).map make⟩ = false := by
      simp only [Pool.isFull, List.length_map, List.length_range, Bool.and_eq_false_iff, decide_eq_false_iff_not]
      omega
    rw [fill, put_spare spare, ← List.map_singleton, ← List.map_append, ← List.range_succ, ih (by omega),
      Nat.succ_add_eq_add_succ]

/-- What a supply starts with has been put aside object by object, and none of them was dropped. -/
theorem start_eq_fill (make : Nat → α) (capacity : Int) (filled : Bool) :
    start make capacity filled = fill make (if filled then capacity.toNat else 0) ⟨⟨capacity, []⟩, 0⟩ := by
  have room : 0 + (if filled then capacity.toNat else 0) ≤ capacity.toNat := by
    cases filled <;> simp
  have full := fill_range make room
  rw [Nat.zero_add] at full
  exact full.symm

theorem fits_start (make : Nat → α) (capacity : Int) (filled : Bool) : (start make capacity filled).Fits capacity := by
  refine ⟨rfl, fun positive => ?_⟩
  cases filled <;> simp [start, Pool.size] <;> omega

/-- Whatever is done with a supply, be its capacity a limit or none: the objects that were taken from the pool, and after
them those that are left there, are the ones that it started with and then the ones that it accepted, in their order. It
drops an object just if it is limited and holds as many as it may, and takes it in behind the others else. A new object
is made just if the pool is empty when one is asked for. -/
theorem first_in_first_out (make : Nat → α) (capacity : Int) (filled : Bool) (uses : List (Use α)) :
    let count := if filled then capacity.toNat else 0
    let first := start make capacity filled
    let h := history make first uses
    let last := first.after make uses
    first = fill make count ⟨⟨capacity, []⟩, 0⟩ ∧ first.pool.idle = (List.range count).map make ∧
    h.flatMap (Step.taken make) ++ last.pool.idle = first.pool.idle ++ h.flatMap Step.accepted ∧
    last.made = count + h.countP Step.isShort ∧
    ∀ i ∈ h, (0 < capacity → i.before.pool.size ≤ capacity ∧ i.after.pool.size ≤ capacity) ∧
      (i.use = .get →
        (i.before.pool.idle = [] → i.after = { i.before with made := i.before.made + 1 } ∧
          (i.before.get make).1 = make i.before.made) ∧
        ∀ object rest, i.before.pool.idle = object :: rest → (i.before.get make).1 = object ∧
          i.after = { i.before with pool := { i.before.pool with idle := rest } }) ∧
      ∀ object, i.use = .put object →
        (0 < capacity ∧ i.before.pool.size = capacity → i.after = i.before) ∧
        (¬(0 < capacity ∧ i.before.pool.size = capacity) →
          i.after = { i.before with pool := { i.before.pool with idle := i.before.pool.idle ++ [object] } }) := by
  intro count first h last
  refine ⟨start_eq_fill make capacity filled, rfl, flatMap_taken_append make first uses, made_after make first uses, ?_⟩
  intro i member
  obtain ⟨fits, left⟩ := of_mem_history (fits_start make capacity filled) member
  refine ⟨fun limited => ⟨fits.bounded limited, left ▸ (fits.use i.use).bounded limited⟩, fun asked => ⟨fun empty => ?_,
    fun object rest front => ?_⟩, fun object given => ⟨fun full => ?_, fun spare => ?_⟩⟩
  · rw [left, asked, Supply.use, get_nil empty]
    exact ⟨rfl, rfl⟩
  · rw [left, asked, Supply.use, get_cons front]
    exact ⟨rfl, rfl⟩
  · rw [left, given, Supply.use, put_full (fits.isFull_iff.mpr full)]
  · rw [left, given, Supply.use, put_spare (Bool.eq_false_iff.mpr (mt fits.isFull_iff.mp spare))]

/-- A pool of one object is emptied, gives a new one, and has room for one of the two that come back. -/
example :
    let uses : List (Use Nat) := [.get, .get, .put 0, .put 1, .get]
    let h := history id (start id 1 true) uses
    h.flatMap (Step.taken id) = [0, 0] ∧ h.flatMap Step.accepted = [0] ∧
      ((start id 1 true).after id uses).made = 2 := by decide

end Supply

end MetricTree
