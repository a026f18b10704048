import MetricTree.Table

namespace MetricTree

/-- One value for each key, in the order in which the keys were first stored. A key may be stored
without a value; it is then known, but the next value offered for it is taken. -/
structure Registry (κ α : Type) where
  slots : Table κ (Option α)

namespace Registry

variable {κ α : Type}

def empty : Registry κ α := ⟨.empty⟩

instance : Inhabited (Registry κ α) := ⟨empty⟩

def size (r : Registry κ α) : Nat := r.slots.size

def values (r : Registry κ α) : List (Option α) := r.slots.values

variable [BEq κ]

def get? (r : Registry κ α) (k : κ) : Option α := (r.slots.get? k).join

def contains (r : Registry κ α) (k : κ) : Bool := r.slots.contains k

/-- Stores what was made for a key, unless the key has a value by now; the value that stands is the answer. -/
def settle (r : Registry κ α) (k : κ) (made : Option α) : Option α × Registry κ α :=
  match r.get? k with
  | some standing => (some standing, r)
  | none => (made, ⟨r.slots.insert k made⟩)

end Registry

end MetricTree
