namespace MetricTree

/-- A table whose keys keep the order in which they first arrived. -/
structure Table (κ α : Type) where
  entries : List (κ × α)

namespace Table

variable {κ α β : Type}

def empty : Table κ α := ⟨[]⟩

instance : Inhabited (Table κ α) := ⟨empty⟩

def keys (t : Table κ α) : List κ := t.entries.map (·.1)

def values (t : Table κ α) : List α := t.entries.map (·.2)

def size (t : Table κ α) : Nat := t.entries.length

def isEmpty (t : Table κ α) : Bool := t.entries.isEmpty

def map (f : α → β) (t : Table κ α) : Table κ β := ⟨t.entries.map fun entry => (entry.1, f entry.2)⟩

variable [BEq κ]

def get? (t : Table κ α) (k : κ) : Option α :=
  (t.entries.find? fun entry => entry.1 == k).map (·.2)

def contains (t : Table κ α) (k : κ) : Bool := t.entries.any fun entry => entry.1 == k

def insertEntry (k : κ) (v : α) : List (κ × α) → List (κ × α)
  | [] => [(k, v)]
  | entry :: rest => if entry.1 == k then (entry.1, v) :: rest else entry :: insertEntry k v rest

/-- A key that is present keeps its place and takes the new value. -/
def insert (t : Table κ α) (k : κ) (v : α) : Table κ α := ⟨insertEntry k v t.entries⟩

def erase (t : Table κ α) (k : κ) : Table κ α := ⟨t.entries.filter fun entry => !(entry.1 == k)⟩

/-- The table to which the entries were added one after the other. -/
def ofList (entries : List (κ × α)) : Table κ α :=
  entries.foldl (fun t entry => t.insert entry.1 entry.2) empty

/-- The left table with the right one's entries added. -/
def overlay (left right : Table κ α) : Table κ α :=
  right.entries.foldl (fun t entry => t.insert entry.1 entry.2) left

end Table

end MetricTree
