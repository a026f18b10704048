import MetricTree.Identity.Encoding
import MetricTree.Work

namespace MetricTree

/-- Objects put aside for reuse, the one put aside first in front. A capacity of zero or less is no limit. -/
structure Pool (α : Type) where
  capacity : Int
  idle : List α

namespace Pool

variable {α : Type}

def size (p : Pool α) : Nat := p.idle.length

def isFull (p : Pool α) : Bool := 0 < p.capacity && p.capacity ≤ p.idle.length

/-- The object at the front, if there is one, and the pool without it. -/
def take (p : Pool α) : Option α × Pool α :=
  match p.idle with
  | [] => (none, p)
  | object :: rest => (some object, { p with idle := rest })

/-- A full pool drops the object. -/
def put (p : Pool α) (object : α) : Pool α :=
  if p.isFull then p else { p with idle := p.idle ++ [object] }

end Pool

/-- Objects that are made on demand and reused: those that are put aside, and how many were made. -/
structure Supply (α : Type) where
  pool : Pool α
  made : Nat

namespace Supply

variable {α : Type} (make : Nat → α)

/-- A supply that starts with as many objects as its pool holds, or with none. After `n` objects
the one that is made is `make n`. -/
def start (capacity : Int) (filled : Bool) : Supply α :=
  let count := if filled then capacity.toNat else 0
  ⟨⟨capacity, (List.range count).map make⟩, count⟩

/-- An object from the pool, or a new one if the pool is empty. -/
def get (s : Supply α) : α × Supply α :=
  match s.pool.take with
  | (some object, pool) => (object, { s with pool := pool })
  | (none, pool) => (make s.made, ⟨pool, s.made + 1⟩)

def put (s : Supply α) (object : α) : Supply α := { s with pool := s.pool.put object }

end Supply

/-- A supply of objects that are numbered in the order in which they are made. -/
abbrev Stock := Supply Nat

namespace Stock

def start (capacity : Int) (filled : Bool) : Stock := Supply.start id capacity filled

def get (s : Stock) : Nat × Stock := Supply.get id s

/-- Makes objects until there is one of this number, and puts that one aside. -/
def put (s : Stock) (object : Nat) : Stock := Supply.put { s with made := max s.made (object + 1) } object

end Stock

namespace Identity

/-- Scratch space for the pieces of an identity. -/
abbrev Buffer := List Value

/-- The pool that encoders start with. -/
def buffers : Pool Buffer := ⟨512, []⟩

/-- Work on a buffer. -/
abbrev Scratch := Work Buffer

def write (piece : Value) : Scratch Unit := modify (· ++ [piece])

/-- Writes pairs by their keys, with the pair separator before each of them but the first. -/
def writePairs (tags : Table Value Value) : Bool → List Value → Scratch Unit
  | _, [] => pure ()
  | first, key :: rest => do
    unless first do write (.text ",")
    write key
    write (.text "=")
    write ((tags.get? key).getD .null)
    writePairs tags false rest

/-- Writes the pieces of an identity one after the other. The keys are sorted when the stem is written already. -/
def writePieces (stem : Value) (tags : Table Value Value) : Scratch Unit := do
  if stem.isTruthy then
    write stem
    write (.text "+")
  writePairs tags true (← ofExcept (sortKeys tags.keys))

def writeIdentity (stem : Value) (tags : Table Value Value) : Scratch Text := do
  writePieces stem tags
  ofExcept (joinFrom 0 (← get))

/-- The buffer is cleared however the writing ends. -/
def writeAndClear (stem : Value) (tags : Table Value Value) : Scratch Text :=
  try writeIdentity stem tags finally set ([] : Buffer)

/-- Encodes piece by piece on a buffer from the pool, and puts back what the writing has left. -/
def encodePooled (pool : Pool Buffer) (stem : Value) (tags : Table Value Value) :
    Except Fault Text × Pool Buffer :=
  let (taken, rest) := pool.take
  match (writeAndClear stem tags).run (taken.getD []) with
  | .ok identity left => (.ok identity, rest.put left)
  | .error fault left => (.error fault, rest.put left)

end Identity

end MetricTree
