namespace MetricTree

/-- The rank of infinity among the magnitudes of binary64 numbers, counted from zero upwards. -/
def infinityRank : Nat := 2047 * Nat.pow 2 52

/-- A magnitude, given by its place in increasing order: zero first, infinity last. -/
abbrev Magnitude := Fin (infinityRank + 1)

namespace Magnitude

def zero : Magnitude := ⟨0, Nat.succ_pos _⟩

def infinity : Magnitude := Fin.last infinityRank

/-- The magnitude of rank `n`; every rank beyond the largest finite one is infinity. -/
def ofRank (n : Nat) : Magnitude :=
  if h : n < infinityRank then ⟨n, Nat.lt_succ_of_lt h⟩ else infinity

/-- How many binades of doubling lie between the least unit and the unit of this magnitude. -/
def shift (m : Magnitude) : Nat := m.val / Nat.pow 2 52 - 1

def significand (m : Magnitude) : Nat :=
  if m.val < Nat.pow 2 52 then m.val else m.val % Nat.pow 2 52 + Nat.pow 2 52

/-- The value of a finite magnitude as a count of least units, each `1 / 2 ^ 1074`. -/
def units (m : Magnitude) : Nat := m.significand * Nat.pow 2 m.shift

end Magnitude

/-- How many least units make one. -/
def unitsPerOne : Nat := Nat.pow 2 1074

/-- The power with a variable for its exponent, which nothing can evaluate. -/
theorem unitsPerOne_eq {places : Nat} (exponent : 1074 = places) : unitsPerOne = Nat.pow 2 places := by
  unfold unitsPerOne
  rw [exponent]

/-- A binary64 number. There is one value that is not a number, and two zeros. -/
inductive Binary64 where
  | nan
  | signed (negative : Bool) (magnitude : Magnitude)
  deriving DecidableEq

namespace Binary64

def zero : Binary64 := .signed false .zero

instance : Inhabited Binary64 := ⟨zero⟩

/-- The number with these 64 bits: a sign, then the rank of the magnitude. -/
def ofBits (bits : UInt64) : Binary64 :=
  let n := bits.toNat
  let rank := n % Nat.pow 2 63
  if infinityRank < rank then .nan else .signed (Nat.pow 2 63 ≤ n) (.ofRank rank)

def toBits : Binary64 → UInt64
  | .nan => 0x7ff8000000000000
  | .signed negative m => UInt64.ofNat ((if negative then Nat.pow 2 63 else 0) + m.val)

def isNaN : Binary64 → Bool
  | .nan => true
  | .signed .. => false

def isFinite : Binary64 → Bool
  | .nan => false
  | .signed _ m => m != .infinity

/-- Both zeros are zero. -/
def isZero : Binary64 → Bool
  | .nan => false
  | .signed _ m => m == .zero

def neg : Binary64 → Binary64
  | .nan => .nan
  | .signed negative m => .signed (!negative) m

/-- The place of a number on the line: numbers compare as these integers do, and the zeros share one. -/
def place? : Binary64 → Option Int
  | .nan => none
  | .signed negative m => some (if negative then -m.val else m.val)

/-- Numeric equality, under which no NaN equals anything and the zeros are equal. -/
def equals (x y : Binary64) : Bool :=
  match x.place?, y.place? with
  | some a, some b => a == b
  | _, _ => false

def less (x y : Binary64) : Bool :=
  match x.place?, y.place? with
  | some a, some b => a < b
  | _, _ => false

def atMost (x y : Binary64) : Bool := x.less y || x.equals y

/-- The exact value in least units; `none` for NaN and the infinities. -/
def units? : Binary64 → Option Int
  | .nan => none
  | .signed negative m =>
    if m = .infinity then none else some (if negative then -m.units else m.units)

/-- The integer that this number is, if it is one. -/
def integer? (x : Binary64) : Option Int :=
  x.units?.bind fun u => if u % unitsPerOne = 0 then some (u / unitsPerOne) else none

end Binary64

end MetricTree
