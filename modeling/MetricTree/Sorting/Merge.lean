import MetricTree.Sorting.Search

namespace MetricTree.Sorting

variable {ε α : Type}

/-- How a merge goes on: value by value, so many of which came from the same side in a row, or in leaps. -/
inductive Pace where
  | steps (left right : Nat)
  | leaps

/-- A side that has won often enough in a row is followed in leaps. -/
def Pace.after (patience left right : Nat) : Pace :=
  if patience ≤ left ∨ patience ≤ right then .leaps else .steps left right

/-- How many values a leap has to pass for another one to be worth it. -/
def leastLeap : Nat := 7

def Pace.afterLeaps (left right : Nat) : Pace :=
  if leastLeap ≤ left ∨ leastLeap ≤ right then .leaps else .steps 0 0

/-- Leaps that go on make leaving steps for them easier, and leaps that end make it harder. -/
def Pace.patience (patience : Nat) : Pace → Nat
  | leaps => if 1 < patience then patience - 1 else patience
  | steps .. => patience + 1

/-- The rest of a merge if it is clear without comparisons: one side is used up, or what is left of
the first side is its largest value, which comes last. -/
def settled? : List α → List α → Option (List α)
  | xs, [] => some xs
  | [], ys => some ys
  | [x], ys => some (ys ++ [x])
  | _, _ => none

/-- Merges two sorted rows from their least values on. The patience is the one to go on with, unless
nothing is left to be compared and the last one stays. With the row comes the patience at the end. -/
def mergeUp (less : Comparison ε α) (last patience : Nat) (pace : Pace) (xs ys : List α) :
    Except ε (List α × Nat) :=
  match settled? xs ys with
  | some merged => pure (merged, last)
  | none =>
    match pace, xs, ys with
    | .steps left right, x :: xs, y :: ys => do
      if ← less y x then
        let (merged, final) ← mergeUp less patience patience (.after patience 0 (right + 1)) (x :: xs) ys
        return (y :: merged, final)
      else
        let (merged, final) ← mergeUp less patience patience (.after patience (left + 1) 0) xs (y :: ys)
        return (x :: merged, final)
    | .leaps, xs, y :: ys => do
      let passed ← placeAfter less y xs.toArray 0
      let start := xs.take passed
      match _rest : xs.drop passed with
      | [] => return (start ++ y :: ys, patience)
      | x :: rest =>
        if let some merged := settled? (x :: rest) (y :: ys) then return (start ++ merged, patience)
        if let some merged := settled? (x :: rest) ys then return (start ++ y :: merged, patience)
        let overtaken ← placeBefore less x ys.toArray 0
        let middle := y :: ys.take overtaken
        if let some merged := settled? (x :: rest) (ys.drop overtaken) then
          return (start ++ middle ++ merged, patience)
        let pace := Pace.afterLeaps passed overtaken
        let (merged, final) ← mergeUp less patience (pace.patience patience) pace rest (ys.drop overtaken)
        return (start ++ middle ++ x :: merged, final)
    | _, xs, ys => pure (xs ++ ys, patience)
termination_by xs.length + ys.length
decreasing_by
  all_goals simp only [List.length_cons, List.length_drop]
  · omega
  · omega
  · have := congrArg List.length _rest
    simp only [List.length_drop, List.length_cons] at this
    omega

/-- Merges two sorted rows from their greatest values on; both rows, and the merged one, are given
in falling order. -/
def mergeDown (less : Comparison ε α) (last patience : Nat) (pace : Pace) (xs ys : List α) :
    Except ε (List α × Nat) :=
  match settled? ys xs with
  | some merged => pure (merged, last)
  | none =>
    match pace, xs, ys with
    | .steps left right, x :: xs, y :: ys => do
      if ← less y x then
        let (merged, final) ← mergeDown less patience patience (.after patience (left + 1) 0) xs (y :: ys)
        return (x :: merged, final)
      else
        let (merged, final) ← mergeDown less patience patience (.after patience 0 (right + 1)) (x :: xs) ys
        return (y :: merged, final)
    | .leaps, xs, y :: ys => do
      let passed := xs.length - (← placeAfter less y xs.reverse.toArray (xs.length - 1))
      let start := xs.take passed
      match _rest : xs.drop passed with
      | [] => return (start ++ y :: ys, patience)
      | x :: rest =>
        if let some merged := settled? ys (x :: rest) then return (start ++ y :: merged, patience)
        let overtaken := ys.length - (← placeBefore less x ys.reverse.toArray (ys.length - 1))
        let middle := y :: ys.take overtaken
        if let some merged := settled? (ys.drop overtaken) (x :: rest) then
          return (start ++ middle ++ merged, patience)
        let pace := Pace.afterLeaps passed overtaken
        let (merged, final) ← mergeDown less patience (pace.patience patience) pace rest (ys.drop overtaken)
        return (start ++ middle ++ x :: merged, final)
    | _, xs, ys => pure (xs ++ ys, patience)
termination_by xs.length + ys.length
decreasing_by
  all_goals simp only [List.length_cons, List.length_drop]
  · omega
  · omega
  · have := congrArg List.length _rest
    simp only [List.length_drop, List.length_cons] at this
    omega

/-- Merges two sorted rows. What of the left row comes before the right one stays, and so does what
of the right row comes after the left one; the shorter of the remaining rows decides the direction. -/
def merge (less : Comparison ε α) (patience : Nat) (left right : List α) : Except ε (List α × Nat) := do
  let some first := right.head? | return (left, patience)
  let kept ← placeAfter less first left.toArray 0
  let some greatest := left.getLast? | return (right, patience)
  if left.length ≤ kept then return (left ++ right, patience)
  let moved ← placeBefore less greatest right.toArray (right.length - 1)
  let xs := left.drop kept
  let ys := right.take moved
  let (merged, final) ←
    if xs.length ≤ ys.length then
      match ys with
      | [] => pure (xs, patience)
      | y :: ys => do
        let (merged, final) ← mergeUp less patience patience (.steps 0 0) xs ys
        pure (y :: merged, final)
    else
      match ys, xs.reverse with
      | [], _ => pure (xs, patience)
      | _, [] => pure (ys, patience)
      | ys, x :: rest => do
        let (merged, final) ← mergeDown less patience patience (.steps 0 0) rest ys.reverse
        pure ((x :: merged).reverse, final)
  return (left.take kept ++ merged ++ right.drop moved, final)

end MetricTree.Sorting
