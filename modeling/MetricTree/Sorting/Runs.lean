import MetricTree.Sorting.Merge

namespace MetricTree.Sorting

variable {ε α : Type}

/-- How many values continue a run after `previous`: while they fall strictly, or while they do not fall. -/
def runLength (less : Comparison ε α) (falling : Bool) (previous : α) : List α → Except ε Nat
  | [] => pure 0
  | next :: rest => do
    if (← less next previous) == falling then return 1 + (← runLength less falling next rest)
    else return 0

/-- The run that values begin with, in rising order. -/
def firstRun (less : Comparison ε α) : List α → Except ε (List α)
  | first :: second :: rest => do
    let falling ← less second first
    let length := 2 + (← runLength less falling second rest)
    let run := (first :: second :: rest).take length
    return if falling then run.reverse else run
  | few => pure few

/-- Inserts values one by one into a sorted row, behind their equals. -/
def insertAll (less : Comparison ε α) (sorted : List α) : List α → Except ε (List α)
  | [] => pure sorted
  | pivot :: rest => do
    let row := sorted.toArray
    let place ← halve (fun i => not <$> less pivot (row.getD i pivot)) 0 row.size
    insertAll less (sorted.take place ++ pivot :: sorted.drop place) rest

/-- The least length of runs for so many values: the values make up a power of two of such runs, or few less. -/
def leastRun (odd : Bool) (count : Nat) : Nat :=
  if _small : count < 64 then count + odd.toNat else leastRun (odd || count % 2 == 1) (count / 2)
termination_by count
decreasing_by omega

/-- A sorted stretch of the values: where it starts, and the rank of its boundary with the next one. -/
structure Run (α : Type) where
  start : Nat
  items : List α
  rank : Nat

/-- The rank of the boundary between two stretches: at which binary place their middles, as parts
of the whole length, first differ. -/
def boundaryRank (total start left right : Nat) : Nat :=
  let middle := 2 * start + left
  let next := middle + left + right
  let differ := fun place => middle * Nat.pow 2 place / total != next * Nat.pow 2 place / total
  ((List.range (total.log2 + 2)).find? differ).getD 0 + 1

/-- Merges the two topmost runs as long as the lower boundary outranks the given one. -/
def collapse (less : Comparison ε α) (rank patience : Nat) : List (Run α) → Except ε (List (Run α) × Nat)
  | top :: next :: rest => do
    if rank < next.rank then
      let (items, final) ← merge less patience next.items top.items
      collapse less rank final ({ next with items := items } :: rest)
    else return (top :: next :: rest, patience)
  | stack => pure (stack, patience)
termination_by stack => stack.length

/-- Merges all runs, the shorter neighbour of the second one from the top first. -/
def mergeAll (less : Comparison ε α) (patience : Nat) : List (Run α) → Except ε (List α)
  | [] => pure []
  | [run] => pure run.items
  | top :: next :: third :: rest => do
    if third.items.length < top.items.length then
      let (items, final) ← merge less patience third.items next.items
      mergeAll less final (top :: { third with items := items } :: rest)
    else
      let (items, final) ← merge less patience next.items top.items
      mergeAll less final ({ next with items := items } :: third :: rest)
  | [top, next] => do
    let (items, _) ← merge less patience next.items top.items
    return items
termination_by stack => stack.length

/-- Splits values into runs of at least a length, if need be with insertions, and merges runs as
they come. The runs so far are given with the last one first. -/
def mergeRuns (less : Comparison ε α) (total least : Nat) (stack : List (Run α)) (patience : Nat) :
    List α → Except ε (List α)
  | [] => mergeAll less patience stack
  | first :: rest => do
    let values := first :: rest
    let run ← firstRun less values
    let length := max run.length (min least values.length)
    let items ← insertAll less run ((values.take length).drop run.length)
    let start := total - values.length
    let (stack, patience) ← match stack with
      | [] => pure ([], patience)
      | top :: lower => do
        let rank := boundaryRank total top.start top.items.length length
        let (stack, patience) ← collapse less rank patience (top :: lower)
        pure (stack.modify 0 ({ · with rank := rank }), patience)
    mergeRuns less total least (⟨start, items, 0⟩ :: stack) patience (rest.drop (length - 1))
termination_by values => values.length

/-- Sorts values by merging the runs that they fall into. The first comparison that fails is the fault. -/
def sort (less : Comparison ε α) (values : List α) : Except ε (List α) :=
  mergeRuns less values.length (leastRun false values.length) [] leastLeap values

end MetricTree.Sorting
