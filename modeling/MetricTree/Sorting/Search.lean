namespace MetricTree.Sorting

variable {ε α : Type}

/-- Is the first value less than the second? Not all values need to be comparable. -/
abbrev Comparison (ε α : Type) := α → α → Except ε Bool

/-- The first place, from `low` on, at which the test fails, found by halving. -/
def halve (passes : Nat → Except ε Bool) (low high : Nat) : Except ε Nat :=
  if _room : low < high then do
    let middle := (low + high) / 2
    if ← passes middle then halve passes (middle + 1) high else halve passes low middle
  else pure low
termination_by high - low
decreasing_by all_goals omega

/-- Looks ahead in strides that double as long as the test passes. The answer is the last stride that
passed, and the first one that failed or else the bound. -/
def stride (passes : Nat → Except ε Bool) (bound passed next : Nat) : Except ε (Nat × Nat) :=
  if _room : next < bound then do
    if ← passes next then stride passes bound next (2 * next + 1) else pure (passed, next)
  else pure (passed, bound)
termination_by bound - next
decreasing_by omega

/-- The place of a key in a sorted row, in front of its equals, looked for on both sides of a hint. -/
def placeBefore (less : Comparison ε α) (key : α) (row : Array α) (hint : Nat) : Except ε Nat := do
  let isBelow := fun i => less (row.getD i key) key
  if ← isBelow hint then
    let (passed, failed) ← stride (fun step => isBelow (hint + step)) (row.size - hint) 0 1
    halve isBelow (hint + passed + 1) (hint + failed)
  else
    let (passed, failed) ← stride (fun step => not <$> isBelow (hint - step)) (hint + 1) 0 1
    halve isBelow (hint + 1 - failed) (hint - passed)

/-- The place of a key in a sorted row, behind its equals, looked for on both sides of a hint. -/
def placeAfter (less : Comparison ε α) (key : α) (row : Array α) (hint : Nat) : Except ε Nat := do
  let isAbove := fun i => less key (row.getD i key)
  if ← isAbove hint then
    let (passed, failed) ← stride (fun step => isAbove (hint - step)) (hint + 1) 0 1
    halve (fun i => not <$> isAbove i) (hint + 1 - failed) (hint - passed)
  else
    let (passed, failed) ← stride (fun step => not <$> isAbove (hint + step)) (row.size - hint) 0 1
    halve (fun i => not <$> isAbove i) (hint + passed + 1) (hint + failed)

end MetricTree.Sorting
