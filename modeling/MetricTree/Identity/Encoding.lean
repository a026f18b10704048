import MetricTree.Identity.Part
import MetricTree.Sorting.Runs
import MetricTree.Value.Order

namespace MetricTree.Identity

/-- A key, the name separator and its value, for each pair, with the pair separator in between. -/
def pairPieces {α : Type} (mark : Text → α) : List (α × α) → List α
  | [] => []
  | [(key, value)] => [key, mark "=", value]
  | (key, value) :: rest => key :: mark "=" :: value :: mark "," :: pairPieces mark rest

/-- The pieces that an identity is put together from. -/
def pieces {α : Type} (mark : Text → α) (stem? : Option α) (pairs : List (α × α)) : List α :=
  match stem? with
  | some stem => stem :: mark "+" :: pairPieces mark pairs
  | none => pairPieces mark pairs

/-- Pairs by ascending key. -/
def sortedPairs (tags : Tags) : List (Text × Text) :=
  tags.entries.mergeSort fun a b => decide (a.1 ≤ b.1)

/-- The identity of a stem and tags: the stem and a plus, if there is a stem, and then the tags by
ascending key. It does not depend on the order in which the tags arrived. -/
def encode (stem : Text) (tags : Tags) : Text :=
  Text.join (pieces id (if stem.isEmpty then none else some stem) (sortedPairs tags))

/-- Keys in ascending order. Texts always have one; other keys only if they can be compared. -/
def sortKeys (keys : List Value) : Except Fault (List Value) :=
  match keys.mapM Value.text? with
  | some texts => pure ((texts.mergeSort fun s t => decide (s ≤ t)).map .text)
  | none => Sorting.sort Value.less keys

/-- The pieces of the identity of a stem and tags of any type. -/
def valuePieces (stem : Value) (tags : Table Value Value) : Except Fault (List Value) := do
  let keys ← sortKeys tags.keys
  let pairs := keys.map fun key => (key, (tags.get? key).getD .null)
  return pieces .text (if stem.isTruthy then some stem else none) pairs

/-- The pieces as one text; the first that is no text, counted from `index`, is the fault. -/
def joinFrom (index : Nat) : List Value → Except Fault Text
  | [] => pure ""
  | .text s :: rest => return s ++ (← joinFrom (index + 1) rest)
  | v :: _ => throw (.pieceNotText index v.typeName)

/-- The identity of a stem and tags of any type. -/
def encodeValues (stem : Value) (tags : Table Value Value) : Except Fault Text := do
  joinFrom 0 (← valuePieces stem tags)

end MetricTree.Identity
