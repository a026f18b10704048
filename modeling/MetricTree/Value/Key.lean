import MetricTree.Value.Literal

namespace MetricTree.Value

mutual

/-- May the value be looked up in a table? Only containers that cannot change may. -/
def hashable : Value → Except Fault Unit
  | .list _ => throw (.notHashable "list")
  | .set _ => throw (.notHashable "set")
  | .dict _ => throw (.notHashable "dict")
  | .tuple items => allHashable items
  | .object o => if o.likeness = .unhashable then throw (.notHashable o.typeName) else pure ()
  | _ => pure ()
termination_by structural v => v

def allHashable : List Value → Except Fault Unit
  | [] => pure ()
  | item :: rest => do
    hashable item
    allHashable rest
termination_by structural items => items

end

mutual

/-- Do two values count as one key? Numbers do if they are equal, truth values being numbers. -/
def sameKey : Value → Value → Bool
  | .null, .null => true
  | .bool b, other => (other.number?.map fun n => n.equals (.int b.toNat)).getD false
  | .int m, other => (other.number?.map fun n => n.equals (.int m)).getD false
  | .float x, other => (other.number?.map fun n => n.equals (.float x)).getD false
  | .text s, other => other.textKey?.any (s == ·)
  | .object o, other =>
    match o.likeness, other with
    | .text s, other => other.textKey?.any (s == ·)
    | .unique id, .object other => .unique id == other.likeness
    | _, _ => false
  | .bytes bs, .bytes cs => bs == cs
  | .tuple xs, .tuple ys => sameKeys xs ys
  | _, _ => false
termination_by structural v => v

def sameKeys : List Value → List Value → Bool
  | [], [] => true
  | x :: xs, y :: ys => sameKey x y && sameKeys xs ys
  | _, _ => false
termination_by structural items => items

end

instance : BEq Value := ⟨sameKey⟩

/-- What stands at a place of a row, or under the number of the place in a dictionary. -/
def place (v : Value) (n : Nat) : Except Fault Value :=
  let inRow := fun (row : List Value) => row[n]?.elim (throw (.placeMissing v.typeName)) pure
  match v with
  | .text s => inRow (s.toList.map fun letter => .text (.singleton letter))
  | .bytes bs => inRow (bs.map fun b => .int b.toNat)
  | .list items => inRow items
  | .tuple items => inRow items
  | .dict entries =>
    match entries.find? fun entry => entry.1 == .int n with
    | some entry => pure entry.2
    | none => throw (.keyMissing (toString n))
  | v => throw (.notSubscriptable v.typeName)

end MetricTree.Value
