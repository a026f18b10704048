import MetricTree.Fault

namespace MetricTree

/-- An integer of no more digits than are written. -/
structure ShortInt where
  value : Int
  short : value.natAbs < Text.leastTooLong
  deriving DecidableEq

namespace ShortInt

def ofInt (n : Int) : Except Fault ShortInt :=
  if short : n.natAbs < Text.leastTooLong then pure ⟨n, short⟩ else throw .integerTooLong

@[simp]
theorem ofInt_value (n : ShortInt) : ofInt n.value = .ok n := dif_pos n.short

theorem ofInt_eq_ok {n : Int} {s : ShortInt} : ofInt n = .ok s ↔ s.value = n := by
  constructor
  · intro made
    unfold ofInt at made
    split at made <;> cases made
    rfl
  · rintro rfl
    exact s.ofInt_value

theorem exists_ofInt {n : Int} : (∃ s, ofInt n = .ok s) ↔ n.natAbs < Text.leastTooLong :=
  ⟨fun ⟨s, made⟩ => ofInt_eq_ok.mp made ▸ s.short, fun short => ⟨⟨n, short⟩, dif_pos short⟩⟩

def text (n : ShortInt) : String := toString n.value

end ShortInt

end MetricTree
