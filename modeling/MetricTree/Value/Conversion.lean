import MetricTree.Value.Basic
import MetricTree.Binary64.Reading

namespace MetricTree.Value

/-- The binary64 number that a number is rounded to, or that a text or its bytes write. -/
def toBinary64 : Value → Except Fault Binary64
  | .bool b => pure (if b then .signed false (.nearest 1 1) else .zero)
  | .int n => (Binary64.ofInt? n).elim (throw .integerTooLarge) pure
  | .float x => pure x
  | .text s => (s.chars?.bind Binary64.ofText?).elim (throw (.unreadableNumber (Text.quoted s))) pure
  | .bytes bs =>
    let cs := bs.map fun b => if b < 0x80 then Char.ofNat b.toNat else '\uFFFD'
    (Binary64.ofText? cs).elim (throw (.unreadableNumber (Text.quotedBytes bs))) pure
  | .object o => o.real
  | v => throw (.notNumeric v.typeName)

end MetricTree.Value
