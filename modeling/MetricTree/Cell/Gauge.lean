import MetricTree.Value.Conversion

namespace MetricTree

/-- The last value written, and whether it was written since it was last reported. -/
structure Gauge where
  value : Binary64
  dirty : Bool

namespace Gauge

def fresh : Gauge := ⟨.zero, false⟩

def update (_ : Gauge) (value : Value) : Except Fault Gauge := return ⟨← value.toBinary64, true⟩

def consume (g : Gauge) : (Binary64 × Bool) × Gauge := ((g.value, g.dirty), { g with dirty := false })

end Gauge

end MetricTree
