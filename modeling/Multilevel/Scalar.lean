/-!
# Scalars

Weights, factors and statistics are written for any type of scalars with the operations a
definition asks for. Programs run them on `Float`; a law of exact arithmetic is a statement about
the same definitions at the rational numbers.
-/
namespace Multilevel

/-- What descriptive statistics ask of a scalar beyond arithmetic and order. -/
class Gauge (α : Type) where
  sqrt : α → α
  /-- A bound no sample exceeds, the smallest value of no samples at all. -/
  infinite : α
  /-- The number of whole units in a value, `0` for one that has none. -/
  whole : α → Nat

instance floatNatCast : NatCast Float := ⟨Float.ofNat⟩

instance : Gauge Float where
  sqrt := Float.sqrt
  infinite := Float.ofBits 0x7ff0000000000000
  whole x := x.toUInt64.toNat

section
variable {α : Type} [LE α] [DecidableLE α]

/-- The larger of two scalars. One that is not even at most itself loses to the other. -/
def larger (a b : α) : α := if a ≤ a then (if a ≤ b then b else a) else b

/-- The smaller of two scalars. One that is not even at most itself loses to the other. -/
def smaller (a b : α) : α := if a ≤ a then (if b ≤ a then b else a) else b

variable [Zero α]

/-- Neither sign of zero is told from the other. -/
def vanishes (a : α) : Bool := decide (a ≤ 0) && decide (0 ≤ a)

def magnitude [Sub α] (a : α) : α := if a ≤ 0 then 0 - a else a

end

/-- The sum of a list from the left. It starts from negative zero, the one neutral element of
floating point addition: an empty sum is `-0.0`, and summing a single `-0.0` gives it back. -/
def total {α : Type} [Zero α] [Neg α] [Add α] (values : List α) : α :=
  values.foldl (· + ·) (-0)

end Multilevel
