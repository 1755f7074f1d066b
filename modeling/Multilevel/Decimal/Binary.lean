/-!
# Binary fractions

A double precision number taken apart: its sign, and its magnitude as an integer times a power of
two. All decimal texts are computed from these parts in exact arithmetic.
-/
namespace Multilevel.Decimal

/-- A magnitude `mantissa · 2 ^ exponent`. -/
structure Binary where
  mantissa : Nat
  exponent : Int
  deriving DecidableEq, Repr

inductive Parts
  | notANumber
  | infinite (negative : Bool)
  | finite (negative : Bool) (magnitude : Binary)
  deriving DecidableEq, Repr

/-- The exponent of the numbers nearest to zero, which lie evenly around it. -/
def leastExponent : Int := -1074

def fullMantissa : Nat := 0x10000000000000

/-- The parts of a number, read off its bits: a sign, eleven bits that select the exponent, and
the mantissa without its leading one. -/
def parts (x : Float) : Parts :=
  let bits := x.toBits.toNat
  let negative := bits / 0x8000000000000000 = 1
  let selector := bits / fullMantissa % 0x800
  let fraction := bits % fullMantissa
  if selector = 0x7ff then (if fraction = 0 then .infinite negative else .notANumber)
  else if selector = 0 then .finite negative ⟨fraction, leastExponent⟩
  else .finite negative ⟨fullMantissa + fraction, leastExponent + (selector - 1 : Nat)⟩

end Multilevel.Decimal
