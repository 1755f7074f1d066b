import Multilevel.Decimal.Binary

/-!
# Shortest decimals

The decimal with the fewest digits that reads back as a given binary fraction, and among those the
nearest. Reading rounds to the nearest binary fraction, so the decimals that read back form an
interval around the fraction, ends included when its mantissa is even. Decimal grids `10 ^ k` are
tried from coarse to fine, each at the two points next to the fraction; the first grid with a
point in the interval has the shortest decimals.
-/
namespace Multilevel.Decimal

structure Digits where
  digits : Nat
  exponent : Int
  deriving DecidableEq, Repr

inductive Tie
  | up | even
  deriving DecidableEq, Repr

namespace Binary

/-- How many quarter units the interval reaches below the fraction. The neighbour below a power of
two is only half as far away as the one above, except among the numbers nearest to zero. -/
def reachBelow (b : Binary) : Nat :=
  if b.mantissa = fullMantissa ∧ leastExponent < b.exponent then 1 else 2

/-- Factor that takes quarter units to the common scale of the fraction and the grid `10 ^ k`. -/
def binaryScale (b : Binary) (k : Int) : Nat :=
  Nat.pow 2 (b.exponent - 2).toNat * Nat.pow 10 (-k).toNat

/-- Factor that takes points of the grid `10 ^ k` to the common scale. -/
def decimalScale (b : Binary) (k : Int) : Nat :=
  Nat.pow 2 (2 - b.exponent).toNat * Nat.pow 10 k.toNat

def reads (b : Binary) (d : Nat) (k : Int) : Bool :=
  -- in quarter units the half-way points on both sides are whole, also below a power of two
  let point := d * b.decimalScale k
  let low := (4 * b.mantissa - b.reachBelow) * b.binaryScale k
  let high := (4 * b.mantissa + 2) * b.binaryScale k
  if b.mantissa % 2 = 0 then low ≤ point && point ≤ high else low < point && point < high

def below (b : Binary) (k : Int) : Nat := 4 * b.mantissa * b.binaryScale k / b.decimalScale k

/-- Of the grid points `d` and `d + 1` around the fraction, the nearer. -/
def nearer (b : Binary) (tie : Tie) (d : Nat) (k : Int) : Nat :=
  match compare (2 * (4 * b.mantissa * b.binaryScale k)) ((2 * d + 1) * b.decimalScale k) with
  | .lt => d
  | .gt => d + 1
  | .eq => match tie with
    | .up => d + 1
    | .even => if d % 2 = 0 then d else d + 1

def exact (b : Binary) : Digits :=
  if 0 ≤ b.exponent then ⟨b.mantissa * Nat.pow 2 b.exponent.toNat, 0⟩
  else ⟨b.mantissa * Nat.pow 5 (-b.exponent).toNat, b.exponent⟩

/-- Tries a number of grids from `10 ^ k` on, and settles for the fraction itself after them. -/
def shortestFrom (b : Binary) (tie : Tie) : Nat → Int → Digits
  | 0, _ => b.exact
  | grids + 1, k =>
    let d := b.below k
    match b.reads d k, b.reads (d + 1) k with
    -- no other point of this grid is nearer, and no coarser grid has one at all
    | true, true => ⟨b.nearer tie d k, k⟩
    | true, false => ⟨d, k⟩
    | false, true => ⟨d + 1, k⟩
    | false, false => shortestFrom b tie grids (k - 1)

/-- A power of ten above the fraction: three tenths of the number of its binary digits, rounded
up. -/
def coarse (b : Binary) : Int := (b.mantissa.log2 + 1 + b.exponent) * 30103 / 100000 + 1

/-- The shortest decimal that reads back as the fraction, and the nearest such. The grids down to
the one that holds the fraction itself are tried. -/
def shortest (b : Binary) (tie : Tie) : Digits :=
  if b.mantissa = 0 then ⟨0, 0⟩
  -- on a grid coarser than the fraction only zero is below it, and zero reads back as zero
  else b.shortestFrom tie (b.coarse - min b.exponent 0 + 1).toNat b.coarse

end Binary
end Multilevel.Decimal
