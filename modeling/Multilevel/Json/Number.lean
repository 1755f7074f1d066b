import Multilevel.Json.Token

/-!
# JSON numbers

The number a JSON literal stands for. A literal without point and exponent that fits into 64 bits
is an integer. Any other is read quickly rather than to the last bit: the leading digits that fit
into 64 bits become a floating point number, and one multiplication or division by a power of ten
puts the point in its place. Literals beyond the largest number are refused.
-/
namespace Multilevel.Json

inductive Number
  | natural (n : Nat)
  /-- The negative of a positive number. -/
  | negative (n : Nat)
  | real (x : Float)

namespace Number

/-- Appends digits to a significand as long as it fits into 64 bits. The second part counts the
digits that were left over. -/
def absorb (significand : Nat) : List Char → Nat × Nat
  | [] => (significand, 0)
  | d :: rest =>
    let next := significand * 10 + (d.toNat - '0'.toNat)
    if next < 0x10000000000000000 then absorb next rest else (significand, rest.length + 1)

def topPower : Nat := 308

def power (e : Nat) : Float := Float.ofScientific 1 false e

/-- Divides by the power `10 ^ e`, in steps no larger than the largest power there is. The first
argument bounds the steps. -/
def divideBy : Nat → Float → Nat → Float
  | 0, f, _ => f
  | steps + 1, f, e =>
    if e ≤ topPower then f / power e
    else if f == 0 then f
    else divideBy steps (f / power topPower) (e - topPower)

/-- The number `significand · 10 ^ exponent`, refused beyond the largest number. -/
def scaled? (significand : Nat) (exponent : Int) : Option Float :=
  let f := Float.ofNat significand
  -- the significand has been rounded, and scaling rounds again: the last digit may be off
  if exponent < 0 then some (divideBy (exponent.natAbs / topPower + 1) f exponent.natAbs)
  else if exponent.natAbs ≤ topPower then
    let product := f * power exponent.natAbs
    if product.isInf then none else some product
  else if f == 0 then some f
  else none

/-- The value of the digits of an exponent with their sign, and whether it is negative. -/
def exponentParts : List Char → Bool × Nat
  | '-' :: digits => (true, Nat.ofDigitChars 10 digits 0)
  | '+' :: digits => (false, Nat.ofDigitChars 10 digits 0)
  | digits => (false, Nat.ofDigitChars 10 digits 0)

/-- A number with a point or an exponent, or one too long for an integer. An exponent that does
not fit into 32 bits stands for zero or is refused. -/
def real? (whole fraction exponent : List Char) : Option Float :=
  -- digits that do not fit are dropped, not rounded; those before the point still count as places
  let (significand, dropped) := absorb 0 whole
  let (significand, ignored) := absorb significand fraction
  let start : Int := dropped - (fraction.length - ignored : Nat)
  let (down, e) := exponentParts exponent
  if e < 0x80000000 then scaled? significand (if down then start - e else start + e)
  else if significand ≠ 0 && !down then none
  else some 0

def unsigned? (s : List Char) : Option Number :=
  let whole := s.takeWhile Char.isDigit
  let rest := s.dropWhile Char.isDigit
  let value := Nat.ofDigitChars 10 whole 0
  if rest.isEmpty && value < 0x10000000000000000 then some (.natural value)
  else
    let (fraction, rest) := match rest with
      | '.' :: r => (r.takeWhile Char.isDigit, r.dropWhile Char.isDigit)
      | r => ([], r)
    (real? whole fraction (rest.drop 1)).map .real

/-- The opposite number. Zero and integers beyond 64 bits with a sign have no integer opposite. -/
def opposite : Number → Number
  | natural n => if n ≠ 0 ∧ n ≤ 0x8000000000000000 then negative n else real (-Float.ofNat n)
  | negative n => natural n
  | real x => real (-x)

def ofLiteral? : List Char → Option Number
  | '-' :: rest => (unsigned? rest).map opposite
  | s => unsigned? s

def toFloat : Number → Float
  | natural n => Float.ofNat n
  | negative n => -Float.ofNat n
  | real x => x

end Number
end Multilevel.Json
