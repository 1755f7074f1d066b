import Multilevel.Decimal.Shortest

/-!
# Layouts of numbers

How a number is written down once its digits are known. A layout is a record of the decisions a
format makes; the formats of this library are the three layouts at the end.
-/
namespace Multilevel.Decimal

structure Layout where
  /-- Which of two equally near shortest decimals is written. -/
  tie : Tie
  /-- Whether a number whose first digit stands for this power of ten is written without an
  exponent. -/
  positional : Int → Bool
  /-- Whether a whole number still shows a fraction. -/
  keepsPoint : Bool
  /-- Whether a positive exponent carries its sign. -/
  signsExponent : Bool

namespace Layout

def exponentText (l : Layout) (e : Int) : List Char :=
  if e < 0 then '-' :: Nat.toDigits 10 e.natAbs
  else if l.signsExponent then '+' :: Nat.toDigits 10 e.natAbs
  else Nat.toDigits 10 e.natAbs

/-- Digits without an exponent. `lead` is the power of ten of the first digit. -/
def positionalText (l : Layout) (digits : List Char) (lead : Int) : List Char :=
  if lead < 0 then
    ['0', '.'] ++ List.replicate (-lead - 1).toNat '0' ++ digits
  else
    let whole := lead.toNat + 1
    if whole < digits.length then digits.take whole ++ '.' :: digits.drop whole
    else digits ++ List.replicate (whole - digits.length) '0'
      ++ (if l.keepsPoint then ['.', '0'] else [])

/-- Digits with an exponent: one digit before the point, and no point if it is the only one. -/
def scientificText (l : Layout) (digits : List Char) (lead : Int) : List Char :=
  digits.take 1 ++ (if digits.length = 1 then [] else '.' :: digits.drop 1)
    ++ 'e' :: l.exponentText lead

def digitsText (l : Layout) (d : Digits) : List Char :=
  let digits := Nat.toDigits 10 d.digits
  let lead := d.exponent + digits.length - 1
  if l.positional lead then l.positionalText digits lead else l.scientificText digits lead

def text (l : Layout) (x : Float) : List Char :=
  match parts x with
  | .notANumber => ['N', 'a', 'N']
  | .infinite negative => signed negative ['i', 'n', 'f']
  | .finite negative magnitude => signed negative (l.digitsText (magnitude.shortest l.tie))
where
  signed (negative : Bool) (digits : List Char) : List Char :=
    if negative then '-' :: digits else digits

def string (l : Layout) (x : Float) : String := String.ofList (l.text x)

end Layout

/-- Numbers in graph texts and reports: never an exponent, and no fraction on whole numbers. -/
def plain : Layout where
  tie := .up
  positional _ := true
  keepsPoint := false
  signsExponent := false

/-- Numbers that must be told from integers: always a fraction or an exponent, the latter below
`1e-4` and from `1e16` on. -/
def marked : Layout where
  tie := .up
  positional lead := -4 ≤ lead && lead < 16
  keepsPoint := true
  signsExponent := false

/-- Numbers in JSON: a fraction, or an exponent below `1e-5` and from `1e+16` on. -/
def json : Layout where
  tie := .even
  positional lead := -5 ≤ lead && lead < 16
  keepsPoint := true
  signsExponent := true

end Multilevel.Decimal
