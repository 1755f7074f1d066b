import Multilevel.Decimal.Binary

namespace Multilevel.Decimal

/-- The quotient rounded to the nearest whole number, a tie to the even one. -/
def roundedQuotient (numerator denominator : Nat) : Nat :=
  let q := numerator / denominator
  match compare (2 * (numerator % denominator)) denominator with
  | .lt => q
  | .gt => q + 1
  | .eq => if q % 2 = 0 then q else q + 1

/-- A magnitude in units of the last of `places` places. -/
def Binary.inPlaces (b : Binary) (places : Nat) : Nat :=
  roundedQuotient (b.mantissa * Nat.pow 2 b.exponent.toNat * Nat.pow 10 places)
    (Nat.pow 2 (-b.exponent).toNat)

def placesText (places units : Nat) : List Char :=
  let digits := Nat.toDigits 10 units
  -- at least one digit is left before the point
  let padded := List.replicate (places + 1 - digits.length) '0' ++ digits
  padded.take (padded.length - places) ++ '.' :: padded.drop (padded.length - places)

/-- A number with a fixed number of places. The sign stays on a number that rounds to zero. -/
def fixedText (places : Nat) (x : Float) : String :=
  String.ofList <| match parts x with
  | .notANumber => ['N', 'a', 'N']
  | .infinite negative => (if negative then ['-'] else []) ++ ['i', 'n', 'f']
  | .finite negative magnitude =>
    (if negative then ['-'] else []) ++ placesText places (magnitude.inPlaces places)

end Multilevel.Decimal
