namespace Multilevel.Decimal

/-- Splits off a sign; the first part says whether it is a minus. -/
def splitSign : List Char → Bool × List Char
  | '-' :: rest => (true, rest)
  | '+' :: rest => (false, rest)
  | rest => (false, rest)

def splitDigits (s : List Char) : List Char × List Char :=
  (s.takeWhile Char.isDigit, s.dropWhile Char.isDigit)

def splitFraction : List Char → List Char × List Char
  | '.' :: rest => splitDigits rest
  | rest => ([], rest)

/-- The value of an exponent, `0` if there is none. Nothing may follow it. -/
def exponent? : List Char → Option Int
  | [] => some 0
  | c :: rest =>
    if c = 'e' ∨ c = 'E' then
      let (negative, digits) := splitSign rest
      if digits.isEmpty || !digits.all Char.isDigit then none
      else
        let e : Int := Nat.ofDigitChars 10 digits 0
        some (if negative then -e else e)
    else none

/-- The number nearest to `digits · 10 ^ exponent`. -/
def nearest (digits : Nat) (exponent : Int) : Float :=
  Float.ofScientific digits (exponent < 0) exponent.natAbs

/-- A decimal without sign. There is at least one digit before or after the point. -/
def magnitude? (s : List Char) : Option Float :=
  let (whole, afterWhole) := splitDigits s
  let (fraction, afterFraction) := splitFraction afterWhole
  if whole.isEmpty && fraction.isEmpty then none
  else (exponent? afterFraction).map fun e =>
    nearest (Nat.ofDigitChars 10 (whole ++ fraction) 0) (e - fraction.length)

/-- A number without sign: a word in any mix of cases, or a decimal. -/
def unsigned? (s : List Char) : Option Float :=
  let word := String.ofList (s.map Char.toLower)
  if word = "nan" then some (Float.ofBits 0x7ff8000000000000)
  else if word = "inf" ∨ word = "infinity" then some (Float.ofBits 0x7ff0000000000000)
  else magnitude? s

def read? (s : List Char) : Option Float :=
  let (negative, body) := splitSign s
  (unsigned? body).map fun x => if negative then -x else x

end Multilevel.Decimal
