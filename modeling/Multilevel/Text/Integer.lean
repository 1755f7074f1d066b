namespace Multilevel.Text

inductive IntegerFault
  | invalidDigit
  | tooLarge
  deriving DecidableEq, Repr

def IntegerFault.message : IntegerFault → String
  | invalidDigit => "invalid digit found in string"
  | tooLarge => "number too large to fit in target type"

/-- The number that digits append to another one, which must stay below a bound. -/
def digitsBelow (bound : Nat) (value : Nat) : List Char → Except IntegerFault Nat
  | [] => .ok value
  | c :: rest =>
    -- a wrong character further on is not seen once the number is too large
    if c.isDigit then
      let next := value * 10 + (c.toNat - '0'.toNat)
      if next < bound then digitsBelow bound next rest else .error .tooLarge
    else .error .invalidDigit

def magnitude (bound : Nat) (digits : List Char) : Except IntegerFault Nat :=
  if digits.isEmpty then .error .invalidDigit else digitsBelow bound 0 digits

/-- An integer of 64 bits without a minus. -/
def natural : List Char → Except IntegerFault Nat
  | '+' :: digits => magnitude 0x10000000000000000 digits
  | digits => magnitude 0x10000000000000000 digits

/-- An integer of 64 bits, of which one tells the sign. -/
def integer : List Char → Except IntegerFault Int
  | '-' :: digits => (fun n => -(n : Int)) <$> magnitude 0x8000000000000001 digits
  | '+' :: digits => Int.ofNat <$> magnitude 0x8000000000000000 digits
  | digits => Int.ofNat <$> magnitude 0x8000000000000000 digits

end Multilevel.Text
