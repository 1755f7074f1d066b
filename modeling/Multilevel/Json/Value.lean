/-!
# JSON values

A JSON text as a tree. Numbers keep their literal, so that each reader decides what a number may
be, and strings keep an unpaired surrogate, which a reader refuses only if it asks for the text.
-/
namespace Multilevel

/-- A part of a JSON string: a character, or a surrogate that was written as an escape. -/
inductive Piece
  | char (c : Char)
  | surrogate (unit : Nat)
  deriving DecidableEq, Repr

/-- A JSON value. Objects keep their members in order, with repeated keys. -/
inductive Json
  | null
  | bool (value : Bool)
  | number (literal : List Char)
  | string (pieces : List Piece)
  | array (elements : List Json)
  | object (members : List (List Piece × Json))

namespace Piece

def ofString (s : String) : List Piece := s.toList.map .char

def isHigh (unit : Nat) : Bool := 0xd800 ≤ unit && unit < 0xdc00

def isLow (unit : Nat) : Bool := 0xdc00 ≤ unit && unit < 0xe000

def ofUnit (unit : Nat) : Piece :=
  if isHigh unit || isLow unit then .surrogate unit else .char (.ofNat unit)

/-- The characters of pieces whose surrogates come in pairs. -/
def chars? : List Piece → Option (List Char)
  | [] => some []
  | .char c :: rest => (chars? rest).map (c :: ·)
  | .surrogate high :: .surrogate low :: rest =>
    if isHigh high && isLow low then
      (chars? rest).map (.ofNat (0x10000 + (high - 0xd800) * 0x400 + (low - 0xdc00)) :: ·)
    else none
  | .surrogate _ :: _ => none

def text? (pieces : List Piece) : Option String := (chars? pieces).map String.ofList

end Piece

namespace Json

def ofString (s : String) : Json := .string (Piece.ofString s)

def ofNat (n : Nat) : Json := .number (Nat.toDigits 10 n)

def record (members : List (String × Json)) : Json :=
  .object (members.map fun (k, v) => (Piece.ofString k, v))

end Json
end Multilevel
