import Multilevel.Json.Value
import Multilevel.Decimal.Layout

namespace Multilevel.Json

def hexChar (n : Nat) : Char := Nat.digitChar n

def unitText (n : Nat) : List Char :=
  ['\\', 'u', hexChar (n / 4096 % 16), hexChar (n / 256 % 16), hexChar (n / 16 % 16),
    hexChar (n % 16)]

/-- A piece of a string between its quotes. Only quotes, backslashes, control characters and
surrogates are escaped. -/
def pieceText : Piece → List Char
  | .surrogate unit => unitText unit
  | .char '"' => ['\\', '"']
  | .char '\\' => ['\\', '\\']
  | .char '\x08' => ['\\', 'b']
  | .char '\x0c' => ['\\', 'f']
  | .char '\n' => ['\\', 'n']
  | .char '\r' => ['\\', 'r']
  | .char '\t' => ['\\', 't']
  | .char c => if c.toNat < 0x20 then unitText c.toNat else [c]

def stringText (pieces : List Piece) : List Char := '"' :: pieces.flatMap pieceText ++ ['"']

inductive Form
  | compact
  | indented (depth : Nat)

namespace Form

def inner : Form → Form
  | compact => compact
  | indented depth => indented (depth + 1)

def lineBreak : Form → List Char
  | compact => []
  | indented depth => '\n' :: List.replicate (2 * depth) ' '

def colon : Form → List Char
  | compact => [':']
  | indented _ => [':', ' ']

end Form

mutual

def text (form : Form) : Json → List Char
  | .null => ['n', 'u', 'l', 'l']
  | .bool true => ['t', 'r', 'u', 'e']
  | .bool false => ['f', 'a', 'l', 's', 'e']
  | .number literal => literal
  | .string pieces => stringText pieces
  | .array [] => ['[', ']']
  | .array (v :: rest) =>
    '[' :: form.inner.lineBreak ++ text form.inner v ++ elementsText form.inner rest
      ++ form.lineBreak ++ [']']
  | .object [] => ['\x7b', '\x7d']
  | .object ((k, v) :: rest) =>
    '\x7b' :: form.inner.lineBreak ++ stringText k ++ form.inner.colon ++ text form.inner v
      ++ membersText form.inner rest ++ form.lineBreak ++ ['\x7d']

def elementsText (form : Form) : List Json → List Char
  | [] => []
  | v :: rest => ',' :: form.lineBreak ++ text form v ++ elementsText form rest

def membersText (form : Form) : List (List Piece × Json) → List Char
  | [] => []
  | (k, v) :: rest =>
    ',' :: form.lineBreak ++ stringText k ++ form.colon ++ text form v ++ membersText form rest

end

def compact (v : Json) : String := String.ofList (text .compact v)

def pretty (v : Json) : String := String.ofList (text (.indented 0) v)

/-- A floating point number. JSON has none that are not finite; they are written as `null`. -/
def ofFloat (x : Float) : Json :=
  if x.isFinite then .number (Decimal.json.text x) else .null

end Multilevel.Json
