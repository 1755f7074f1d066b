import Multilevel.Json.Value
import Multilevel.Text.Digit

namespace Multilevel.Json

inductive Token
  | openArray | closeArray | openObject | closeObject | comma | colon
  | null
  | bool (value : Bool)
  | number (literal : List Char)
  | string (pieces : List Piece)
  deriving DecidableEq, Repr

namespace Token

open Text (hexDigit?)

def unit? (a b c d : Char) : Option Nat := do
  return (((← hexDigit? a) * 16 + (← hexDigit? b)) * 16 + (← hexDigit? c)) * 16 + (← hexDigit? d)

def escaped? : Char → Option Char
  | '"' => some '"'
  | '\\' => some '\\'
  | '/' => some '/'
  | 'b' => some '\x08'
  | 'f' => some '\x0c'
  | 'n' => some '\n'
  | 'r' => some '\r'
  | 't' => some '\t'
  | _ => none

/-- The pieces of a string up to its closing quote, and what follows the quote. -/
def stringBody? : List Char → Option (List Piece × List Char)
  | [] => none
  | '"' :: rest => some ([], rest)
  | '\\' :: 'u' :: a :: b :: c :: d :: rest => do
    let unit ← unit? a b c d
    let (pieces, after) ← stringBody? rest
    return (.ofUnit unit :: pieces, after)
  | '\\' :: e :: rest => do
    let c ← escaped? e
    let (pieces, after) ← stringBody? rest
    return (.char c :: pieces, after)
  | c :: rest =>
    if c.toNat < 0x20 then none
    else do
      let (pieces, after) ← stringBody? rest
      return (.char c :: pieces, after)

def digits? (s : List Char) : Option (List Char × List Char) :=
  let digits := s.takeWhile Char.isDigit
  if digits.isEmpty then none else some (digits, s.dropWhile Char.isDigit)

/-- The whole part of a number: a zero alone, or digits that do not begin with one. -/
def whole? (s : List Char) : Option (List Char × List Char) := do
  let (digits, rest) ← digits? s
  if digits.head? = some '0' ∧ digits.length ≠ 1 then none else return (digits, rest)

/-- The fraction of a number with its point, empty if no point follows. -/
def fraction? : List Char → Option (List Char × List Char)
  | '.' :: rest => do
    let (digits, rest) ← digits? rest
    return ('.' :: digits, rest)
  | rest => some ([], rest)

def exponent? : List Char → Option (List Char × List Char)
  | [] => some ([], [])
  | c :: rest =>
    if c = 'e' ∨ c = 'E' then do
      let (sign, rest) := match rest with
        | '+' :: r => (['+'], r)
        | '-' :: r => (['-'], r)
        | r => ([], r)
      let (digits, rest) ← digits? rest
      return (c :: sign ++ digits, rest)
    else some ([], c :: rest)

def number? (s : List Char) : Option (List Char × List Char) := do
  let (sign, s) := match s with
    | '-' :: r => (['-'], r)
    | r => ([], r)
  let (whole, s) ← whole? s
  let (fraction, s) ← fraction? s
  let (exponent, s) ← exponent? s
  return (sign ++ whole ++ fraction ++ exponent, s)

def isBlank (c : Char) : Bool := c = ' ' || c = '\n' || c = '\t' || c = '\r'

/-- The token at the front of a text that begins with no blank, and the rest. -/
def next? : List Char → Option (Token × List Char)
  | '[' :: rest => some (.openArray, rest)
  | ']' :: rest => some (.closeArray, rest)
  | '\x7b' :: rest => some (.openObject, rest)
  | '\x7d' :: rest => some (.closeObject, rest)
  | ',' :: rest => some (.comma, rest)
  | ':' :: rest => some (.colon, rest)
  | 'n' :: 'u' :: 'l' :: 'l' :: rest => some (.null, rest)
  | 't' :: 'r' :: 'u' :: 'e' :: rest => some (.bool true, rest)
  | 'f' :: 'a' :: 'l' :: 's' :: 'e' :: rest => some (.bool false, rest)
  | '"' :: rest => (stringBody? rest).map fun (pieces, after) => (.string pieces, after)
  | s => (number? s).map fun (literal, after) => (.number literal, after)

def scan : Nat → List Char → Option (List Token)
  | _, [] => some []
  | 0, _ :: _ => none
  | n + 1, c :: rest =>
    if isBlank c then scan n rest
    else do
      let (token, after) ← next? (c :: rest)
      return token :: (← scan n after)

/-- The tokens of a text. Every step takes at least one character, so its length bounds the
steps. -/
def ofText? (s : List Char) : Option (List Token) := scan s.length s

end Token
end Multilevel.Json
