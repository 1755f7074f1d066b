import Multilevel.Yaml.Scalar

namespace Multilevel.Yaml

inductive Style
  | plain | quoted | literal | folded
  deriving DecidableEq, Repr

/-- A tag: a handle that stands for a longer text, and a suffix behind it. The handle of a tag that
is written out is empty. -/
structure Tag where
  handle : List Char
  suffix : List Char
  deriving DecidableEq, Repr

inductive Token
  | version (major minor : Nat)
  | handle (name text : List Char)
  | documentStart | documentEnd
  | blockList | blockMap | blockEnd
  | flowList | flowListEnd | flowMap | flowMapEnd
  | element | comma | key | value
  | alias (name : List Char)
  | anchor (name : List Char)
  | tag (t : Tag)
  | scalar (style : Style) (text : List Char)
  deriving DecidableEq, Repr

def isNameChar (c : Char) : Bool := c.isAlphanum || c = '_' || c = '-'

def endsName (s : List Spot) : Bool :=
  endsWord s || s.head?.any fun s => "?:,]\x7d%@`".toList.contains s.char

def name? (s : List Spot) : Option (List Char × List Spot) :=
  let (name, rest) := spanChars isNameChar s
  if name.isEmpty || !endsName rest then none else some (name, rest)

/-- Whether a character may stand in a tag. Between angle brackets there are more of them. -/
def isTagChar (isVerbatim : Bool) (c : Char) : Bool :=
  isNameChar c || ";/?:@&=+$.!~*'()".toList.contains c || (isVerbatim && ",[]".toList.contains c)

def width? (byte : Nat) : Option Nat :=
  if byte < 0x80 then some 1
  else if byte < 0xc0 then none
  else if byte < 0xe0 then some 2
  else if byte < 0xf0 then some 3
  else if byte < 0xf8 then some 4
  else none

/-- A part of a tag, with escapes as the bytes they are for. The second argument counts the bytes
that the last character still needs. -/
def tagText? (isVerbatim : Bool) (owed : Nat) : List Spot → Option (List Char × List Spot)
  | [] => if owed = 0 then some ([], []) else none
  | s :: rest =>
    if s.char = '%' then
      match rest with
      | a :: b :: rest => do
        let byte := (← Text.hexDigit? a.char) * 16 + (← Text.hexDigit? b.char)
        let owed ←
          if owed = 0 then (width? byte).map (· - 1)
          else if 0x80 ≤ byte ∧ byte < 0xc0 then some (owed - 1)
          else none
        let (text, rest) ← tagText? isVerbatim owed rest
        return (.ofNat byte :: text, rest)
      | _ => none
    else if owed ≠ 0 then none
    else if isTagChar isVerbatim s.char then do
      let (text, rest) ← tagText? isVerbatim 0 rest
      return (s.char :: text, rest)
    else some ([], s :: rest)

def someTagText? (isVerbatim : Bool) (s : List Spot) : Option (List Char × List Spot) :=
  (tagText? isVerbatim 0 s).filter (!·.1.isEmpty)

/-- What may be a handle, an exclamation mark and a name, and whether another mark closes it. -/
def handle? : List Spot → Option (List Char × Bool × List Spot)
  | [] => none
  | s :: rest =>
    if s.char = '!' then
      let (name, rest) := spanChars isNameChar rest
      if beginsWith '!' rest then some ('!' :: name ++ ['!'], true, rest.drop 1)
      else some ('!' :: name, false, rest)
    else none

def openTag? (s : List Spot) : Option (Tag × List Spot) :=
  if beginsWith '<' (s.drop 1) then do
    let (suffix, rest) ← someTagText? true (s.drop 2)
    if beginsWith '>' rest then return (⟨[], suffix⟩, rest.drop 1) else none
  else do
    let (handle, isClosed, rest) ← handle? s
    if isClosed then
      let (suffix, rest) ← someTagText? false rest
      return (⟨handle, suffix⟩, rest)
    else
      -- it was no handle but the first part of the suffix
      let (more, rest) ← tagText? false 0 rest
      let suffix := handle.drop 1 ++ more
      return (if suffix.isEmpty then ⟨[], ['!']⟩ else ⟨['!'], suffix⟩, rest)

def tag? (inFlow : Bool) (s : List Spot) : Option (Tag × List Spot) :=
  (openTag? s).filter fun (_, rest) => endsWord rest || (inFlow && beginsWith ',' rest)

def version? (s : List Spot) : Option (Nat × List Spot) :=
  let (digits, rest) := spanChars Char.isDigit s
  if digits.isEmpty || 9 < digits.length then none else some (Nat.ofDigitChars 10 digits 0, rest)

def directive? (s : List Spot) : Option (Token × List Spot) := do
  let (name, rest) := spanChars isNameChar s
  if !endsWord rest then none
  else if name = "YAML".toList then
    let (major, rest) ← version? (skipSpaces rest)
    if !beginsWith '.' rest then none
    else
      let (minor, rest) ← version? (rest.drop 1)
      return (.version major minor, ← lineEnd? rest)
  else if name = "TAG".toList then
    let (handle, isClosed, rest) ← handle? (skipSpaces rest)
    if !isClosed && handle ≠ ['!'] || !rest.head?.any (isSpace ·.char) then none
    else
      let (text, rest) ← someTagText? true (skipSpaces rest)
      if endsWord rest then return (.handle handle text, ← lineEnd? rest) else none
  else none

end Multilevel.Yaml
