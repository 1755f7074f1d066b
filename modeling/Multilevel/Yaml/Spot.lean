/-!
# Characters in place

A YAML text is a list of characters, each with its line and column, which tell how blocks are
nested. Line breaks of all kinds count as line feeds, but the separators of lines and of paragraphs
stay what they are.
-/
namespace Multilevel.Yaml

/-- A character and where it stands. Lines and columns count from zero. -/
structure Spot where
  char : Char
  line : Nat
  column : Nat
  deriving DecidableEq, Repr

def isBreak (c : Char) : Bool := c = '\n' || c = '\u2028' || c = '\u2029'

def isSpace (c : Char) : Bool := c = ' ' || c = '\t'

/-- Whether a character may stand in a text: controls other than tabs and line breaks may not. -/
def isAllowed (c : Char) : Bool :=
  let n := c.toNat
  n = 0x9 || n = 0xa || n = 0xd || (0x20 ≤ n && n ≤ 0x7e) || n = 0x85
    || (0xa0 ≤ n && n ≤ 0xfffd) || 0x10000 ≤ n

def unifyBreaks : List Char → List Char
  | [] => []
  | '\r' :: '\n' :: rest => '\n' :: unifyBreaks rest
  | c :: rest => (if c = '\r' ∨ c = '\x85' then '\n' else c) :: unifyBreaks rest

def place (line column : Nat) : List Char → List Spot
  | [] => []
  | c :: rest =>
    ⟨c, line, column⟩ :: if isBreak c then place (line + 1) 0 rest else place line (column + 1) rest

/-- The characters of a text in place, if all of them may stand in one. -/
def spots? (text : List Char) : Option (List Spot) :=
  if text.all isAllowed then some (place 0 0 (unifyBreaks text)) else none

/-! ### What follows -/

def beginsWith (c : Char) (s : List Spot) : Bool := s.head?.any (·.char = c)

/-- Whether a word ends here, before a blank or a line break or at the end of the text. -/
def endsWord (s : List Spot) : Bool := s.head?.all fun s => isSpace s.char || isBreak s.char

/-- Whether a line begins with a word of three equal characters. -/
def isMark (c : Char) : List Spot → Bool
  | s₁ :: s₂ :: s₃ :: rest =>
    s₁.column = 0 && s₁.char = c && s₂.char = c && s₃.char = c && endsWord rest
  | _ => false

/-- Whether a document begins or ends here. -/
def isDocumentMark (s : List Spot) : Bool := isMark '-' s || isMark '.' s

def skipSpaces (s : List Spot) : List Spot := s.dropWhile (isSpace ·.char)

/-- What follows a line that says nothing more, except for a comment. -/
def lineEnd? (s : List Spot) : Option (List Spot) :=
  let s := skipSpaces s
  match if beginsWith '#' s then s.dropWhile (!isBreak ·.char) else s with
  | [] => some []
  | s :: rest => if isBreak s.char then some rest else none

def spanChars (p : Char → Bool) (s : List Spot) : List Char × List Spot :=
  ((s.takeWhile (p ·.char)).map Spot.char, s.dropWhile (p ·.char))

end Multilevel.Yaml
