import Multilevel.Yaml.Spot
import Multilevel.Text.Digit

/-!
# Scalars

A scalar is plain, between quotes, or a block of lines. Between the words of a plain or quoted
scalar line breaks are folded: one alone becomes a space, and of several the first is dropped.
Blocks keep their lines or fold them.
-/
namespace Multilevel.Yaml

/-! ### Gaps between words -/

/-- What stands between two words: blanks of one line, or line breaks. The first break may have
been escaped; then it does not count. -/
inductive Gap
  | blanks (s : List Char)
  | breaks (first : Option Char) (more : List Char)
  deriving DecidableEq, Repr

namespace Gap

def empty : Gap := .blanks []

def isEmpty : Gap → Bool
  | blanks s => s.isEmpty
  | breaks _ _ => false

def isBroken : Gap → Bool
  | blanks _ => false
  | breaks _ _ => true

/-- The gap with another blank or break. Blanks next to a break do not count. -/
def add (c : Char) : Gap → Gap
  | blanks s => if isBreak c then breaks (some c) [] else blanks (s ++ [c])
  | breaks first more => breaks first (if isBreak c then more ++ [c] else more)

def text : Gap → List Char
  | blanks s => s
  | breaks (some '\n') [] => [' ']
  | breaks (some '\n') more => more
  | breaks first more => first.toList ++ more

end Gap

/-! ### Plain scalars -/

def isFlowMark (c : Char) : Bool :=
  c = ',' || c = '[' || c = ']' || c = '\x7b' || c = '\x7d'

/-- Whether a plain scalar ends before what follows: at a colon that ends a key, and in brackets
at a mark. -/
def endsPlain (inFlow : Bool) : List Spot → Bool
  | [] => true
  | s :: rest => (s.char = ':' && endsWord rest) || (inFlow && isFlowMark s.char)

/-- Whether a colon in brackets stands before a character that makes it neither the end of a key
nor a part of a scalar. -/
def isStrayColon : List Spot → Bool
  | s :: n :: _ => s.char = ':' && (isFlowMark n.char || n.char = '?')
  | _ => false

/-- Whether a plain scalar ends behind a gap: at a mark of a document, a comment, or a line that is
not indented. -/
def endsLines (inFlow : Bool) (least : Nat) (s : List Spot) : Bool :=
  isDocumentMark s || beginsWith '#' s || (!inFlow && s.head?.any (·.column < least))

/-- The rest of a plain scalar behind a gap, the last gap, and what follows. Lines that go on with
it are indented to some column at least. -/
def plain? (inFlow : Bool) (least : Nat) (gap : Gap) :
    List Spot → Option (List Char × Gap × List Spot)
  | [] => some ([], gap, [])
  | s :: rest =>
    if isSpace s.char || isBreak s.char then
      if s.char = '\t' && gap.isBroken && s.column < least then none
      else plain? inFlow least (gap.add s.char) rest
    else if !gap.isEmpty && endsLines inFlow least (s :: rest) then some ([], gap, s :: rest)
    else if inFlow && isStrayColon (s :: rest) then none
    else if endsPlain inFlow (s :: rest) then some ([], gap, s :: rest)
    else do
      let (text, last, rest) ← plain? inFlow least .empty rest
      return (gap.text ++ s.char :: text, last, rest)

/-! ### Quoted scalars -/

/-- The rest of a scalar between single quotes behind a gap, and what follows. A doubled quote
stands for one. -/
def singleQuoted? (gap : Gap) : List Spot → Option (List Char × List Spot)
  | [] => none
  | s :: rest =>
    if isDocumentMark (s :: rest) then none
    else if isSpace s.char || isBreak s.char then singleQuoted? (gap.add s.char) rest
    else if s.char = '\'' then
      match rest with
      | n :: rest' =>
        if n.char = '\'' then do
          let (text, rest) ← singleQuoted? .empty rest'
          return (gap.text ++ '\'' :: text, rest)
        else some (gap.text, rest)
      | [] => some (gap.text, [])
    else do
      let (text, rest) ← singleQuoted? .empty rest
      return (gap.text ++ s.char :: text, rest)

def escape? : Char → Option Char
  | '0' => some '\x00'
  | 'a' => some '\x07'
  | 'b' => some '\x08'
  | 't' => some '\t'
  | '\t' => some '\t'
  | 'n' => some '\n'
  | 'v' => some '\x0b'
  | 'f' => some '\x0c'
  | 'r' => some '\r'
  | 'e' => some '\x1b'
  | ' ' => some ' '
  | '"' => some '"'
  | '/' => some '/'
  | '\\' => some '\\'
  | 'N' => some '\x85'
  | '_' => some '\xa0'
  | 'L' => some '\u2028'
  | 'P' => some '\u2029'
  | _ => none

def codeLength? : Char → Option Nat
  | 'x' => some 2
  | 'u' => some 4
  | 'U' => some 8
  | _ => none

/-- What a reader of a scalar between double quotes is in the middle of. -/
inductive Escape
  | outside
  | begun
  /-- In a code point: the digits to come, and the value of those before. -/
  | code (digits value : Nat)

def charOf? (n : Nat) : Option Char :=
  if n < 0xd800 ∨ (0xdfff < n ∧ n ≤ 0x10ffff) then some (.ofNat n) else none

def doubleQuoted? (escape : Escape) (gap : Gap) : List Spot → Option (List Char × List Spot)
  | [] => none
  | s :: rest =>
    match escape with
    | .begun =>
      -- a line break behind a backslash does not count
      if isBreak s.char then doubleQuoted? .outside (.breaks none []) rest
      else match escape? s.char, codeLength? s.char with
        | some c, _ => do
          let (text, rest) ← doubleQuoted? .outside .empty rest
          return (c :: text, rest)
        | none, some digits => doubleQuoted? (.code digits 0) .empty rest
        | none, none => none
    | .code digits value => do
      let value := value * 16 + (← Text.hexDigit? s.char)
      if digits ≤ 1 then
        let c ← charOf? value
        let (text, rest) ← doubleQuoted? .outside .empty rest
        return (c :: text, rest)
      else doubleQuoted? (.code (digits - 1) value) .empty rest
    | .outside =>
      if isDocumentMark (s :: rest) then none
      else if isSpace s.char || isBreak s.char then doubleQuoted? .outside (gap.add s.char) rest
      else if s.char = '"' then some (gap.text, rest)
      else if s.char = '\\' then do
        let (text, rest) ← doubleQuoted? .begun .empty rest
        return (gap.text ++ text, rest)
      else do
        let (text, rest) ← doubleQuoted? .outside .empty rest
        return (gap.text ++ s.char :: text, rest)

/-! ### Blocks of lines -/

/-- Which line breaks at the end of a block count: none, the first, or all. -/
inductive Ending
  | strip | clip | keep
  deriving DecidableEq, Repr

/-- What stands in front of a block: how it ends and how much deeper than its surroundings it is
indented, unless its first line shows that. -/
structure Header where
  ending : Ending
  depth : Option Nat

def takeEnding (s : List Spot) : Option Ending × List Spot :=
  if beginsWith '+' s then (some .keep, s.drop 1)
  else if beginsWith '-' s then (some .strip, s.drop 1)
  else (none, s)

def takeDepth? : List Spot → Option (Option Nat × List Spot)
  | [] => some (none, [])
  | s :: rest =>
    if s.char = '0' then none
    else if s.char.isDigit then some (some (s.char.toNat - '0'.toNat), rest)
    else some (none, s :: rest)

def header? (s : List Spot) : Option (Header × List Spot) := do
  let (ending, s) := takeEnding s
  let (depth, s) ← takeDepth? s
  let (ending, s) := if ending.isSome then (ending, s) else takeEnding s
  return (⟨ending.getD .clip, depth⟩, ← lineEnd? s)

def splitLines : List Spot → List (List Spot)
  | [] => []
  | s :: rest =>
    if isBreak s.char then [s] :: splitLines rest
    else match splitLines rest with
      | [] => [[s]]
      | line :: lines => (s :: line) :: lines

/-- The indentation of the first line that says something, or of a longer one before it. No tab
may follow it. -/
def depth? : List (List Spot) → Option Nat
  | [] => some 0
  | line :: lines =>
    let content := line.dropWhile (·.char = ' ')
    let depth := line.length - content.length
    match content with
    | [] => some depth
    | s :: _ =>
      if s.char = '\t' then none
      else if isBreak s.char then (depth? lines).map (max depth)
      else some depth

def unindent (depth : Nat) (line : List Spot) : List Spot :=
  line.drop (min depth (line.takeWhile (·.char = ' ')).length)

structure Block where
  text : List Char := []
  /-- The break of the last line that says something. -/
  last : Option Char := none
  /-- The breaks of the lines behind it. -/
  more : List Char := []
  /-- Whether that line begins with a blank. -/
  isIndented : Bool := false

/-- The block with another line. Folding joins lines that do not begin with blanks. -/
def Block.addLine (b : Block) (folds : Bool) (line : List Spot) : Block :=
  let isIndented := line.head?.any (isSpace ·.char)
  let joint :=
    if folds && b.last = some '\n' && !b.isIndented && !isIndented then
      if b.more.isEmpty then [' '] else []
    else b.last.toList
  { text := b.text ++ joint ++ b.more ++ (spanChars (!isBreak ·) line).1
    last := (line.find? (isBreak ·.char)).map Spot.char
    isIndented }

def blockLines? (folds : Bool) (depth : Nat) (b : Block) :
    List (List Spot) → Option (Block × List Spot)
  | [] => some (b, [])
  | line :: lines =>
    let content := unindent depth line
    match content with
    | [] => some (b, lines.flatten)
    | s :: _ =>
      if s.char = '\t' && s.column < depth then none
      else if isBreak s.char then
        blockLines? folds depth { b with more := b.more ++ [s.char] } lines
      else if s.column < depth then some (b, content ++ lines.flatten)
      else blockLines? folds depth (b.addLine folds content) lines

/-- A block, from its header on, and what follows. It is indented more deeply than the block that
it stands in. -/
def block? (folds : Bool) (outer : Option Nat) (s : List Spot) :
    Option (List Char × List Spot) := do
  let (header, rest) ← header? s
  let lines := splitLines rest
  let depth ← match header.depth with
    | some depth => pure (outer.getD 0 + depth)
    | none => (depth? lines).map fun depth => max depth (max 1 (outer.elim 0 (· + 1)))
  let (b, rest) ← blockLines? folds depth {} lines
  match header.ending with
  | .strip => return (b.text, rest)
  | .clip => return (b.text ++ b.last.toList, rest)
  | .keep => return (b.text ++ b.last.toList ++ b.more, rest)

end Multilevel.Yaml
