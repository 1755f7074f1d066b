import Multilevel.Yaml.Token

/-!
# Layout

The tokens of a YAML text, with those that only its layout shows. A block begins where a token
stands further right than the blocks around it, and ends where one stands further left. A key is
seen only at the colon behind it, so each place where one may begin is remembered until then.
-/
namespace Multilevel.Yaml

/-- A place where a key may have begun. -/
structure Candidate where
  index : Nat
  line : Nat
  column : Nat
  /-- Whether nothing but a key can stand there. -/
  isRequired : Bool
  deriving DecidableEq, Repr

structure Layout where
  tokens : Array Token := #[]
  blocks : List Nat := []
  candidate : Option Candidate := none
  /-- The candidates outside of the open brackets, innermost first. -/
  outer : List (Option Candidate) := []
  /-- Whether a key may begin at the next token. -/
  mayBegin : Bool := true

namespace Layout

def inFlow (l : Layout) : Bool := !l.outer.isEmpty

def emit (l : Layout) (t : Token) : Layout := { l with tokens := l.tokens.push t }

/-! ### Blocks -/

/-- Opens a block at a column, unless one is open there, and puts its token in front of others. -/
def openBlock (l : Layout) (column index : Nat) (t : Token) : Layout :=
  if !l.inFlow && l.blocks.head?.all (· < column) then
    { l with blocks := column :: l.blocks, tokens := l.tokens.insertIdxIfInBounds index t }
  else l

def closeBlocks (l : Layout) (ends : Nat → Bool) : Layout :=
  if l.inFlow then l
  else
    let blocks := l.blocks.dropWhile ends
    { l with
      blocks
      tokens := l.tokens ++ Array.replicate (l.blocks.length - blocks.length) .blockEnd }

/-- Opens a block for an element or entry at a column, where one may begin. -/
def enter? (l : Layout) (column : Nat) (t : Token) : Option Layout :=
  if l.inFlow then some l
  else if l.mayBegin then some (l.openBlock column l.tokens.size t)
  else none

/-! ### Keys -/

def forget? (l : Layout) : Option Layout :=
  if l.candidate.any (·.isRequired) then none else some { l with candidate := none }

def suggest? (l : Layout) (s : Spot) : Option Layout :=
  if l.mayBegin then do
    let l ← l.forget?
    let isRequired := !l.inFlow && l.blocks.head? = some s.column
    return { l with candidate := some ⟨l.tokens.size, s.line, s.column, isRequired⟩ }
  else some l

/-- The greatest length of a key and the blanks behind it. -/
def maxKey : Nat := 1024

/-- A candidate, if a colon at a place can still make it a key. -/
def fresh? (s : Spot) : Option Candidate → Option (Option Candidate)
  | none => some none
  | some c =>
    if c.line < s.line || c.column + maxKey < s.column then
      if c.isRequired then none else some none
    else some (some c)

def expire? (l : Layout) (s : Spot) : Option Layout := do
  return { l with candidate := ← fresh? s l.candidate, outer := ← l.outer.mapM (fresh? s) }

def value? (l : Layout) (s : Spot) : Option Layout :=
  match l.candidate with
  | some c =>
    let l := { l with tokens := l.tokens.insertIdxIfInBounds c.index .key }
    some ({ l.openBlock c.column c.index .blockMap with
      candidate := none, mayBegin := false }.emit .value)
  | none => do
    let l ← l.enter? s.column .blockMap
    return { l with mayBegin := !l.inFlow }.emit .value

/-! ### Tokens -/

def openFlow? (l : Layout) (s : Spot) (t : Token) : Option Layout := do
  let l ← l.suggest? s
  return { l with candidate := none, outer := l.candidate :: l.outer, mayBegin := true }.emit t

def closeFlow? (l : Layout) (t : Token) : Option Layout := do
  let l ← l.forget?
  match l.outer with
  | [] => return { l with mayBegin := false }.emit t
  | candidate :: outer => return { l with candidate, outer, mayBegin := false }.emit t

/-- A token that begins no key, and whether the next one may. -/
def mark? (l : Layout) (mayBegin : Bool) (t : Token) : Option Layout := do
  return { ← l.forget? with mayBegin }.emit t

def outermost? (l : Layout) (t : Token) : Option Layout :=
  (l.closeBlocks fun _ => true).mark? false t

def indicators : List Char := "-?:,[]\x7b\x7d#&*!|>'\"%@`".toList

/-- Whether a plain scalar may begin with a character, in front of some text. -/
def beginsPlain (inFlow : Bool) (c : Char) (rest : List Spot) : Bool :=
  (!isSpace c && !indicators.contains c)
    || (c = '-' && !rest.head?.any (isSpace ·.char))
    || (!inFlow && (c = '?' || c = ':') && !endsWord rest)

def scalar? (l : Layout) (s : Spot) (rest : List Spot) : Option (Layout × List Spot) := do
  let l ← l.suggest? s
  if s.char = '\'' then
    let (text, rest) ← singleQuoted? .empty rest
    return ({ l with mayBegin := false }.emit (.scalar .quoted text), rest)
  else if s.char = '"' then
    let (text, rest) ← doubleQuoted? .outside .empty rest
    return ({ l with mayBegin := false }.emit (.scalar .quoted text), rest)
  else if beginsPlain l.inFlow s.char rest then
    let (text, gap, rest) ← plain? l.inFlow (l.blocks.head?.elim 0 (· + 1)) .empty (s :: rest)
    return ({ l with mayBegin := gap.isBroken }.emit (.scalar .plain text), rest)
  else none

def property? (l : Layout) (s : Spot) (rest : List Spot) : Option (Layout × List Spot) := do
  let l ← l.suggest? s
  let (t, rest) ←
    if s.char = '*' then (name? rest).map fun (name, rest) => (Token.alias name, rest)
    else if s.char = '&' then (name? rest).map fun (name, rest) => (.anchor name, rest)
    else (tag? l.inFlow (s :: rest)).map fun (t, rest) => (.tag t, rest)
  return ({ l with mayBegin := false }.emit t, rest)

def token? (l : Layout) (s : Spot) (rest : List Spot) : Option (Layout × List Spot) :=
  let behind (l : Option Layout) : Option (Layout × List Spot) := l.map (·, rest)
  if s.column = 0 && s.char = '%' then do
    let (t, rest) ← directive? rest
    return (← l.outermost? t, rest)
  else if isMark '-' (s :: rest) then (l.outermost? .documentStart).map (·, rest.drop 2)
  else if isMark '.' (s :: rest) then (l.outermost? .documentEnd).map (·, rest.drop 2)
  else
    match s.char with
    | '[' => behind (l.openFlow? s .flowList)
    | '\x7b' => behind (l.openFlow? s .flowMap)
    | ']' => behind (l.closeFlow? .flowListEnd)
    | '\x7d' => behind (l.closeFlow? .flowMapEnd)
    | ',' => behind (l.mark? true .comma)
    | c =>
      if c = '-' && endsWord rest then
        behind ((l.enter? s.column .blockList).bind (·.mark? true .element))
      else if c = '?' && (l.inFlow || endsWord rest) then
        behind ((l.enter? s.column .blockMap).bind (·.mark? (!l.inFlow) .key))
      else if c = ':' && (l.inFlow || endsWord rest) then behind (l.value? s)
      else if c = '*' || c = '&' || c = '!' then l.property? s rest
      else if (c = '|' || c = '>') && !l.inFlow then do
        let (text, rest) ← block? (c = '>') l.blocks.head? rest
        let style := if c = '>' then .folded else .literal
        return (← l.mark? true (.scalar style text), rest)
      else l.scalar? s rest

/-- Skips blanks, comments and line breaks. Behind a line break a key may begin; tabs count as
blanks only where none may. -/
def skip (inFlow : Bool) (mayBegin isComment : Bool) : List Spot → Bool × List Spot
  | [] => (mayBegin, [])
  | s :: rest =>
    if isBreak s.char then skip inFlow (mayBegin || !inFlow) false rest
    else if isComment || s.char = '#' then skip inFlow mayBegin true rest
    else if s.char = ' ' || (s.char = '\t' && (inFlow || !mayBegin))
        || (s.char = '\ufeff' && s.column = 0) then
      skip inFlow mayBegin false rest
    else (mayBegin, s :: rest)

/-- Reads all tokens. The first argument bounds their number. -/
def read? : Nat → Layout → List Spot → Option (List Token)
  | 0, _, _ => none
  | steps + 1, l, text =>
    match skip l.inFlow l.mayBegin false text with
    | (_, []) => do return (← (l.closeBlocks fun _ => true).forget?).tokens.toList
    | (mayBegin, s :: rest) => do
      let l ← { l with mayBegin }.expire? s
      let (l, rest) ← (l.closeBlocks (s.column < ·)).token? s rest
      read? steps l rest

end Layout

def tokens? (text : List Char) : Option (List Token) := do
  Layout.read? (text.length + 1) {} (← spots? text)

end Multilevel.Yaml
