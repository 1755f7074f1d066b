import Multilevel.Yaml.Layout

namespace Multilevel.Yaml

/-- A value. Anchors are numbers: the first name has zero, and a name that is used again gets the
number that a new one would have. -/
inductive Node
  | alias (anchor : Nat)
  | scalar (anchor : Option Nat) (tag : Option (List Char)) (style : Style) (text : List Char)
  | list (anchor : Option Nat) (elements : List Node)
  | map (anchor : Option Nat) (entries : List (Node × Node))

namespace Node

def empty : Node := .scalar none none .plain []

mutual

/-- The values that an anchor marks, outermost first. -/
def marked (anchor : Nat) : Node → List Node
  | .alias _ => []
  | .scalar a tag style text => if a = some anchor then [.scalar a tag style text] else []
  | .list a elements =>
    (if a = some anchor then [.list a elements] else []) ++ markedElements anchor elements
  | .map a entries =>
    (if a = some anchor then [.map a entries] else []) ++ markedEntries anchor entries

def markedElements (anchor : Nat) : List Node → List Node
  | [] => []
  | v :: rest => marked anchor v ++ markedElements anchor rest

def markedEntries (anchor : Nat) : List (Node × Node) → List Node
  | [] => []
  | (k, v) :: rest => marked anchor k ++ marked anchor v ++ markedEntries anchor rest

end

/-- What an alias in a document stands for: the last value that its anchor marks. -/
def resolve? (document : Node) : Node → Option Node
  | .alias anchor => (document.marked anchor).getLast?
  | v => some v

end Node

/-! ### From tokens to values -/

structure Reading where
  tokens : List Token
  /-- The names of anchors with their numbers, each once. -/
  anchors : List (List Char × Nat) := []
  handles : List (List Char × List Char)

structure Properties where
  anchor : Option Nat := none
  tag : Option (List Char) := none

namespace Reading

def behind (r : Reading) (tokens : List Token) : Reading := { r with tokens }

def mark (r : Reading) (name : List Char) : Nat × Reading :=
  let number := r.anchors.length
  (number, { r with anchors := (name, number) :: r.anchors.filter (·.1 ≠ name) })

def tagText? (r : Reading) (t : Tag) : Option (List Char) :=
  if t.handle.isEmpty then some t.suffix
  else (r.handles.lookup t.handle).map (· ++ t.suffix)

/-- An anchor and a tag in either order, each if there is one. -/
def properties? (r : Reading) : Option (Properties × Reading) :=
  let tagged (tag : Option Tag) (name : Option (List Char)) (rest : List Token) := do
    let tag ← match tag with
      | some t => (r.tagText? t).map some
      | none => some none
    match name with
    | some name =>
      let (anchor, r) := (r.behind rest).mark name
      return (⟨some anchor, tag⟩, r)
    | none => return (⟨none, tag⟩, r.behind rest)
  match r.tokens with
  | .anchor name :: .tag t :: rest => tagged (some t) (some name) rest
  | .anchor name :: rest => tagged none (some name) rest
  | .tag t :: .anchor name :: rest => tagged (some t) (some name) rest
  | .tag t :: rest => tagged (some t) none rest
  | tokens => some ({}, r.behind tokens)

def sees (r : Reading) (stops : List Token) : Bool := r.tokens.head?.any (stops.contains ·)

mutual

/-- A value. In a block there are blocks; behind a key a list need not be indented. The first
argument bounds the steps. -/
def node? : Nat → Bool → Bool → Reading → Option (Node × Reading)
  | 0, _, _, _ => none
  | steps + 1, inBlock, isFlush, r => do
    if let .alias name :: rest := r.tokens then
      return (.alias (← r.anchors.lookup name), r.behind rest)
    let (p, r) ← r.properties?
    match r.tokens with
    | .scalar style text :: rest => return (.scalar p.anchor p.tag style text, r.behind rest)
    | .flowList :: rest =>
      let (elements, r) ← flowElements? steps true (r.behind rest)
      return (.list p.anchor elements, r)
    | .flowMap :: rest =>
      let (entries, r) ← flowEntries? steps true (r.behind rest)
      return (.map p.anchor entries, r)
    | .element :: _ =>
      if isFlush then
        let (elements, r) ← flushElements? steps r
        return (.list p.anchor elements, r)
      else bare? p r
    | .blockList :: rest =>
      if inBlock then
        let (elements, r) ← blockElements? steps (r.behind rest)
        return (.list p.anchor elements, r)
      else bare? p r
    | .blockMap :: rest =>
      if inBlock then
        let (entries, r) ← blockEntries? steps (r.behind rest)
        return (.map p.anchor entries, r)
      else bare? p r
    | _ => bare? p r

def bare? (p : Properties) (r : Reading) : Option (Node × Reading) :=
  if p.anchor.isSome || p.tag.isSome then some (.scalar p.anchor p.tag .plain [], r) else none

def nodeBefore? : Nat → List Token → Bool → Bool → Reading → Option (Node × Reading)
  | 0, _, _, _, _ => none
  | steps + 1, stops, inBlock, isFlush, r =>
    if r.sees stops then some (.empty, r) else node? steps inBlock isFlush r

def blockElements? : Nat → Reading → Option (List Node × Reading)
  | 0, _ => none
  | steps + 1, r =>
    match r.tokens with
    | .blockEnd :: rest => some ([], r.behind rest)
    | .element :: rest => do
      let (v, r) ← nodeBefore? steps [.element, .blockEnd] true false (r.behind rest)
      let (others, r) ← blockElements? steps r
      return (v :: others, r)
    | _ => none

def flushElements? : Nat → Reading → Option (List Node × Reading)
  | 0, _ => none
  | steps + 1, r =>
    match r.tokens with
    | .element :: rest => do
      let stops := [.element, .key, .value, .blockEnd]
      let (v, r) ← nodeBefore? steps stops true false (r.behind rest)
      let (others, r) ← flushElements? steps r
      return (v :: others, r)
    | _ => some ([], r)

def blockEntries? : Nat → Reading → Option (List (Node × Node) × Reading)
  | 0, _ => none
  | steps + 1, r =>
    match r.tokens with
    | .blockEnd :: rest => some ([], r.behind rest)
    | .key :: rest => do
      let stops := [.key, .value, .blockEnd]
      let (k, r) ← nodeBefore? steps stops true true (r.behind rest)
      let (v, r) ← match r.tokens with
        | .value :: rest => nodeBefore? steps stops true true (r.behind rest)
        | _ => some (.empty, r)
      let (others, r) ← blockEntries? steps r
      return ((k, v) :: others, r)
    | _ => none

/-- The elements of a list in brackets. All but the first one have a comma in front, and a comma
may stand at the end. -/
def flowElements? : Nat → Bool → Reading → Option (List Node × Reading)
  | 0, _, _ => none
  | steps + 1, isFirst, r =>
    match r.tokens, isFirst with
    | .flowListEnd :: rest, _ => some ([], r.behind rest)
    | .comma :: rest, false =>
      if rest.head? = some .flowListEnd then some ([], r.behind (rest.drop 1))
      else flowElement? steps (r.behind rest)
    | _, true => flowElement? steps r
    | _, false => none

/-- An element in brackets and those behind it. A pair alone is a map. -/
def flowElement? : Nat → Reading → Option (List Node × Reading)
  | 0, _ => none
  | steps + 1, r => do
    let (v, r) ← match r.tokens with
      | .key :: rest => do
        let r := r.behind rest
        let stops := [.comma, .flowListEnd]
        -- a token that leaves the key out is taken for it
        let (k, r) ←
          if r.sees (.value :: stops) then some (.empty, r.behind (rest.drop 1))
          else node? steps false false r
        let (v, r) ← match r.tokens with
          | .value :: rest => nodeBefore? steps stops false false (r.behind rest)
          | _ => some (.empty, r)
        pure (.map none [(k, v)], r)
      | _ => node? steps false false r
    let (others, r) ← flowElements? steps false r
    return (v :: others, r)

def flowEntries? : Nat → Bool → Reading → Option (List (Node × Node) × Reading)
  | 0, _, _ => none
  | steps + 1, isFirst, r =>
    match r.tokens, isFirst with
    | .flowMapEnd :: rest, _ => some ([], r.behind rest)
    | .comma :: rest, false =>
      if rest.head? = some .flowMapEnd then some ([], r.behind (rest.drop 1))
      else flowEntry? steps (r.behind rest)
    | _, true => flowEntry? steps r
    | _, false => none

/-- An entry in brackets and those behind it. What has no colon behind it is a key without a
value. -/
def flowEntry? : Nat → Reading → Option (List (Node × Node) × Reading)
  | 0, _ => none
  | steps + 1, r => do
    let (entry, r) ← match r.tokens with
      | .key :: rest => do
        let stops := [.comma, .flowMapEnd]
        let (k, r) ← nodeBefore? steps (.value :: stops) false false (r.behind rest)
        let (v, r) ← match r.tokens with
          | .value :: rest => nodeBefore? steps stops false false (r.behind rest)
          | _ => some (.empty, r)
        pure ((k, v), r)
      | _ => do
        let (k, r) ← node? steps false false r
        pure ((k, .empty), r)
    let (others, r) ← flowEntries? steps false r
    return (entry :: others, r)

end

end Reading

/-! ### Documents -/

/-- The directives of a document: whether its version is given, and its handles. -/
structure Directives where
  hasVersion : Bool := false
  handles : List (List Char × List Char) := []

/-- Reads the directives in front of a document. None may be repeated. -/
def directives? (d : Directives) : List Token → Option (Directives × List Token)
  | .version major minor :: rest =>
    if d.hasVersion || major ≠ 1 || (minor ≠ 1 && minor ≠ 2) then none
    else directives? { d with hasVersion := true } rest
  | .handle name text :: rest =>
    if (d.handles.lookup name).isSome then none
    else directives? { d with handles := d.handles ++ [(name, text)] } rest
  | tokens => some (d, tokens)

def commonHandles : List (List Char × List Char) :=
  [(['!'], ['!']), (['!', '!'], "tag:yaml.org,2002:".toList)]

def endsDocument : List Token → Bool
  | [] => true
  | .version _ _ :: _ => true
  | .handle _ _ :: _ => true
  | .documentStart :: _ => true
  | .documentEnd :: _ => true
  | _ => false

/-- The value of the only document of some tokens; without any there is an empty value. -/
def Node.ofTokens? (tokens : List Token) : Option Node := do
  let steps := 3 * tokens.length + 3
  let read (handles : List (List Char × List Char)) (tokens : List Token) :=
    (Reading.node? steps true false { tokens, handles }).map fun (v, r) => (v, r.tokens)
  let (d, rest) ← directives? {} tokens
  let handles := d.handles ++ commonHandles
  let (document, rest) ←
    match rest with
    | .documentStart :: rest => if endsDocument rest then some (empty, rest) else read handles rest
    | _ =>
      if tokens.isEmpty then some (empty, [])
      -- directives belong to a document that is announced
      else if rest.length < tokens.length then none
      else read handles tokens
  if (rest.dropWhile (· = .documentEnd)).isEmpty then return document else none

end Multilevel.Yaml
