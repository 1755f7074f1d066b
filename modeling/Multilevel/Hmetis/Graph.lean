import Multilevel.Hypergraph.Basic
import Multilevel.Text.Source
import Multilevel.Text.Integer
import Multilevel.Decimal.Layout
import Multilevel.Decimal.Reader

/-!
# hMETIS graph files

The header gives the number of hyperedges, the number of nodes, and up to two flags. Then comes a
line for each hyperedge: its weights if the first flag is set, and the numbers of its members,
counted from one. If the second flag is set, a line with the weights of each node follows. Weights
that are not given are one. Anything after that is ignored.
-/
namespace Multilevel

class Numeral (α : Type) where
  text : α → List Char
  read? : List Char → Option α

instance : Numeral Float where
  text := Decimal.plain.text
  read? := Decimal.read?

namespace Hmetis

open Source

variable {α : Type}

/-! ### Reading -/

def token {β : Type} (read : List Char → Option β) (line : Nat) (s : List Char) :
    Except Fault β :=
  match read s with
  | some value => .ok value
  | none => .error (.malformed line (.invalidToken (String.ofList s)))

def natural? (s : List Char) : Option Nat := (Text.natural s).toOption

structure Header where
  edges : Nat
  nodes : Nat
  weighsEdges : Bool
  weighsNodes : Bool
  deriving DecidableEq, Repr

/-- The flags: one or two digits, each `0` or `1`. -/
def flags (line : Nat) (s : List Char) : Except Fault (Bool × Bool) :=
  match s with
  | [a] => if a = '0' ∨ a = '1' then .ok (a = '1', false) else bad
  | [a, b] =>
    if (a = '0' ∨ a = '1') ∧ (b = '0' ∨ b = '1') then .ok (a = '1', b = '1') else bad
  | _ => bad
where
  bad : Except Fault (Bool × Bool) := .error (.malformed line (.malformedFlags (String.ofList s)))

def header (l : Line) : Except Fault Header :=
  match l.words with
  | [e, n] => do
    return ⟨← token natural? l.number e, ← token natural? l.number n, false, false⟩
  | [e, n, f] => do
    let edges ← token natural? l.number e
    let nodes ← token natural? l.number n
    let (weighsEdges, weighsNodes) ← flags l.number f
    return ⟨edges, nodes, weighsEdges, weighsNodes⟩
  | _ => .error (.malformed l.number .malformedHeader)

/-- The node with a number that counts from one. -/
def member (line : Nat) (s : List Char) : Except Fault NodeId := do
  match ← token natural? line s with
  | 0 => .error (.malformed line .zeroNodeId)
  | n + 1 => .ok n

structure EdgeLine (α : Type) where
  line : Nat
  members : List NodeId
  weights : List α

def edgeLine [One α] [Numeral α] (dim : Nat) (weighed : Bool) (l : Line) :
    Except Fault (EdgeLine α) :=
  if weighed then
    if l.words.length < dim then .error (.malformed l.number .missingEdgeWeights)
    else do
      let weights ← (l.words.take dim).mapM (token Numeral.read? l.number)
      return ⟨l.number, ← (l.words.drop dim).mapM (member l.number), weights⟩
  else do
    return ⟨l.number, ← l.words.mapM (member l.number), List.replicate dim 1⟩

def nodeLine [Numeral α] (dim : Nat) (l : Line) : Except Fault (List α) := do
  let weights ← l.words.mapM (token Numeral.read? l.number)
  if weights.length = dim then return weights
  else .error (.malformed l.number (.nodeWeightCount dim weights.length))

/-- Reads a number of content lines alike. `short` is the complaint when they run out. -/
def takeLines {β : Type} (read : Line → Except Fault β) (short : Fault) :
    Nat → List Met → Except Fault (List β × List Met)
  | 0, rest => .ok ([], rest)
  | _ + 1, [] => .error short
  | _ + 1, .unreadable :: _ => .error .notText
  | n + 1, .line l :: rest => do
    let first ← read l
    let (others, rest) ← takeLines read short n rest
    return (first :: others, rest)

def addEdgeLine (g : Hypergraph α) (e : EdgeLine α) : Except Fault (Hypergraph α) :=
  (g.addEdge e.members e.weights).mapError (.onLine e.line)

def readGraph [One α] [Numeral α] (source : Source) (factors : Factors α) :
    Except Fault (Hypergraph α) := do
  let g ← Hypergraph.empty factors
  -- sections that end too early are reported at the end of the file
  let count := source.lines.length
  let (h, rest) ← match source.content with
    | [] => .error (.malformed 0 .missingHeader)
    | .unreadable :: _ => .error .notText
    | .line l :: rest => (fun h => (h, rest)) <$> header l
  let (edges, rest) ←
    takeLines (edgeLine g.edgeDim h.weighsEdges) (.malformed count .truncatedEdges) h.edges rest
  let (nodes, rest) ←
    if h.weighsNodes then
      takeLines (nodeLine g.nodeDim) (.malformed count .truncatedNodes) h.nodes rest
    else .ok (List.replicate h.nodes (List.replicate g.nodeDim 1), rest)
  -- edges are added once all lines are read: a malformed line is reported before a bad edge
  let g ← nodes.foldlM Hypergraph.addNode g
  let g ← edges.foldlM addEdgeLine g
  -- what follows is ignored, but the first line of it has to be a text
  match rest with
  | .unreadable :: _ => .error .notText
  | _ => return g

/-! ### Writing -/

def lineText (words : List (List Char)) : List Char := [' '].intercalate words ++ ['\n']

def edgeText [Numeral α] (e : Edge α) : List Char :=
  lineText (e.weights.map Numeral.text ++ e.members.map fun m => Nat.toDigits 10 (m + 1))

def nodeText [Numeral α] (n : Node α) : List Char := lineText (n.weights.map Numeral.text)

/-- The file of a graph as characters. Both flags are always set. -/
def graphText [Numeral α] (g : Hypergraph α) : List Char :=
  lineText [Nat.toDigits 10 g.edgeCount, Nat.toDigits 10 g.nodeCount, ['1', '1']]
    ++ g.edges.flatMap edgeText ++ g.nodes.flatMap nodeText

def writeGraph [Numeral α] (g : Hypergraph α) : String := String.ofList (graphText g)

end Hmetis
end Multilevel
