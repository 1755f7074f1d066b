import Multilevel.Hypergraph.Parallel

/-!
# Binary snapshots

A graph as bytes: the factors, the node weights, and the members and weights of the edges. A
number takes eight bytes, the least significant first, and a list is its length and then its
elements. Reading builds the graph anew through the checks of its construction.
-/
namespace Multilevel

class Stored (α : Type) where
  bits : α → UInt64
  ofBits : UInt64 → α

instance : Stored Float where
  bits := Float.toBits
  ofBits := Float.ofBits

namespace Snapshot

variable {α β : Type}

/-! ### Writing -/

/-- The lowest `count` bytes of a number, the lowest first. -/
def littleEndian : Nat → Nat → List UInt8
  | 0, _ => []
  | count + 1, n => UInt8.ofNat n :: littleEndian count (n / 256)

def natBytes (n : Nat) : List UInt8 := littleEndian 8 n

def scalarBytes [Stored α] (x : α) : List UInt8 := natBytes (Stored.bits x).toNat

def listBytes (write : β → List UInt8) (elements : List β) : List UInt8 :=
  natBytes elements.length ++ elements.flatMap write

def edgeBytes [Stored α] (e : Edge α) : List UInt8 :=
  listBytes natBytes e.members ++ listBytes scalarBytes e.weights

def write [Stored α] (g : Hypergraph α) : List UInt8 :=
  listBytes scalarBytes g.factors.node ++ listBytes scalarBytes g.factors.edge
    ++ listBytes (fun n => listBytes scalarBytes n.weights) g.nodes
    ++ listBytes edgeBytes g.edges

/-! ### Reading -/

/-- A reader of bytes. It takes what it needs and returns the rest, or fails. -/
abbrev Reader (β : Type) := StateT (List UInt8) Option β

def readLittleEndian : Nat → Reader Nat
  | 0 => pure 0
  | count + 1 => do
    match ← get with
    -- a length may promise more than there is
    | [] => failure
    | b :: rest =>
      set rest
      return b.toNat + 256 * (← readLittleEndian count)

def readNat : Reader Nat := readLittleEndian 8

def readScalar [Stored α] : Reader α := do return Stored.ofBits (UInt64.ofNat (← readNat))

def readTimes (read : Reader β) : Nat → Reader (List β)
  | 0 => pure []
  | n + 1 => do
    let first ← read
    return first :: (← readTimes read n)

def readList (read : Reader β) : Reader (List β) := do readTimes read (← readNat)

def readEdge [Stored α] : Reader (Edge α) := do
  let members ← readList readNat
  return ⟨← readList readScalar, members⟩

structure Content (α : Type) where
  factors : Factors α
  nodes : List (List α)
  edges : List (Edge α)

def readContent [Stored α] : Reader (Content α) := do
  let node ← readList readScalar
  let edge ← readList readScalar
  let nodes ← readList (readList readScalar)
  return ⟨⟨node, edge⟩, nodes, ← readList readEdge⟩

/-- The graph of a snapshot. Bytes after its end are ignored. -/
def read [Stored α] (bytes : List UInt8) : Except Fault (Hypergraph α) :=
  match readContent.run bytes with
  | none => .error (.undecodable .bytes)
  | some (content, _) => Hypergraph.assemble content.factors content.nodes content.edges

end Snapshot
end Multilevel
