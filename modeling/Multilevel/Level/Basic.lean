import Multilevel.Hypergraph.Basic

/-!
# Levels

A level is a graph with its place in a hierarchy. The root is a graph of its own; a child was made
from a parent level, and each of its nodes knows which nodes of the parent it stands for. A level
is a value: what happens to a root later does not reach the children made from it before.
-/
namespace Multilevel

abbrev Fixed := Dictionary NodeId BlockId

/-- A level apart from those above it. Beside the nodes of its graph run two vectors: the parent
nodes that each node was made from, and whether it is virtual. -/
structure Tier (α : Type) where
  graph : Hypergraph α
  parents : List (List NodeId) := []
  virtual : List Bool := []
  fixed : Fixed := []

/-- What a node stands for. A virtual node is a parent node outside all clusters, kept so that its
hyperedges survive; it weighs nothing. -/
structure Origin where
  parents : List NodeId
  isVirtual : Bool
  deriving DecidableEq, Repr

namespace Tier

variable {α : Type}

def addNode (t : Tier α) (weights : List α) (origin : Origin) : Except Fault (Tier α) := do
  let graph ← t.graph.addNode weights
  return { t with
    graph
    parents := t.parents ++ [origin.parents]
    virtual := t.virtual ++ [origin.isVirtual] }

def addEdge (t : Tier α) (members : List NodeId) (weights : List α) : Except Fault (Tier α) := do
  return { t with graph := ← t.graph.addEdge members weights }

def origins (t : Tier α) : List Origin :=
  t.parents.mapIdx fun n parents => ⟨parents, t.virtual[n]?.getD false⟩

end Tier

inductive Level (α : Type)
  | root (tier : Tier α)
  | child (tier : Tier α) (parent : Level α)

namespace Level

variable {α : Type}

def ofGraph (g : Hypergraph α) : Level α :=
  .root ⟨g, List.replicate g.nodeCount [], List.replicate g.nodeCount false, []⟩

def empty (factors : Factors α) : Except Fault (Level α) := ofGraph <$> Hypergraph.empty factors

def tier : Level α → Tier α
  | root t => t
  | child t _ => t

def graph (l : Level α) : Hypergraph α := l.tier.graph

def fixed (l : Level α) : Fixed := l.tier.fixed

def origins (l : Level α) : List Origin := l.tier.origins

def parent? : Level α → Option (Level α)
  | root _ => none
  | child _ parent => some parent

def depth : Level α → Nat
  | root _ => 0
  | child _ parent => parent.depth + 1

/-- The parent nodes a node stands for, none on a root. -/
def parentsOf (l : Level α) (n : NodeId) : Except Fault (List NodeId) :=
  match l.tier.parents[n]? with
  | some parents => .ok parents
  | none => .error (.unknownNode n)

def isVirtual (l : Level α) (n : NodeId) : Except Fault Bool :=
  match l.tier.virtual[n]? with
  | some virtual => .ok virtual
  | none => .error (.unknownNode n)

def virtualCount (l : Level α) : Nat := l.tier.virtual.count true

/-- The nodes of the root that a node ultimately stands for. -/
def rootsOf : Level α → NodeId → Except Fault (List NodeId)
  | root t, n => do
    let _ ← (root t).parentsOf n
    return [n]
  | child t parent, n => do
    let parents ← (child t parent).parentsOf n
    return (← parents.mapM parent.rootsOf).flatten

def addNode (l : Level α) (weights : List α) : Except Fault (Level α) :=
  match l with
  | root t => root <$> t.addNode weights ⟨[], false⟩
  | child .. => .error (.immutableChild .addNode l.depth)

def addEdge (l : Level α) (members : List NodeId) (weights : List α) : Except Fault (Level α) :=
  match l with
  | root t => root <$> t.addEdge members weights
  | child .. => .error (.immutableChild .addEdge l.depth)

def setFixed (l : Level α) (fixed : Fixed) : Except Fault (Level α) :=
  match fixed.find? (l.graph.nodeCount ≤ ·.1) with
  | some (stranger, _) => .error (.unknownNode stranger)
  | none => match l with
    | root t => .ok (root { t with fixed })
    | child t parent => .ok (child { t with fixed } parent)

end Level
end Multilevel
