import Multilevel.Level.Coarsen
import Multilevel.Grid

/-!
# Transfer between levels

Results found on a child, a partition or locations, are carried to the nodes of the parent that
the child's nodes stand for; a partition of the parent is carried to the child where the parents
of a node agree.
-/
namespace Multilevel.Level

variable {α β : Type}

def checkLength (what : Carried) (expected actual : Nat) : Except Fault Unit :=
  if expected = actual then .ok () else .error (.lengthMismatch what expected actual)

/-- The parent of a child whose result has the length of its node count. -/
def target (l : Level α) (length : Nat) : Except Fault (Level α) :=
  match l with
  | root _ => .error .rootGraph
  | child t parent => do
    checkLength .childResult t.graph.nodeCount length
    return parent

/-- Writes the value of each node over the values of the nodes it stands for. -/
def spread (origins : List Origin) (values target : List β) : List β :=
  (origins.zip values).foldl
    (fun target (origin, value) => origin.parents.foldl (fun t n => t.set n value) target) target

/-- Writes a result of a child over a result of its parent. Parent nodes that no child node stands
for keep their value. -/
def writeBack (l : Level α) (what : Carried) (values target : List β) :
    Except Fault (List β) := do
  -- the length of the child's result is checked before that of the target
  let parent ← l.target values.length
  checkLength what parent.graph.nodeCount target.length
  return spread l.origins values target

def writeBackPartition (l : Level α) (p target : Partition) : Except Fault Partition :=
  l.writeBack .parentPartition p target

def writeBackLocations (l : Level α) (locations target : List Location) :
    Except Fault (List Location) :=
  l.writeBack .parentLocations locations target

/-- The partition of the parent that follows from one of a child. Parent nodes that no child node
stands for have no block. -/
def expand (l : Level α) (p : Partition) : Except Fault Partition := do
  let parent ← l.target p.length
  return spread l.origins p (List.replicate parent.graph.nodeCount none)

def expandLocations (l : Level α) (locations : List Location) :
    Except Fault (List (Option Location)) := do
  let parent ← l.target locations.length
  return spread l.origins (locations.map some) (List.replicate parent.graph.nodeCount none)

/-- Takes the block of one more parent into account for a child node. -/
def agree (p : Partition) (child : NodeId) (held : Option BlockId) (parent : NodeId) :
    Except Fault (Option BlockId) :=
  match held, p.block? parent with
  | held, none => .ok held
  | none, some met => .ok (some met)
  | some held, some met =>
    if held = met then .ok (some held)
    else .error (.inconsistentPartition child parent (held, met))

/-- The partition of a child that follows from one of its parent. Each node has the block of those
of its parents that have one. -/
def restrict (l : Level α) (p : Partition) : Except Fault Partition :=
  match l with
  | root _ => .error .rootGraph
  | child t parent => do
    checkLength .parentPartition parent.graph.nodeCount p.length
    t.origins.zipIdx.mapM fun (origin, n) => origin.parents.foldlM (agree p n) none

end Multilevel.Level
