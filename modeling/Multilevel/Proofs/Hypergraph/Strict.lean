import Multilevel.Hypergraph.Adjacency
import Multilevel.Hypergraph.Cut
import Multilevel.Hypergraph.Overview
import Multilevel.Hypergraph.Parallel
import Multilevel.Proofs.Results

/-!
# Unchecked lookups

Some queries look up an entry without asking whether there is one: the block of a member, the row
of a block, an entry of a weight vector, a table of a search. Here these queries are spelled out with
each such lookup as a step that may miss, with the number of blocks as one that may outgrow a machine
word, and with the search as a loop over a queue that may go on for too long.
-/
namespace Multilevel.Hypergraph

/-- What can end a query early. -/
inductive Stop
  | fault (f : Fault)
  | missing (index length : Nat)
  | overflow (n : Nat)
  /-- More steps are needed than were granted. -/
  | unfinished

namespace Strict

variable {α β γ : Type}

/-- A computation that stops with nothing but the faults it reports. -/
def reported (x : Except Fault β) : Except Stop β := x.mapError .fault

def lookup (xs : List β) (i : Nat) : Except Stop β :=
  match xs[i]? with
  | some x => .ok x
  | none => .error (.missing i xs.length)

/-! ### Partitions -/

def assigned (e : Edge α) (p : Partition) : Except Stop (List BlockId) := do
  return (← e.members.mapM (lookup p)).filterMap id

def isCut (e : Edge α) (p : Partition) : Except Stop Bool := do
  match ← assigned e p with
  | [] => return false
  | first :: rest => return rest.any (· ≠ first)

def blockCount (p : Partition) : Except Stop Nat :=
  if p.blockCount < UInt64.size then .ok p.blockCount else .error (.overflow p.blockCount)

section
variable [Zero α] [Add α]

def addAt (sizes : List (List α)) (b : BlockId) (weights : List α) :
    Except Stop (List (List α)) := do
  let size ← lookup sizes b
  return sizes.set b (← reported (Weight.add size weights))

def sumCut (p : Partition) (dim : Nat) (edges : List (Edge α)) : Except Stop (List α) :=
  edges.foldlM
    (fun sum e => do if ← isCut e p then reported (Weight.add sum e.weights) else return sum)
    (Weight.zeros dim)

def cut (g : Hypergraph α) (p : Partition) : Except Stop (List α) := do
  reported (g.checkPartition p)
  sumCut p g.edgeDim g.edges

def cutAt (g : Hypergraph α) (p : Partition) (n : NodeId) : Except Stop (List α) := do
  reported (g.checkPartition p)
  sumCut p g.edgeDim (← reported (do (← g.incident n).mapM g.edge))

def isCutEdge (g : Hypergraph α) (e : EdgeId) (p : Partition) : Except Stop Bool := do
  reported (g.checkPartition p)
  isCut (← reported (g.edge e)) p

def blockWeights (g : Hypergraph α) (p : Partition) : Except Stop (List (List α)) := do
  reported (g.checkPartition p)
  let count ← blockCount p
  (g.nodes.zip p).zipIdx.foldlM
    (fun sizes ((node, block), n) =>
      match block with
      | none => .error (.fault (.unassignedNode n))
      | some b => addAt sizes b node.weights)
    (List.replicate count (Weight.zeros g.nodeDim))

def blockCuts (g : Hypergraph α) (p : Partition) : Except Stop (List (List α)) := do
  reported (g.checkPartition p)
  let count ← blockCount p
  g.edges.foldlM
    (fun sizes e => do
      let blocks := Ordered.ofList (← assigned e p)
      if 1 < blocks.length then blocks.foldlM (fun sizes b => addAt sizes b e.weights) sizes
      else return sizes)
    (List.replicate count (Weight.zeros g.edgeDim))

def memberWeight (g : Hypergraph α) (e : EdgeId) : Except Stop (List α) := do
  let nodes ← (← reported (g.members e)).mapM (lookup g.nodes)
  reported (Weight.sum g.nodeDim (nodes.map Node.weights))

end

/-! ### Searches -/

def visit (state : List Bool × List NodeId) (n : NodeId) : Except Stop (List Bool × List NodeId) :=
  do if ← lookup state.1 n then return state else return (state.1.set n true, state.2 ++ [n])

def visitSeed (g : Hypergraph α) (state : List Bool × List NodeId) (s : NodeId) :
    Except Stop (List Bool × List NodeId) :=
  if g.nodeCount ≤ s then .error (.fault (.unknownNode s)) else visit state s

/-- A search with a table of visited nodes, one of distances and one of layers. -/
structure Search where
  visited : List Bool
  distance : List Nat
  queue : List NodeId
  layers : List (List NodeId)

/-- Puts a node that was not visited before on the layer of its distance. -/
def meet (distance : Nat) (s : Search) (n : NodeId) : Except Stop Search := do
  if ← lookup s.visited n then return s
  else
    let _ ← lookup s.distance n
    let layers := if s.layers.length ≤ distance then s.layers ++ [[]] else s.layers
    let layer ← lookup layers distance
    return {
      visited := s.visited.set n true
      distance := s.distance.set n distance
      queue := s.queue ++ [n]
      layers := layers.set distance (layer ++ [n]) }

/-- Takes nodes off the queue, one in each step, and meets their neighbours. -/
def explore (g : Hypergraph α) (bound steps : Nat) (s : Search) :
    Except Stop (List (List NodeId)) :=
  match s.queue, steps with
  | [], _ => return s.layers
  | _ :: _, 0 => .error .unfinished
  | n :: queue, steps + 1 => do
    let next := (← lookup s.distance n) + 1
    if bound < next then explore g bound steps { s with queue }
    else
      let neighbors ← reported (g.neighbors n)
      explore g bound steps (← neighbors.foldlM (meet next) { s with queue })

def hopLayers (g : Hypergraph α) (seeds : List NodeId) (distance : Nat) :
    Except Stop (List (List NodeId)) := do
  if seeds.isEmpty then return []
  else
    let (visited, first) ← seeds.foldlM (visitSeed g) (List.replicate g.nodeCount false, [])
    explore g distance g.nodeCount
      ⟨visited, List.replicate g.nodeCount 0, first, [first]⟩

/-! ### Merging -/

section
variable [Add α]

/-- Merged edges, and the place of each by its members. -/
abbrev Slots (α : Type) := List (List NodeId × Nat) × List (Edge α)

def absorb (state : Slots α) (e : Edge α) : Except Stop (Slots α) :=
  match state.1.lookup e.members with
  | some slot => do
    let held ← lookup state.2 slot
    let weights ← reported (Weight.add held.weights e.weights)
    return (state.1, state.2.set slot { held with weights })
  | none => return (state.1 ++ [(e.members, state.2.length)], state.2 ++ [e])

def compressed (g : Hypergraph α) : Except Stop (Hypergraph α) := do
  let (_, merged) ← g.edges.foldlM absorb ([], [])
  reported (assemble g.factors (g.nodes.map Node.weights) merged)

end

/-! ### Statistics -/

section
variable [Zero α] [Neg α] [Add α] [Sub α] [Mul α] [Div α] [NatCast α] [LE α] [DecidableLE α]
  [Gauge α]

def blockImbalance (g : Hypergraph α) (p : Partition) : Except Stop (List (List α)) := do
  let sizes ← blockWeights g p
  let columns ← (List.range g.nodeDim).mapM fun d => sizes.mapM (lookup · d)
  return sizes.map fun size => List.zipWith Sample.imbalance size columns

variable [LT α] [DecidableLT α]

def raise (b : Bucket α) (more : Nat) : Bucket α := { b with count := b.count + more }

def tally (s : Spread α) (buckets : Nat) (table : List (Bucket α)) (v : α) :
    Except Stop (List (Bucket α)) := do
  let b ← lookup table (s.slot buckets v)
  return table.set (s.slot buckets v) (raise b 1)

def withHistogram (values : List α) (buckets : Nat) : Except Stop (Spread α) := do
  let s := Spread.of values
  let buckets := max 1 buckets
  let histogram ← values.foldlM (tally s buckets) ((List.range buckets).map (s.bucket buckets []))
  return { s with histogram := some histogram }

def spread (histograms : Bool) (values : List α) : Except Stop (Spread α) :=
  if histograms then withHistogram values Overview.buckets else return .of values

def overview (g : Hypergraph α) (histograms : Bool) : Except Stop (Overview α) := do
  let columns ← (List.range g.nodeDim).mapM fun d => g.nodes.mapM fun n => lookup n.weights d
  let costs ← reported ((List.range g.edgeCount).mapM g.costOfEdge)
  let totalEdgeWeight ← reported g.totalEdgeWeight
  return {
    nodeCount := g.nodeCount
    edgeCount := g.edgeCount
    nodeFactor := g.factors.node
    edgeFactor := g.factors.edge
    totalNodeWeight := ← reported g.totalNodeWeight
    totalEdgeWeight
    totalEdgeCost := ← reported (g.edgeCost totalEdgeWeight)
    nodeWeights := ← columns.mapM (spread histograms)
    edgeCosts := ← spread histograms costs
    edgeDegrees := ← spread histograms (g.edges.map fun e => (e.members.length : α)) }

end

/-! ### Steps that report or find -/

theorem reported_bind (x : Except Fault β) (k : β → Except Fault γ) :
    reported (x >>= k) = reported x >>= fun b => reported (k b) := by
  cases x <;> rfl

theorem reported_foldlM {k : β → γ → Except Fault β} {xs : List γ} {start : β} :
    reported (xs.foldlM k start) = xs.foldlM (fun b x => reported (k b x)) start := by
  induction xs generalizing start with
  | nil => rfl
  | cons x xs ih =>
    rw [List.foldlM_cons, List.foldlM_cons, reported_bind]
    exact congrArg _ (funext fun _ => ih)

theorem lookup_ok {xs : List β} {i : Nat} {x : β} : lookup xs i = .ok x ↔ xs[i]? = some x := by
  unfold lookup
  cases xs[i]? <;> simp

theorem exists_lookup {xs : List β} {i : Nat} (inside : i < xs.length) :
    ∃ x, lookup xs i = .ok x ∧ xs[i]? = some x :=
  ⟨_, lookup_ok.mpr (List.getElem?_eq_getElem inside), List.getElem?_eq_getElem inside⟩

end Strict
end Multilevel.Hypergraph
