import Multilevel.Proofs.Hypergraph.Cut
import Multilevel.Proofs.Level.Reachable

/-!
# Cuts through a hierarchy

A child made without virtual nodes is a quotient of its parent: its edges are those of the parent
along the owners of the nodes. A partition of the child and its expansion therefore cut the same
edges (`cutEdges_expanded`), and so do a partition of the lowest level of a hierarchy and what
becomes of it at the root.
-/
namespace Multilevel.Level

variable {α : Type}

/-! ### Expansion -/

def expanded (origins : List Origin) (count : Nat) (p : Partition) : Partition :=
  spread origins p (List.replicate count none)

theorem length_expanded (origins : List Origin) (count : Nat) (p : Partition) :
    (expanded origins count p).length = count := by
  rw [expanded, length_spread, List.length_replicate]

theorem checkLength_ok {what : Carried} {expected actual : Nat} :
    checkLength what expected actual = .ok () ↔ actual = expected := by
  rw [checkLength, eq_comm (a := actual)]
  split <;> simp_all

theorem target_ok {l parent : Level α} {length : Nat} :
    l.target length = .ok parent ↔ l.parent? = some parent ∧ length = l.graph.nodeCount := by
  cases l with
  | root => exact ⟨nofun, fun ⟨above, _⟩ => nomatch above⟩
  | child t base =>
    rw [target, bind_ok, Unique.exists_iff, checkLength_ok, and_comm]
    exact and_congr_left fun _ => pure_ok.trans Option.some_inj.symm

theorem expand_eq {l parent : Level α} (above : l.parent? = some parent) {p : Partition}
    (length : p.length = l.graph.nodeCount) :
    l.expand p = .ok (expanded l.origins parent.graph.nodeCount p) := by
  rw [expand, target_ok.mpr ⟨above, length⟩]
  rfl

theorem block?_expanded {origins : List Origin} {count : Nat} {p : Partition} {n : NodeId}
    (once : (origins.flatMap Origin.parents).Nodup) (length : p.length = origins.length)
    (known : n < count) : (expanded origins count p).block? n = (owner origins n).bind p.block? := by
  rw [Partition.block?, expanded, getElem?_spread once length.symm (by simpa using known),
    List.getElem?_replicate, if_pos known]
  cases h : owner origins n with
  | none => rfl
  | some i =>
    have bound : i < p.length := length ▸ lt_of_owner h
    rw [Option.bind_some, Option.bind_some, Partition.block?, List.getElem?_eq_getElem bound]
    rfl

/-- A partition carried down to the root of a hierarchy, level by level. -/
def expandToRoot : Level α → Partition → Except Fault Partition
  | root _, p => .ok p
  | child t parent, p => do
    parent.expandToRoot (← (child t parent).expand p)

theorem expandToRoot_of_root {l : Level α} (top : l.parent? = none) (p : Partition) :
    l.expandToRoot p = .ok p := by
  cases l with
  | root => rfl
  | child => cases top

theorem expandToRoot_of_child {l parent : Level α} (above : l.parent? = some parent)
    {p : Partition} (length : p.length = l.graph.nodeCount) :
    l.expandToRoot p = parent.expandToRoot (expanded l.origins parent.graph.nodeCount p) := by
  have step := expand_eq above length
  cases l with
  | root => cases above
  | child =>
    obtain rfl := Option.some.inj above
    rw [expandToRoot, step]
    rfl

theorem expandToRoot_withFixed (l : Level α) (fixed : Fixed) (p : Partition) :
    (l.withFixed fixed).expandToRoot p = l.expandToRoot p := by
  cases l <;> rfl

/-! ### One level -/

/-- A child that has all edges of its parent along the owners of the nodes. -/
structure QuotientOf (l parent : Level α) : Prop where
  above : l.parent? = some parent
  edges : l.graph.edges = parent.graph.edges.filterMap (Edge.along (owner l.origins))
  edgeFactor : l.graph.factors.edge = parent.graph.factors.edge

theorem quotientOf_coarsen [Zero α] [Add α] {parent child : Level α} {clusters : Clustering}
    (wellFormed : parent.graph.WellFormed) (made : parent.coarsen clusters = .ok child) :
    child.QuotientOf parent := by
  obtain ⟨-, rfl⟩ := (coarsen_ok wellFormed).mp made
  refine ⟨rfl, ?_, rfl⟩
  rw [origins_coarsened, childOrigins_default, ← induced_self]
  rw [edges_coarsened, childOrigins_default]

theorem quotientOf_coarsenByBlock [Zero α] [Add α] {parent child : Level α}
    {clusters : Clustering} {count : Nat} {p : Partition} (wellFormed : parent.graph.WellFormed)
    (made : parent.coarsenByBlock clusters count p = .ok child) : child.QuotientOf parent := by
  obtain ⟨-, rfl⟩ := (coarsenByBlock_ok wellFormed).mp made
  refine ⟨rfl, ?_, rfl⟩
  rw [origins_coarsenedByBlock]
  rfl

/-- A partition and its expansion cut the same edges. An edge that the child does not have spans
one of its nodes at most, so it cannot be cut. -/
theorem QuotientOf.cutEdges_expanded {l parent : Level α} (quotient : l.QuotientOf parent)
    (wellFormed : l.WellFormed) (parentGraph : parent.graph.WellFormed) {p : Partition}
    (length : p.length = l.graph.nodeCount) :
    l.graph.cutEdges p =
      parent.graph.cutEdges (expanded l.origins parent.graph.nodeCount p) := by
  apply Hypergraph.cutEdges_along quotient.edges
  intro e member n spans
  exact block?_expanded wellFormed.once (length.trans wellFormed.origins.symm)
    ((parentGraph.edges e member).known n spans)

/-! ### Hierarchies -/

variable [Zero α] [Add α]

/-- A root with the levels that are made below it, one from the other and without virtual nodes.
The nodes of a level may be fixed before the next level is made. -/
inductive Hierarchy (top : Level α) : Level α → Prop
  | start (root : top.parent? = none) : Hierarchy top top
  | setFixed {l next : Level α} {fixed : Fixed} (chain : Hierarchy top l)
    (made : l.setFixed fixed = .ok next) : Hierarchy top next
  | coarsen {l child : Level α} {clusters : Clustering} (chain : Hierarchy top l)
    (made : l.coarsen clusters = .ok child) : Hierarchy top child
  | coarsenByBlock {l child : Level α} {clusters : Clustering} {count : Nat} {p : Partition}
    (chain : Hierarchy top l) (made : l.coarsenByBlock clusters count p = .ok child) :
    Hierarchy top child

theorem Hierarchy.reachable [One α] {top l : Level α} (chain : Hierarchy top l)
    (reached : top.Reachable) : l.Reachable := by
  induction chain with
  | start => exact reached
  | setFixed _ made ih => exact .setFixed ih made
  | coarsen _ made ih => exact .coarsen ih made
  | coarsenByBlock _ made ih => exact .coarsenByBlock ih made

/-- What a level shares with the root: the same partitions of it cut the same edges. -/
structure Cuts (top l : Level α) : Prop where
  edgeFactor : l.graph.factors.edge = top.graph.factors.edge
  same : ∀ p : Partition, p.length = l.graph.nodeCount → ∃ q : Partition,
    l.expandToRoot p = .ok q ∧ q.length = top.graph.nodeCount ∧
      l.graph.cutEdges p = top.graph.cutEdges q

omit [Zero α] [Add α] in
theorem Cuts.quotient {top l parent : Level α} (cuts : Cuts top parent)
    (quotient : l.QuotientOf parent) (wellFormed : l.WellFormed)
    (parentGraph : parent.graph.WellFormed) : Cuts top l := by
  refine ⟨quotient.edgeFactor.trans cuts.edgeFactor, fun p length => ?_⟩
  obtain ⟨q, carried, size, same⟩ := cuts.same _ (length_expanded l.origins parent.graph.nodeCount p)
  refine ⟨q, ?_, size, (quotient.cutEdges_expanded wellFormed parentGraph length).trans same⟩
  rw [expandToRoot_of_child quotient.above length]
  exact carried

theorem Hierarchy.cuts [One α] {top l : Level α} (chain : Hierarchy top l)
    (reached : top.Reachable) : Cuts top l := by
  induction chain with
  | start root =>
    exact ⟨rfl, fun p length => ⟨p, expandToRoot_of_root root p, length, rfl⟩⟩
  | setFixed _ made ih =>
    obtain ⟨-, rfl⟩ := setFixed_ok.mp made
    refine ⟨by rw [graph_withFixed]; exact ih.edgeFactor, ?_⟩
    intro p
    rw [graph_withFixed, expandToRoot_withFixed]
    exact ih.same p
  | coarsen chain made ih =>
    have graph := (chain.reachable reached).wellFormed.graph
    have wellFormed := ((chain.reachable reached).coarsen made).wellFormed
    exact ih.quotient (quotientOf_coarsen graph made) wellFormed graph
  | coarsenByBlock chain made ih =>
    have graph := (chain.reachable reached).wellFormed.graph
    have wellFormed := ((chain.reachable reached).coarsenByBlock made).wellFormed
    exact ih.quotient (quotientOf_coarsenByBlock graph made) wellFormed graph

/-- Carrying a partition of the lowest level of a hierarchy down to the root succeeds and keeps the
cut, in total and by block, whatever addition does. -/
theorem Hierarchy.cut_expandToRoot [One α] {top l : Level α} (chain : Hierarchy top l)
    (reached : top.Reachable) {p : Partition} (length : p.length = l.graph.nodeCount) :
    ∃ (q : Partition) (total : List α) (blocks rootBlocks : List (List α)),
      l.expandToRoot p = .ok q ∧
      l.graph.cut p = .ok total ∧ top.graph.cut q = .ok total ∧
      l.graph.blockCuts p = .ok blocks ∧ top.graph.blockCuts q = .ok rootBlocks ∧
      ∀ b : BlockId, blocks[b]?.getD (Weight.zeros top.graph.edgeDim) =
        rootBlocks[b]?.getD (Weight.zeros top.graph.edgeDim) := by
  have graph := (chain.reachable reached).wellFormed.graph
  have topGraph := reached.wellFormed.graph
  have cuts := chain.cuts reached
  obtain ⟨q, carried, size, same⟩ := cuts.same p length
  have dim : l.graph.edgeDim = top.graph.edgeDim := congrArg List.length cuts.edgeFactor
  refine ⟨q, _, _, _, carried, Hypergraph.cut_ok graph length, ?_,
    Hypergraph.blockCuts_ok graph length, Hypergraph.blockCuts_ok topGraph size, fun b => ?_⟩
  · rw [Hypergraph.cut_ok topGraph size, same, dim]
  · rw [Hypergraph.getD_blockCuts, ← dim, Hypergraph.getD_blockCuts, same]

/-- A row in which a node and then a cluster are left out on the way to the lowest level. -/
theorem cut_expandToRoot_line : ∃ middle lowest : Level Float,
    (ofGraph (.line Float)).coarsen [[1], [], [3, 2]] = .ok middle ∧
    middle.coarsenByBlock [[2], [0]] 2 [some 1, none, some 0] = .ok lowest ∧
    ∃ (q : Partition) (total : List Float) (blocks rootBlocks : List (List Float)),
      lowest.expandToRoot [some 0, some 1] = .ok q ∧
      lowest.graph.cut [some 0, some 1] = .ok total ∧ (Hypergraph.line Float).cut q = .ok total ∧
      lowest.graph.blockCuts [some 0, some 1] = .ok blocks ∧ (Hypergraph.line Float).blockCuts q = .ok rootBlocks ∧
      ∀ b : BlockId, blocks[b]?.getD (Weight.zeros (Hypergraph.line Float).edgeDim) =
        rootBlocks[b]?.getD (Weight.zeros (Hypergraph.line Float).edgeDim) := by
  have top : (ofGraph (.line Float)).Reachable := .ofGraph Hypergraph.reachable_line
  obtain ⟨middle, first⟩ := ok_of_isOk (x := (ofGraph (.line Float)).coarsen [[1], [], [3, 2]]) (by decide)
  obtain ⟨-, rfl⟩ := (coarsen_ok top.wellFormed.graph).mp first
  have above := (top.coarsen first).wellFormed
  obtain ⟨lowest, second⟩ := ok_of_isOk
    (x := ((ofGraph (.line Float)).coarsened [[1], [], [3, 2]] {}).coarsenByBlock [[2], [0]] 2
      [some 1, none, some 0]) (by decide +kernel)
  have chain := ((Hierarchy.start rfl).coarsen first).coarsenByBlock second
  obtain ⟨-, rfl⟩ := (coarsenByBlock_ok above.graph).mp second
  refine ⟨_, _, first, second, chain.cut_expandToRoot top ?_⟩
  rw [nodeCount_coarsenedByBlock]
  rfl

end Multilevel.Level
