import Multilevel.Proofs.Hypergraph.Construction
import Multilevel.Proofs.Random.Choice
import Multilevel.Proofs.Random.Strict

namespace Multilevel.Random

variable {α : Type} [NatCast α]

def Small (x : α) : Prop := ∃ k : Nat, 1 ≤ k ∧ k ≤ 4 ∧ x = k

structure SmallWeights (dim : Nat) (w : List α) : Prop where
  length : w.length = dim
  small : ∀ x ∈ w, Small x

theorem always_weights (dim : Nat) : Always (SmallWeights dim) (weights dim : Draw (List α)) := by
  have each : ∀ u ∈ List.replicate dim (), Always (Small (α := α)) (do
      return ((1 + (← below32 maxWeight) : Nat) : α)) := by
    intro _ _
    refine (always_below32 (by decide)).bind fun k (below : k < 4) => always_pure ?_
    exact ⟨1 + k, by omega, by omega, rfl⟩
  refine (always_mapM each).mono fun w ⟨length, small⟩ => ⟨?_, small⟩
  rw [length, List.length_replicate]

/-- An edge that spans at least two of some nodes, and at most as many as the largest degree. -/
structure Sampled (dim nodes top : Nat) (e : Edge α) : Prop extends e.WellFormed dim nodes where
  degree : e.members.length ≤ top
  small : ∀ x ∈ e.weights, Small x

theorem always_edge {nodes top : Nat} (dim : Nat) (some : 2 ≤ top) (enough : top ≤ nodes) :
    Always (Sampled dim nodes top) (edge nodes dim top : Draw (Edge α)) := by
  refine (always_below64 (Nat.sub_pos_of_lt some)).bind fun extra below => ?_
  refine (always_choose nodes (2 + extra)).bind fun members ⟨chosen, increasing⟩ => ?_
  refine (always_weights dim).bind fun w small => always_pure ?_
  have count : members.length = 2 + extra := by
    rw [chosen.count]
    omega
  have spanning : 2 ≤ members.length := by omega
  have degree : members.length ≤ top := by omega
  exact ⟨⟨small.length, increasing, spanning, chosen.inside⟩, degree, small.small⟩

structure SampledParts (factors : Factors α) (nodes edges maxDegree : Nat)
    (parts : List (List α) × List (Edge α)) : Prop where
  nodeCount : parts.1.length = nodes
  nodeWeights : ∀ w ∈ parts.1, SmallWeights factors.node.length w
  edgeCount : parts.2.length = edges
  edges : ∀ e ∈ parts.2, Sampled factors.edge.length nodes (max 2 (min maxDegree nodes)) e

theorem always_parts {nodes edges : Nat} (factors : Factors α) (maxDegree : Nat)
    (possible : 2 ≤ nodes ∨ edges = 0) :
    Always (SampledParts factors nodes edges maxDegree) (parts factors nodes edges maxDegree) := by
  refine (always_mapM fun _ _ => always_weights factors.node.length).bind fun weighed weights => ?_
  refine (always_mapM (P := Sampled factors.edge.length nodes (max 2 (min maxDegree nodes)))
    fun _ asked => ?_).bind fun spanned sampled => always_pure ?_
  · have enough : 2 ≤ nodes := possible.resolve_right (List.mem_replicate.mp asked).1
    rw [Nat.max_eq_right enough]
    exact always_edge _ (Nat.le_max_left 2 _) (by omega)
  · exact ⟨weights.1.trans List.length_replicate, weights.2,
      sampled.1.trans List.length_replicate, sampled.2⟩

variable {factors : Factors α} {nodes edges maxDegree : Nat} {s rest : Stream} {g : Hypergraph α}

theorem SampledParts.assemble {weighed : List (List α)} {spanned : List (Edge α)}
    (sampled : SampledParts factors nodes edges maxDegree (weighed, spanned))
    (node : factors.node ≠ []) (edge : factors.edge ≠ []) :
    Hypergraph.assemble factors weighed spanned = .ok (.ofParts factors weighed spanned) := by
  have canonical : spanned.map Edge.canonical = spanned :=
    (List.map_congr_left fun e member => (sampled.edges e member).canonical).trans (List.map_id' _)
  refine Hypergraph.assemble_ok.mpr ?_
  rw [canonical]
  refine ⟨⟨node, edge, fun w member => ?_, fun e member => ?_⟩, rfl⟩
  · exact (sampled.nodeWeights w member).length
  · rw [sampled.nodeCount]
    exact (sampled.edges e member).toWellFormed

theorem exists_graph (node : factors.node ≠ []) (edge : factors.edge ≠ [])
    (possible : 2 ≤ nodes ∨ edges = 0) (maxDegree : Nat) (s : Stream) : ∃ weighed spanned rest,
      graph factors nodes edges maxDegree s = .ok (.ofParts factors weighed spanned, rest) ∧
        SampledParts factors nodes edges maxDegree (weighed, spanned) := by
  have sampled := always_parts factors maxDegree possible s
  have refused : ¬ (nodes < 2 ∧ 0 < edges) := by omega
  unfold graph
  rw [if_neg refused]
  exact ⟨_, _, _, bind_ok.mpr ⟨(), Hypergraph.check_ok.mpr ⟨node, edge⟩,
    bind_ok.mpr ⟨_, sampled.assemble node edge, rfl⟩⟩, sampled⟩

theorem graph_ok (node : factors.node ≠ []) (edge : factors.edge ≠ []) :
    (∃ drawn, graph factors nodes edges maxDegree s = .ok drawn) ↔ 2 ≤ nodes ∨ edges = 0 := by
  constructor
  · rintro ⟨drawn, made⟩
    unfold graph at made
    split at made
    · cases made
    · omega
  · intro possible
    obtain ⟨weighed, spanned, rest, made, -⟩ := exists_graph node edge possible maxDegree s
    exact ⟨_, made⟩

/-- There is a random graph unless edges are asked for among fewer than two nodes, and no draw asks
for a number from an empty range. It has the nodes and edges that are asked for, degrees within
their bounds and small weights; a sampled edge is never refused by a graph with the nodes. -/
theorem graph_sampled (node : factors.node ≠ []) (edge : factors.edge ≠ [])
    (nodes edges maxDegree : Nat) (s : Stream) :
    Strict.graph factors nodes edges maxDegree s =
      some (graph factors nodes edges maxDegree s) ∧
    ((∃ drawn, graph factors nodes edges maxDegree s = .ok drawn) ↔ 2 ≤ nodes ∨ edges = 0) ∧
    (∀ g rest, graph factors nodes edges maxDegree s = .ok (g, rest) →
      g.factors = factors ∧ g.nodeCount = nodes ∧ g.edgeCount = edges ∧
      (∀ e ∈ g.edges, e.members.Nodup ∧ 2 ≤ e.members.length ∧
        e.members.length ≤ max 2 (min maxDegree nodes)) ∧
      (∀ n ∈ g.nodes, ∀ x ∈ n.weights, Small x) ∧ ∀ e ∈ g.edges, ∀ x ∈ e.weights, Small x) ∧
    (2 ≤ nodes ∨ edges = 0 → ∀ e ∈ ((parts factors nodes edges maxDegree).run s).1.2,
      ∀ g : Hypergraph α, g.factors = factors → g.nodeCount = nodes →
        ∃ h, g.addEdge e.members e.weights = .ok h) := by
  refine ⟨Strict.graph_eq factors nodes edges maxDegree s, graph_ok node edge, ?_, ?_⟩
  · intro g rest made
    have possible := (graph_ok node edge).mp ⟨_, made⟩
    obtain ⟨weighed, spanned, _, again, sampled⟩ := exists_graph node edge possible maxDegree s
    obtain ⟨rfl, -⟩ := Prod.mk.inj (Except.ok.inj (made.symm.trans again))
    refine ⟨rfl, ?_, sampled.edgeCount, fun e member => ?_, fun n member => ?_, fun e member => ?_⟩
    · rw [Hypergraph.nodeCount_ofParts, sampled.nodeCount]
    · have sample := sampled.edges e member
      exact ⟨sample.increasing.imp Nat.ne_of_lt, sample.spanning, sample.degree⟩
    · have listed := List.mem_map_of_mem (f := Node.weights) member
      rw [Hypergraph.weights_ofParts] at listed
      exact (sampled.nodeWeights _ listed).small
    · exact (sampled.edges e member).small
  · rintro possible e member g rfl rfl
    have sample := (always_parts g.factors maxDegree possible s).edges e member
    refine ⟨_, Hypergraph.addEdge_ok.mpr ⟨?_, rfl⟩⟩
    rw [sample.canonical]
    exact sample.toWellFormed

/-- Three nodes with two weights each, and edges that may not have more than one member: they get
two, since no edge has fewer. -/
theorem graph_sampled_pairs :
    let factors : Factors Rat := ⟨[1, 1], [1]⟩
    ∃ g rest, graph factors 3 2 1 (.ofSeed 7) = .ok (g, rest) ∧
      g.factors = factors ∧ g.nodeCount = 3 ∧ g.edgeCount = 2 ∧
      (∀ e ∈ g.edges, e.members.Nodup ∧ 2 ≤ e.members.length ∧ e.members.length ≤ 2) ∧
      (∀ n ∈ g.nodes, ∀ x ∈ n.weights, Small x) ∧ (∀ e ∈ g.edges, ∀ x ∈ e.weights, Small x) ∧
      ∀ e ∈ ((parts factors 3 2 1).run (.ofSeed 7)).1.2, ∀ g : Hypergraph Rat,
        g.factors = factors → g.nodeCount = 3 → ∃ h, g.addEdge e.members e.weights = .ok h := by
  intro factors
  have node : factors.node ≠ [] := by decide
  have edge : factors.edge ≠ [] := by decide
  obtain ⟨-, possible, bounds, accepted⟩ := graph_sampled node edge 3 2 1 (.ofSeed 7)
  obtain ⟨⟨g, rest⟩, made⟩ := possible.mpr (.inl (by decide))
  obtain ⟨same, nodeCount, edgeCount, degrees, nodeWeights, edgeWeights⟩ := bounds g rest made
  exact ⟨g, rest, made, same, nodeCount, edgeCount, degrees, nodeWeights, edgeWeights,
    accepted (.inl (by decide))⟩

end Multilevel.Random
