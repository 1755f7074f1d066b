import Multilevel.Proofs.Hypergraph.Parallel
import Multilevel.Proofs.Hypergraph.Reachable

/-!
# Compressed graphs as normal forms

A compressed graph has no parallel edges, and it has what the graph had: its nodes, its sets of
members in the order in which they are met, and for each of them the weights of the edges that
span it. A graph without parallel edges is its own compressed graph.
-/
namespace Multilevel.Hypergraph

open Weight

variable {α : Type}

/-! ### Edges that are not parallel -/

theorem parallel_eq_singleton {edges : List (Edge α)} (once : (edges.map Edge.members).Nodup)
    {e : Edge α} (present : e ∈ edges) : parallel edges e.members = [e.weights] := by
  induction edges with
  | nil => cases present
  | cons d edges ih =>
    obtain ⟨fresh, once⟩ := List.nodup_cons.mp once
    rcases List.mem_cons.mp present with rfl | later
    · have none : parallel edges e.members = [] := parallel_eq_nil.mpr fresh
      rw [parallel] at none ⊢
      rw [List.filter_cons_of_pos (by simp), List.map_cons, none]
    · have different : d.members ≠ e.members := fun same =>
        fresh (same ▸ List.mem_map_of_mem later)
      rw [parallel, List.filter_cons_of_neg (by simpa using different)]
      exact ih once later

variable [Add α]

theorem merged_of_nodup {edges : List (Edge α)} (once : (edges.map Edge.members).Nodup) :
    merged edges = edges := by
  rw [merged, eraseDups_of_nodup once, List.map_map]
  refine (List.map_congr_left fun e present => ?_).trans (List.map_id edges)
  rw [Function.comp_apply, parallel_eq_singleton once present]
  rfl

theorem WellFormed.compression_of_nodup {g : Hypergraph α} (wellFormed : g.WellFormed)
    (once : (g.edges.map Edge.members).Nodup) : g.compression = g := by
  rw [Hypergraph.compression, merged_of_nodup once]
  exact wellFormed.eq_ofParts.symm

theorem nodup_members_merged (edges : List (Edge α)) :
    ((merged edges).map Edge.members).Nodup := by
  rw [members_merged]
  exact nodup_eraseDups _

/-! ### Merged graphs -/

/-- A graph with one edge for each set of members of another graph. -/
structure Merges (k g : Hypergraph α) : Prop where
  factors : k.factors = g.factors
  nodeCount : k.nodeCount = g.nodeCount
  nodeWeights : k.nodes.map Node.weights = g.nodes.map Node.weights
  once : (k.edges.map Edge.members).Nodup
  members : ∀ m, m ∈ k.edges.map Edge.members ↔ m ∈ g.edges.map Edge.members
  /-- The sets of members stand in the order of their first edges. -/
  order : (k.edges.map Edge.members).Pairwise fun m n =>
    (g.edges.map Edge.members).idxOf m < (g.edges.map Edge.members).idxOf n
  /-- Weights are added from the first one on. -/
  weights : ∀ e ∈ k.edges, ∃ first rest,
    (g.edges.filter (·.members = e.members)).map Edge.weights = first :: rest ∧
      rest.foldlM Weight.add first = .ok e.weights

theorem WellFormed.merges_compression {g : Hypergraph α} (wellFormed : g.WellFormed) :
    g.compression.Merges g where
  factors := rfl
  nodeCount := (nodeCount_ofParts _ _ _).trans (List.length_map _)
  nodeWeights := weights_ofParts _ _ _
  once := nodup_members_merged g.edges
  members m := by
    rw [Hypergraph.compression, ofParts, members_merged, List.mem_eraseDups]
  order := by
    rw [Hypergraph.compression, ofParts, members_merged]
    exact pairwise_idxOf_eraseDups _
  weights e present := by
    obtain ⟨m, member, rfl⟩ := List.mem_map.mp present
    have some : parallel g.edges m ≠ [] := fun none =>
      parallel_eq_nil.mp none (List.mem_eraseDups.mp member)
    obtain ⟨first, rest, read⟩ := List.exists_cons_of_ne_nil some
    have lengths := length_of_mem_parallel (fun e present => (wellFormed.edges e present).weights) m
    rw [read] at lengths
    obtain ⟨own, others⟩ := List.forall_mem_cons.mp lengths
    refine ⟨first, rest, read, ?_⟩
    rw [foldlM_add fun w listed => (others w listed).trans own.symm, read]
    rfl

/-- Every graph can be compressed. The result has no parallel edges and is the graph itself if this
has none, so compressing it once more changes nothing. -/
theorem Reachable.compressed_normal [One α] {g : Hypergraph α} (reached : g.Reachable) :
    ∃ k, g.compressed = .ok k ∧ k.Merges g ∧ ((g.edges.map Edge.members).Nodup → k = g) ∧
      k.compressed = .ok k := by
  have wellFormed := reached.wellFormed
  refine ⟨g.compression, compressed_eq wellFormed, wellFormed.merges_compression,
    wellFormed.compression_of_nodup, ?_⟩
  have again := wellFormed.compression
  rw [compressed_eq again, again.compression_of_nodup (nodup_members_merged g.edges)]

def joined : Hypergraph Float :=
  .ofParts ⟨[1], [1]⟩ [[1], [1], [1]]
    [⟨[0.1], [1, 2]⟩, ⟨[4], [0, 1]⟩, ⟨[0.2], [1, 2]⟩, ⟨[0.3], [1, 2]⟩]

theorem compressed_normal_joined : ∃ k, joined.compressed = .ok k ∧ k.Merges joined ∧
    k.edges = [⟨[0.1 + 0.2 + 0.3], [1, 2]⟩, ⟨[4], [0, 1]⟩] ∧
    k.edges.map Edge.members ≠ joined.edges.map Edge.members ∧ k.compressed = .ok k := by
  have built : assemble ⟨[1], [1]⟩ [[1], [1], [1]]
      [⟨[0.1], [2, 1]⟩, ⟨[4], [0, 1]⟩, ⟨[0.2], [1, 2]⟩, ⟨[0.3], [1, 2]⟩] = .ok joined := rfl
  obtain ⟨k, made, merges, -, again⟩ := Reachable.compressed_normal (reachable_of_assemble built)
  have edges : k.edges = [⟨[0.1 + 0.2 + 0.3], [1, 2]⟩, ⟨[4], [0, 1]⟩] := by
    obtain ⟨h, read, same⟩ : ∃ h, joined.compressed = .ok h ∧
        h.edges = [⟨[0.1 + 0.2 + 0.3], [1, 2]⟩, ⟨[4], [0, 1]⟩] := ⟨_, rfl, rfl⟩
    rwa [Except.ok.inj (made.symm.trans read)]
  refine ⟨k, made, merges, edges, ?_, again⟩
  rw [edges]
  decide

end Multilevel.Hypergraph
