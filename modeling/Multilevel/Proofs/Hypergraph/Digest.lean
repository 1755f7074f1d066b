import Mathlib.Data.List.Basic
import Mathlib.Data.List.Lex
import Mathlib.Data.Prod.Lex
import Multilevel.Hypergraph.Digest
import Multilevel.Proofs.Distinct
import Multilevel.Proofs.Hypergraph.Reachable
import Multilevel.Proofs.Snapshot.Bytes

/-!
# What a digest tells apart

The bytes that are hashed can be read back, apart from the order of the edges, which are sorted
before. Two graphs therefore have the same bytes exactly when they have the same factors, node
weights and edges, and edges can be added in any order.
-/
namespace Multilevel

variable {α : Type}

theorem Edge.WellFormed.length_members_le {dim count : Nat} {e : Edge α}
    (wellFormed : e.WellFormed dim count) : e.members.length ≤ count :=
  length_le_of_nodup (wellFormed.increasing.imp Nat.ne_of_lt) wellFormed.known

/-- Edges with the same weights that span the same nodes, however often a member is listed. -/
def Edge.Alike (e d : Edge α) : Prop :=
  e.weights = d.weights ∧ ∀ n, n ∈ e.members ↔ n ∈ d.members

theorem perm_canonical {edges middle others : List (Edge α)} (order : edges.Perm middle)
    (alike : List.Forall₂ Edge.Alike middle others) :
    (edges.map Edge.canonical).Perm (others.map Edge.canonical) := by
  have same : middle.map Edge.canonical = others.map Edge.canonical := by
    rw [← List.forall₂_eq_eq_eq, List.forall₂_map_left_iff, List.forall₂_map_right_iff]
    refine alike.imp fun e d ⟨weights, members⟩ => ?_
    rw [Edge.canonical, Edge.canonical, weights, Ordered.ofList_congr members]
  rw [← same]
  exact order.map Edge.canonical

namespace Hypergraph

open Snapshot

/-! ### The order of signatures -/

theorem before_iff {a b : List Nat} : before a b = true ↔ a < b := List.lex_eq_true_iff_lt

theorem signatureLe_iff {s t : Signature} : signatureLe s t = true ↔ toLex s ≤ toLex t := by
  have last : before t.2 s.2 = false ↔ s.2 ≤ t.2 := by
    rw [← not_lt, ← before_iff, Bool.not_eq_true]
  rw [Prod.Lex.toLex_le_toLex, signatureLe]
  simp [before_iff, last]

theorem mergeSort_signatureLe {xs ys : List Signature} :
    xs.mergeSort signatureLe = ys.mergeSort signatureLe ↔ xs.Perm ys := by
  have sorted (zs : List Signature) :
      (zs.mergeSort signatureLe).Pairwise fun s t => signatureLe s t = true := by
    refine List.pairwise_mergeSort (fun s t u first second => ?_) (fun s t => ?_) zs
    · rw [signatureLe_iff] at *
      exact le_trans first second
    · simpa only [Bool.or_eq_true, signatureLe_iff] using le_total (toLex s) (toLex t)
  constructor
  · intro same
    have left := (List.mergeSort_perm xs signatureLe).symm
    exact (same ▸ left).trans (List.mergeSort_perm ys signatureLe)
  · intro same
    have permuted := ((List.mergeSort_perm xs signatureLe).trans same).trans
      (List.mergeSort_perm ys signatureLe).symm
    refine permuted.eq_of_pairwise (fun s t _ _ below above => ?_) (sorted xs) (sorted ys)
    rw [signatureLe_iff] at below above
    exact toLex.injective (le_antisymm below above)

variable [Stored α]

/-! ### Content -/

def patterns (values : List α) : List Nat := values.map fun x => (Stored.bits x).toNat

/-- Graphs that differ in the order of their edges at most, with scalars compared by their bits. -/
structure SameContent (g h : Hypergraph α) : Prop where
  nodeFactor : patterns g.factors.node = patterns h.factors.node
  edgeFactor : patterns g.factors.edge = patterns h.factors.edge
  nodes : g.nodes.map (fun n => patterns n.weights) = h.nodes.map fun n => patterns n.weights
  edges : (g.edges.map fun e => (e.members, patterns e.weights)).Perm
    (h.edges.map fun e => (e.members, patterns e.weights))

def sortedSignatures (g : Hypergraph α) : List Signature :=
  (g.edges.map signature).mergeSort signatureLe

theorem digestBytes_eq (g : Hypergraph α) : digestBytes g =
    asciiBytes "node-factor" ++ (listBytes natBytes (patterns g.factors.node) ++
      (asciiBytes "edge-factor" ++ (listBytes natBytes (patterns g.factors.edge) ++
        (listBytes (listBytes natBytes) (g.nodes.map fun n => patterns n.weights) ++
          listBytes (fun s => listBytes natBytes s.1 ++ listBytes natBytes s.2)
            g.sortedSignatures)))) := by
  have scalars (values : List α) :
      listBytes scalarBytes values = listBytes natBytes (patterns values) :=
    (listBytes_map natBytes _ values).symm
  have nodes : listBytes (fun n => listBytes scalarBytes n.weights) g.nodes =
      listBytes (listBytes natBytes) (g.nodes.map fun n => patterns n.weights) := by
    rw [listBytes_map]
    simp only [scalars]
  rw [digestBytes, scalars, scalars, nodes]
  simp only [List.append_assoc]
  rfl

theorem SameContent.digestBytes_eq {g h : Hypergraph α} (same : g.SameContent h) :
    digestBytes g = digestBytes h := by
  have sorted : g.sortedSignatures = h.sortedSignatures := mergeSort_signatureLe.mpr same.edges
  rw [Hypergraph.digestBytes_eq, Hypergraph.digestBytes_eq, same.nodeFactor, same.edgeFactor,
    same.nodes, sorted]

/-! ### Reading the bytes back -/

/-- Graphs whose sizes can be written as 64 bits. -/
structure Writable (g : Hypergraph α) : Prop where
  nodeDim : g.nodeDim < 2 ^ 64
  edgeDim : g.edgeDim < 2 ^ 64
  nodeCount : g.nodeCount < 2 ^ 64
  edgeCount : g.edgeCount < 2 ^ 64

theorem restores_patterns {values : List α} (length : values.length < 2 ^ 64) :
    Restores (readList readNat) (listBytes natBytes) (patterns values) := by
  refine restores_numbers (by simpa [patterns] using length) ?_
  exact List.forall_mem_map.mpr fun x _ => (Stored.bits x).toNat_lt

theorem Writable.restores_nodes {g : Hypergraph α} (writable : g.Writable)
    (wellFormed : g.WellFormed) : Restores (readList (readList readNat))
      (listBytes (listBytes natBytes)) (g.nodes.map fun n => patterns n.weights) := by
  refine restores_listBytes ?_ ?_
  · rw [List.length_map]
    exact writable.nodeCount
  refine List.forall_mem_map.mpr fun n member => restores_patterns ?_
  rw [wellFormed.nodeWeights n member]
  exact writable.nodeDim

theorem Writable.restores_signatures {g : Hypergraph α} (writable : g.Writable)
    (wellFormed : g.WellFormed) : Restores
      (readList do let members ← readList readNat; return (members, ← readList readNat))
      (listBytes fun s => listBytes natBytes s.1 ++ listBytes natBytes s.2)
      g.sortedSignatures := by
  have permuted := List.mergeSort_perm (g.edges.map signature) signatureLe
  refine restores_listBytes ?_ fun s member => ?_
  · rw [sortedSignatures, permuted.length_eq, List.length_map]
    exact writable.edgeCount
  · obtain ⟨e, present, rfl⟩ := List.mem_map.mp (permuted.mem_iff.mp member)
    have edge := wellFormed.edges e present
    have members : Restores (readList readNat) (listBytes natBytes) e.members := by
      refine restores_numbers ?_ fun n listed => ?_
      · exact Nat.lt_of_le_of_lt edge.length_members_le writable.nodeCount
      · exact Nat.lt_trans (edge.known n listed) writable.nodeCount
    refine members.pair (restores_patterns ?_)
    rw [edge.weights]
    exact writable.edgeDim

/-- The bytes of a graph determine it up to the order of its edges. -/
theorem Writable.sameContent {g h : Hypergraph α} (left : g.Writable) (right : h.Writable)
    (first : g.WellFormed) (second : h.WellFormed) (same : digestBytes g = digestBytes h) :
    g.SameContent h := by
  rw [digestBytes_eq, digestBytes_eq] at same
  replace same := List.append_cancel_left same
  obtain ⟨nodeFactor, same⟩ :=
    (restores_patterns left.nodeDim).split (restores_patterns right.nodeDim) same
  replace same := List.append_cancel_left same
  obtain ⟨edgeFactor, same⟩ :=
    (restores_patterns left.edgeDim).split (restores_patterns right.edgeDim) same
  obtain ⟨nodes, same⟩ := (left.restores_nodes first).split (right.restores_nodes second) same
  have edges := (left.restores_signatures first).unique (right.restores_signatures second) same
  exact ⟨nodeFactor, edgeFactor, nodes, mergeSort_signatureLe.mp edges⟩

/-! ### Adding edges in another order -/

theorem WellFormed.addEdges_reordered {g grown : Hypergraph α} {edges others : List (Edge α)}
    (wellFormed : g.WellFormed)
    (same : (edges.map Edge.canonical).Perm (others.map Edge.canonical))
    (made : edges.foldlM (fun g e => g.addEdge e.members e.weights) g = .ok grown) :
    ∃ other, others.foldlM (fun g e => g.addEdge e.members e.weights) g = .ok other ∧
      other.SameContent grown := by
  rw [wellFormed.eq_ofParts] at made ⊢
  obtain ⟨accepted, rfl⟩ := foldlM_addEdge_ok.mp made
  refine ⟨_, foldlM_addEdge_ok.mpr ⟨?_, rfl⟩, rfl, rfl, ?_, ?_⟩
  · rw [← List.forall_mem_map (P := fun e : Edge α => e.WellFormed _ _)] at accepted ⊢
    intro e member
    exact accepted e (same.mem_iff.mpr member)
  · have weights (parts : List (Edge α)) :
        (ofParts g.factors (g.nodes.map Node.weights) parts).nodes.map
          (fun n => patterns n.weights) = (g.nodes.map Node.weights).map patterns :=
      List.map_map.symm.trans (congrArg (List.map patterns) (weights_ofParts _ _ _))
    rw [weights, weights]
  · exact (same.symm.append_left g.edges).map _

/-- Graphs feed the same bytes to the hash exactly when they have the same factors, node weights
and edges. Edges can be added in any order, with their members in any order. -/
theorem Reachable.digest_faithful [One α] {g : Hypergraph α} (reached : g.Reachable) :
    (∀ h : Hypergraph α, h.Reachable → g.Writable → h.Writable →
      (digestBytes g = digestBytes h ↔ g.SameContent h)) ∧
    ∀ (edges middle others : List (Edge α)) (grown : Hypergraph α), edges.Perm middle →
      List.Forall₂ Edge.Alike middle others →
      edges.foldlM (fun g e => g.addEdge e.members e.weights) g = .ok grown →
      ∃ other, others.foldlM (fun g e => g.addEdge e.members e.weights) g = .ok other ∧
        digest other = digest grown := by
  constructor
  · intro h other left right
    exact ⟨left.sameContent right reached.wellFormed other.wellFormed,
      SameContent.digestBytes_eq⟩
  · intro edges middle others grown order alike made
    obtain ⟨other, accepted, same⟩ :=
      reached.wellFormed.addEdges_reordered (perm_canonical order alike) made
    exact ⟨other, accepted, congrArg Sha256.hex same.digestBytes_eq⟩

/-- The edges of a row in another order. Without them the nodes have other bytes. -/
theorem digest_faithful_line : ∃ bare other : Hypergraph Float,
    assemble ⟨[1], [1]⟩ [[1], [1], [1], [1]] [] = .ok bare ∧
    ([⟨[1], [3, 2, 3]⟩, ⟨[1], [1, 0]⟩, ⟨[1], [2, 1]⟩] : List (Edge Float)).foldlM
      (fun g e => g.addEdge e.members e.weights) bare = .ok other ∧
    digest other = digest (line Float) ∧ digestBytes bare ≠ digestBytes (line Float) := by
  have built : assemble ⟨[1], [1]⟩ [[1], [1], [1], [1]] [] =
      .ok (ofParts ⟨[1], [1]⟩ [[1], [1], [1], [1]] ([] : List (Edge Float))) := rfl
  have grown : ([⟨[1], [0, 1]⟩, ⟨[1], [1, 2]⟩, ⟨[1], [2, 3]⟩] : List (Edge Float)).foldlM
      (fun g e => g.addEdge e.members e.weights)
      (ofParts ⟨[1], [1]⟩ [[1], [1], [1], [1]] []) = .ok (line Float) := rfl
  have order : ([⟨[1], [0, 1]⟩, ⟨[1], [1, 2]⟩, ⟨[1], [2, 3]⟩] : List (Edge Float)).Perm
      [⟨[1], [2, 3]⟩, ⟨[1], [0, 1]⟩, ⟨[1], [1, 2]⟩] :=
    .trans (.cons _ (.swap _ _ _)) (.swap _ _ _)
  have alike : List.Forall₂ Edge.Alike
      ([⟨[1], [2, 3]⟩, ⟨[1], [0, 1]⟩, ⟨[1], [1, 2]⟩] : List (Edge Float))
      [⟨[1], [3, 2, 3]⟩, ⟨[1], [1, 0]⟩, ⟨[1], [2, 1]⟩] := by
    refine .cons ⟨rfl, ?_⟩ (.cons ⟨rfl, ?_⟩ (.cons ⟨rfl, ?_⟩ .nil))
    all_goals simp [or_comm]
  obtain ⟨bytes, reordered⟩ := Reachable.digest_faithful (reachable_of_assemble built)
  obtain ⟨other, accepted, same⟩ := reordered _ _ _ _ order alike grown
  refine ⟨_, other, built, accepted, same, fun equal => ?_⟩
  have content := (bytes (line Float) reachable_line ⟨by decide, by decide, by decide, by decide⟩
    ⟨by decide, by decide, by decide, by decide⟩).mp equal
  have lengths := content.edges.length_eq
  cases lengths

end Hypergraph
end Multilevel
