import Multilevel.Proofs.Hypergraph.Layers
import Multilevel.Proofs.Level.Balance

namespace Multilevel.Level

variable {α : Type} {l parent child : Level α} {clusters : Clustering} {options : CoarsenOptions}
  {seeds images : List NodeId} {k : Nat} {n : NodeId}

theorem QuotientOf.linked_owner (quotient : l.QuotientOf parent) {a b c d : NodeId}
    (linked : parent.graph.Linked a b) (first : owner l.origins a = some c)
    (second : owner l.origins b = some d) : c = d ∨ l.graph.Linked c d := by
  obtain ⟨e, present, left, right⟩ := linked
  by_cases same : c = d
  · exact .inl same
  · have kept := Edge.along_of_apart left right first second same
    refine .inr ⟨⟨e.weights, e.imageAlong (owner l.origins)⟩, ?_,
      Edge.mem_imageAlong.mpr ⟨a, left, first⟩, Edge.mem_imageAlong.mpr ⟨b, right, second⟩⟩
    rw [quotient.edges]
    exact List.mem_filterMap.mpr ⟨e, present, kept⟩

theorem QuotientOf.within_owner (quotient : l.QuotientOf parent)
    (wellFormed : parent.graph.WellFormed) (known : ∀ s ∈ seeds, s < parent.graph.nodeCount)
    (owned : ∀ n < parent.graph.nodeCount, ∃ c, owner l.origins n = some c)
    (image : ∀ s ∈ seeds, ∀ c, owner l.origins s = some c → c ∈ images)
    (within : parent.graph.Within seeds k n) {c : NodeId} (held : owner l.origins n = some c) :
    l.graph.Within images k c := by
  induction within generalizing c with
  | seed listed => exact .seed (image _ listed c held)
  | hop reached linked ih =>
    obtain ⟨before, placed⟩ := owned _ (reached.lt_nodeCount wellFormed known)
    rcases quotient.linked_owner linked placed held with rfl | step
    · exact (ih placed).succ
    · exact .hop (ih placed) step

theorem exists_owner_of_covers (covers : clusters.Covers parent.graph.nodeCount)
    (known : n < parent.graph.nodeCount) : ∃ c, owner (clusters.map .cluster) n = some c := by
  cases h : owner (clusters.map .cluster) n with
  | some c => exact ⟨c, rfl⟩
  | none =>
    have outside := owner_eq_none.mp h
    rw [flatMap_parents_cluster] at outside
    exact absurd (covers n known) outside

variable [Zero α] [One α] [Add α]

/-- Where a clustering covers the parent, the one child node that stands for a parent node is met
no later from the images of the seeds than the parent node is from the seeds. -/
theorem Reachable.hopLayers_coarsen (reached : parent.Reachable)
    (made : parent.coarsen clusters options = .ok child)
    (covers : clusters.Covers parent.graph.nodeCount) (seeded : seeds ≠ [])
    (known : ∀ s ∈ seeds, s < parent.graph.nodeCount)
    (image : ∀ c, c ∈ images ↔ ∃ s ∈ seeds, child.Contains c s) (bound : Nat) :
    ∃ layers childLayers, parent.graph.hopLayers seeds bound = .ok layers ∧
      child.graph.hopLayers images bound = .ok childLayers ∧
      ∀ k n, Hypergraph.OnLayer layers k n → ∃ c, child.Contains c n ∧
        (∀ d, child.Contains d n → d = c) ∧ ∃ j ≤ k, Hypergraph.OnLayer childLayers j c := by
  have graph := reached.wellFormed.graph
  have wellFormed := (reached.coarsen made).wellFormed
  have quotient : child.QuotientOf parent ∧ child.origins = clusters.map .cluster := by
    obtain ⟨accepts, rfl⟩ := (coarsen_ok graph).mp made
    rw [coarsened_of_covers graph covers]
    exact ⟨quotientOf_coarsen graph (accepts.coarsen_eq graph), origins_coarsened_default⟩
  obtain ⟨quotient, origins⟩ := quotient
  have owned (n : NodeId) (inside : n < parent.graph.nodeCount) :
      ∃ c, owner child.origins n = some c := by
    rw [origins]
    exact exists_owner_of_covers covers inside
  simp only [contains_iff_owner wellFormed.once] at image ⊢
  have childSeeded : images ≠ [] := by
    obtain ⟨s, listed⟩ := List.exists_mem_of_ne_nil _ seeded
    obtain ⟨c, held⟩ := owned s (known s listed)
    exact List.ne_nil_of_mem ((image c).mpr ⟨s, listed, held⟩)
  have childKnown : ∀ c ∈ images, c < child.graph.nodeCount := by
    intro c listed
    obtain ⟨s, -, held⟩ := (image c).mp listed
    rw [← wellFormed.origins]
    exact lt_of_owner held
  obtain ⟨layers, searched, laid⟩ := graph.hopLayers_ok seeded known bound
  obtain ⟨childLayers, childSearched, childLaid⟩ :=
    wellFormed.graph.hopLayers_ok childSeeded childKnown bound
  refine ⟨layers, childLayers, searched, childSearched, fun k n met => ?_⟩
  obtain ⟨below, distance⟩ := (laid k n).mp met
  obtain ⟨c, held⟩ := owned n (distance.within.lt_nodeCount graph known)
  have within : child.graph.Within images k c :=
    quotient.within_owner graph known owned (fun s listed c held => (image c).mpr ⟨s, listed, held⟩)
      distance.within held
  obtain ⟨j, sooner, childDistance⟩ := within.exists_atDistance
  refine ⟨c, held, fun d other => ?_, j, sooner, (childLaid j c).mpr ⟨?_, childDistance⟩⟩
  · exact Option.some.inj (other.symm.trans held)
  · exact Nat.le_trans sooner below

/-- A row whose ends become one node, searched from one end and a node inside. -/
theorem hopLayers_coarsen_line : ∃ child : Level Float,
    (ofGraph (.line Float)).coarsen [[1], [3, 0], [2]] ⟨true⟩ = .ok child ∧
    (Hypergraph.line Float).hopLayers [3, 1] 2 = .ok [[3, 1], [2, 0]] ∧
    child.graph.hopLayers [1, 0] 2 = .ok [[1, 0], [2]] ∧
    ∀ k n, Hypergraph.OnLayer [[3, 1], [2, 0]] k n → ∃ c, child.Contains c n ∧
      (∀ d, child.Contains d n → d = c) ∧ ∃ j ≤ k, Hypergraph.OnLayer [[1, 0], [2]] j c := by
  have top : (ofGraph (.line Float)).Reachable := .ofGraph Hypergraph.reachable_line
  obtain ⟨child, made⟩ := ok_of_isOk
    (x := (ofGraph (.line Float)).coarsen [[1], [3, 0], [2]] ⟨true⟩) (by decide)
  obtain ⟨-, rfl⟩ := (coarsen_ok top.wellFormed.graph).mp made
  have covers : ∀ n < 4, n ∈ ([[1], [3, 0], [2]] : Clustering).flatten := by decide
  have once := (top.coarsen made).wellFormed.once
  have image (c : NodeId) : c ∈ [1, 0] ↔ ∃ s ∈ [3, 1],
      ((ofGraph (.line Float)).coarsened [[1], [3, 0], [2]] ⟨true⟩).Contains c s := by
    have corner : owner ((ofGraph (.line Float)).coarsened [[1], [3, 0], [2]] ⟨true⟩).origins 3 =
        some 1 := by decide
    have inner : owner ((ofGraph (.line Float)).coarsened [[1], [3, 0], [2]] ⟨true⟩).origins 1 =
        some 0 := by decide
    simp only [contains_iff_owner once, List.mem_cons, List.not_mem_nil, or_false, exists_eq_or_imp,
      exists_eq_left, corner, inner, Option.some.injEq, eq_comm]
  have parentSearch : (Hypergraph.line Float).hopLayers [3, 1] 2 = .ok [[3, 1], [2, 0]] := by
    decide +kernel
  have childSearch : ((ofGraph (.line Float)).coarsened [[1], [3, 0], [2]] ⟨true⟩).graph.hopLayers
      [1, 0] 2 = .ok [[1, 0], [2]] := by
    decide +kernel
  obtain ⟨layers, childLayers, searched, childSearched, sooner⟩ :=
    Reachable.hopLayers_coarsen top made covers (List.cons_ne_nil 3 [1]) (by decide) image 2
  obtain rfl := Except.ok.inj (parentSearch.symm.trans searched)
  obtain rfl := Except.ok.inj (childSearch.symm.trans childSearched)
  exact ⟨_, made, searched, childSearched, sooner⟩

end Multilevel.Level
