import Mathlib.Algebra.Field.Rat
import Multilevel.Proofs.Hypergraph.Reachable

/-!
# Histories of factors

New factors cut off the weight vectors that are too long for them and fill up those that are too
short. What is cut off is lost, so over a history of factors an entry is kept only as long as none
of them is too short for it (`Weight.getElem?_reshapeAll`).
-/
namespace Multilevel

variable {α : Type}

/-! ### Reshaping again and again -/

namespace Weight

variable [One α] {w : List α}

theorem getElem?_reshape {dim i : Nat} (inside : i < dim) :
    (reshape dim w)[i]? = some (w[i]?.getD 1) := by
  unfold reshape
  rcases Nat.lt_or_ge i w.length with old | new
  · have kept : i < (w.take dim).length := by
      rw [List.length_take]
      omega
    rw [List.getElem?_append_left kept, List.getElem?_take_of_lt inside,
      List.getElem?_eq_getElem old]
    rfl
  · have cut : (w.take dim).length ≤ i := by
      rw [List.length_take]
      omega
    have filled : i - (w.take dim).length < dim - w.length := by
      rw [List.length_take]
      omega
    rw [List.getElem?_append_right cut, List.getElem?_replicate, if_pos filled,
      List.getElem?_eq_none new]
    rfl

def reshapeAll (factors : List (List α)) (w : List α) : List α :=
  factors.foldl (fun w factor => reshape factor.length w) w

theorem getElem?_reshapeAll {factors : List (List α)} {i : Nat}
    (inside : i < (reshapeAll factors w).length) : (reshapeAll factors w)[i]? =
      some (if ∀ factor ∈ factors, i < factor.length then w[i]?.getD 1 else 1) := by
  induction factors generalizing w with
  | nil =>
    have held : i < w.length := inside
    rw [if_pos nofun, List.getElem?_eq_getElem held]
    exact List.getElem?_eq_getElem held
  | cons factor factors ih =>
    refine (ih inside).trans ?_
    by_cases long : i < factor.length
    · simp only [List.forall_mem_cons, long, true_and, getElem?_reshape long, Option.getD_some]
    · have none : (reshape factor.length w)[i]? = none := by
        refine List.getElem?_eq_none ?_
        rw [Hypergraph.length_reshape]
        exact Nat.not_lt.mp long
      simp only [List.forall_mem_cons, long, false_and, if_false, none, Option.getD_none, ite_self]

end Weight

/-! ### Calls one after another -/

namespace Hypergraph

def accepted (history : List (List α)) : List (List α) := history.filter (!·.isEmpty)

/-- The last factors that were accepted, or those from before. -/
def inForce (before : List α) (history : List (List α)) : List α :=
  (accepted history).getLast?.getD before

theorem inForce_cons {before factor : List α} (some : factor ≠ []) (history : List (List α)) :
    inForce before (factor :: history) = inForce factor history := by
  rw [inForce, accepted, List.filter_cons_of_pos (by simpa using some), List.getLast?_cons]
  rfl

variable [One α] {g : Hypergraph α}

def afterAll (g : Hypergraph α) (edits : List (Edit α)) : Hypergraph α := edits.foldl after g

theorem Reachable.afterAll (reached : g.Reachable) (edits : List (Edit α)) :
    (g.afterAll edits).Reachable := by
  induction edits generalizing g with
  | nil => exact reached
  | cons edit edits ih => exact ih (reached.after edit)

theorem afterAll_setNodeFactor (g : Hypergraph α) (history : List (List α)) :
    g.afterAll (history.map .setNodeFactor) =
      { g with
        factors := ⟨inForce g.factors.node history, g.factors.edge⟩
        nodes := g.nodes.map fun n =>
          { n with weights := Weight.reshapeAll (accepted history) n.weights } } := by
  induction history generalizing g with
  | nil => exact congrArg (Hypergraph.mk g.factors · g.edges) (List.map_id' _).symm
  | cons factor history ih =>
    refine (ih _).trans ?_
    cases factor with
    | nil => rfl
    | cons a rest =>
      have step : g.after (.setNodeFactor (a :: rest)) = _ := after_of_ok rfl
      rw [step, inForce_cons (List.cons_ne_nil a rest)]
      refine congrArg (Hypergraph.mk _ · g.edges) ?_
      exact List.map_map

theorem afterAll_setEdgeFactor (g : Hypergraph α) (history : List (List α)) :
    g.afterAll (history.map .setEdgeFactor) =
      { g with
        factors := ⟨g.factors.node, inForce g.factors.edge history⟩
        edges := g.edges.map fun e =>
          { e with weights := Weight.reshapeAll (accepted history) e.weights } } := by
  induction history generalizing g with
  | nil => exact congrArg (Hypergraph.mk g.factors g.nodes) (List.map_id' _).symm
  | cons factor history ih =>
    refine (ih _).trans ?_
    cases factor with
    | nil => rfl
    | cons a rest =>
      have step : g.after (.setEdgeFactor (a :: rest)) = _ := after_of_ok rfl
      rw [step, inForce_cons (List.cons_ne_nil a rest)]
      refine congrArg (Hypergraph.mk _ g.nodes) ?_
      exact List.map_map

/-! ### What is kept -/

/-- A vector before and after a history of factors, with the dimensions before and after. An entry
is kept if it was there and no accepted factor was too short for it; any other entry is one. -/
structure Reshaped (old new : Nat) (history : List (List α)) (before after : List α) : Prop where
  length : after.length = new
  kept : ∀ i < new, i < old → (∀ factor ∈ accepted history, i < factor.length) →
    after[i]? = before[i]?
  filled : ∀ i < new, (old ≤ i ∨ ∃ factor ∈ accepted history, factor.length ≤ i) →
    after[i]? = some 1

theorem reshaped_reshapeAll {old new : Nat} {history : List (List α)} {w : List α}
    (before : w.length = old)
    (after : (Weight.reshapeAll (accepted history) w).length = new) :
    Reshaped old new history w (Weight.reshapeAll (accepted history) w) where
  length := after
  kept i inside held long := by
    rw [Weight.getElem?_reshapeAll (after ▸ inside), if_pos long,
      List.getElem?_eq_getElem (before ▸ held)]
    rfl
  filled i inside lost := by
    rw [Weight.getElem?_reshapeAll (after ▸ inside)]
    split
    · rename_i long
      rcases lost with new | ⟨factor, present, short⟩
      · rw [List.getElem?_eq_none (before ▸ new)]
        rfl
      · exact absurd (long factor present) (Nat.not_lt.mpr short)
    · rfl

theorem setFactor_ok (g : Hypergraph α) (factor : List α) :
    ((∃ h, g.setNodeFactor factor = .ok h) ↔ factor ≠ []) ∧
      ((∃ h, g.setEdgeFactor factor = .ok h) ↔ factor ≠ []) := by
  have node : (∃ h, (Edit.setNodeFactor factor).apply g = .ok h) ↔ factor ≠ [] := Edit.apply_ok
  have edge : (∃ h, (Edit.setEdgeFactor factor).apply g = .ok h) ↔ factor ≠ [] := Edit.apply_ok
  exact ⟨node, edge⟩

/-- Factors are refused if there are none. Those that are accepted reshape the weights of one kind
entry by entry, and change nothing else but the factors of that kind. -/
theorem Reachable.afterAll_factors (reached : g.Reachable) (history : List (List α)) :
    (∀ (k : Hypergraph α) (factor : List α), ((∃ h, k.setNodeFactor factor = .ok h) ↔ factor ≠ []) ∧
      ((∃ h, k.setEdgeFactor factor = .ok h) ↔ factor ≠ [])) ∧
    (let h := g.afterAll (history.map .setNodeFactor);
      h.factors = ⟨inForce g.factors.node history, g.factors.edge⟩ ∧ h.edges = g.edges ∧
      List.Forall₂ (fun before after : Node α => after.edges = before.edges ∧
        Reshaped g.nodeDim h.nodeDim history before.weights after.weights) g.nodes h.nodes) ∧
    (let h := g.afterAll (history.map .setEdgeFactor);
      h.factors = ⟨g.factors.node, inForce g.factors.edge history⟩ ∧ h.nodes = g.nodes ∧
      List.Forall₂ (fun before after : Edge α => after.members = before.members ∧
        Reshaped g.edgeDim h.edgeDim history before.weights after.weights) g.edges h.edges) := by
  have wellFormed := reached.wellFormed
  refine ⟨setFactor_ok, ?_, ?_⟩
  · have after := (reached.afterAll (history.map .setNodeFactor)).wellFormed
    rw [afterAll_setNodeFactor] at after ⊢
    refine ⟨rfl, rfl, List.forall₂_map_right_iff.mpr (List.forall₂_same.mpr fun n member => ?_)⟩
    exact ⟨rfl, reshaped_reshapeAll (wellFormed.nodeWeights n member)
      (after.nodeWeights _ (List.mem_map_of_mem member))⟩
  · have after := (reached.afterAll (history.map .setEdgeFactor)).wellFormed
    rw [afterAll_setEdgeFactor] at after ⊢
    refine ⟨rfl, rfl, List.forall₂_map_right_iff.mpr (List.forall₂_same.mpr fun e member => ?_)⟩
    exact ⟨rfl, reshaped_reshapeAll (wellFormed.edges e member).weights
      (after.edges _ (List.mem_map_of_mem member)).weights⟩

/-- Two nodes whose second weights are lost to factors of length one, and come back as ones. -/
def twins : Hypergraph Rat := ofParts ⟨[1, 1], [1]⟩ [[7, 8], [5, 6]] [⟨[3], [0, 1]⟩]

theorem afterAll_factors_twins :
    let history : List (List Rat) := [[1, 1, 1], [], [4], [1, 2]]
    let h := twins.afterAll (history.map .setNodeFactor)
    twins.Reachable ∧ h.factors = ⟨[1, 2], [1]⟩ ∧ h.edges = [⟨[3], [0, 1]⟩] ∧
      List.Forall₂ (fun before after : Node Rat => after.edges = before.edges ∧
        Reshaped 2 2 history before.weights after.weights) twins.nodes h.nodes ∧
      h.nodes.map Node.weights = [[7, 1], [5, 1]] := by
  intro history h
  have built : assemble ⟨[1, 1], [1]⟩ [[7, 8], [5, 6]] [⟨[3], [0, 1]⟩] = .ok twins := rfl
  have reached := reachable_of_assemble built
  obtain ⟨-, ⟨factors, edges, nodes⟩, -⟩ := reached.afterAll_factors history
  exact ⟨reached, factors, edges, nodes, rfl⟩

end Hypergraph
end Multilevel
