import Multilevel.Proofs.Hypergraph.Layers
import Multilevel.Proofs.Hypergraph.Reachable

/-!
# Connections found by search

The members of an edge stand in increasing order, so a node can be looked for among them by giving up
half of the list in each step (`Ordered.search_iff`). A search that goes through the edges of one
node in this way, and stops at the first that spans the other, finds what `connected` says. It only
looks at the edges of the first node, and yet the order of the two nodes does not matter.
-/
namespace Multilevel

/-! ### Halving -/

namespace Ordered

/-- Looks for a number in an increasing list. The half in which it cannot be is given up, until
one place is left. -/
def search (a : Nat) (s : List Nat) : Bool :=
  if few : s.length ≤ 1 then s.head? = some a
  else
    let half := s.length / 2
    have inside : half < s.length := by omega
    if a < s[half] then search a (s.take (s.length - half)) else search a (s.drop half)
termination_by s.length
decreasing_by
  all_goals simp only [List.length_take, List.length_drop]
  all_goals omega

variable {a : Nat} {s : List Nat}

theorem le_of_mem_drop (increasing : s.Pairwise (· < ·)) {i k : Nat} (inside : i < s.length)
    (before : i ≤ k) (member : a ∈ s.drop k) : s[i] ≤ a := by
  obtain ⟨j, bound, rfl⟩ := List.mem_iff_getElem.mp member
  rw [List.length_drop] at bound
  rw [List.getElem_drop]
  rcases Nat.eq_or_lt_of_le (Nat.le_trans before (Nat.le_add_right k j)) with same | below
  · simp only [same, Nat.le_refl]
  · exact Nat.le_of_lt (List.pairwise_iff_getElem.mp increasing i (k + j) inside (by omega) below)

theorem lt_of_mem_take (increasing : s.Pairwise (· < ·)) {i : Nat} (inside : i < s.length)
    (member : a ∈ s.take i) : a < s[i] := by
  obtain ⟨j, bound, rfl⟩ := List.mem_iff_getElem.mp member
  rw [List.length_take] at bound
  rw [List.getElem_take]
  exact List.pairwise_iff_getElem.mp increasing j i (by omega) inside (by omega)

theorem search_iff (increasing : s.Pairwise (· < ·)) : search a s = true ↔ a ∈ s := by
  fun_induction search a s with
  | case1 s few =>
    match s with
    | [] => simp
    | [b] => simp [eq_comm]
    | _ :: _ :: _ => simp at few
  | case2 s many half inside below ih =>
    rw [ih (increasing.sublist (List.take_sublist _ _))]
    refine ⟨List.mem_of_mem_take, fun member => ?_⟩
    rw [← List.take_append_drop (s.length - half) s] at member
    refine (List.mem_append.mp member).resolve_right fun behind => ?_
    -- the half that is given up is never the longer one
    have large := le_of_mem_drop increasing inside (by omega) behind
    omega
  | case3 s many half inside above ih =>
    rw [ih (increasing.sublist (List.drop_sublist _ _))]
    refine ⟨List.mem_of_mem_drop, fun member => ?_⟩
    rw [← List.take_append_drop half s] at member
    refine (List.mem_append.mp member).resolve_left fun before => ?_
    exact above (lt_of_mem_take increasing inside before)

end Ordered

namespace Hypergraph

variable {α : Type} {g : Hypergraph α} {a b : NodeId}

/-! ### Searching the edges of a node -/

/-- Whether some edge spans a node. Edges behind the first one that does are not looked at. -/
def someSpans (g : Hypergraph α) (n : NodeId) : List EdgeId → Except Fault Bool
  | [] => return false
  | e :: rest => do
    if Ordered.search n (← g.members e) then return true else g.someSpans n rest

def searchConnected (g : Hypergraph α) (a b : NodeId) : Except Fault Bool := do
  let _ ← g.node b
  g.someSpans b (← g.incident a)

theorem WellFormed.someSpans_eq (wellFormed : g.WellFormed) {numbers : List EdgeId}
    {edges : List (Edge α)} (read : numbers.mapM g.edge = .ok edges) (n : NodeId) :
    g.someSpans n numbers = .ok (edges.any (n ∈ ·.members)) := by
  induction numbers generalizing edges with
  | nil =>
    obtain rfl := pure_ok.mp read
    rfl
  | cons e numbers ih =>
    obtain ⟨edge, others, first, rest, rfl⟩ := mapM_cons_ok.mp read
    have present := List.mem_of_getElem? (edge_ok.mp first)
    have found : Ordered.search n edge.members = decide (n ∈ edge.members) := by
      rw [Bool.eq_iff_iff, Ordered.search_iff (wellFormed.edges edge present).increasing,
        decide_eq_true_iff]
    rw [someSpans, members, first, List.any_cons]
    change (if Ordered.search n edge.members = true then pure true else g.someSpans n numbers) = _
    rw [found, ih rest]
    cases decide (n ∈ edge.members) <;> rfl

theorem WellFormed.searchConnected_eq (wellFormed : g.WellFormed) (a b : NodeId) :
    g.searchConnected a b = g.connected a b := by
  refine congrArg (g.node b >>= ·) (funext fun _ => ?_)
  by_cases known : a < g.nodeCount
  · rw [wellFormed.incident_eq known]
    change g.someSpans b (edgesAt g.edges a) =
      ((edgesAt g.edges a).mapM g.edge >>= fun edges => pure (edges.any (b ∈ ·.members)))
    rw [wellFormed.someSpans_eq (mapM_edge_edgesAt g a), mapM_edge_edgesAt]
    rfl
  · rw [incident, node_unknown (Nat.le_of_not_lt known)]
    rfl

/-! ### Connections and neighbours -/

theorem Linked.symm (linked : g.Linked a b) : g.Linked b a :=
  linked.imp fun _ ⟨present, first, second⟩ => ⟨present, second, first⟩

theorem linked_comm : g.Linked a b ↔ g.Linked b a := ⟨Linked.symm, Linked.symm⟩

theorem linked_self : g.Linked a a ↔ edgesAt g.edges a ≠ [] := by
  constructor
  · rintro ⟨e, present, spans, -⟩
    obtain ⟨i, read⟩ := List.mem_iff_getElem?.mp present
    exact List.ne_nil_of_mem (mem_edgesAt.mpr ⟨e, read, spans⟩)
  · intro some
    obtain ⟨i, listed⟩ := List.exists_mem_of_ne_nil _ some
    obtain ⟨e, read, spans⟩ := mem_edgesAt.mp listed
    exact ⟨e, List.mem_of_getElem? read, spans, spans⟩

/-- Two nodes are connected, in either order, exactly when some edge spans both. The neighbours of a
node are the others that it is connected to, in increasing order, and it is connected to itself
exactly when it has an edge. -/
theorem Reachable.connected_neighbors [One α] (reached : g.Reachable) (left : a < g.nodeCount)
    (right : b < g.nodeCount) : ∃ joined near edges,
      g.connected a b = .ok joined ∧ g.searchConnected a b = .ok joined ∧
      g.connected b a = .ok joined ∧
      (joined = true ↔ ∃ e ∈ g.edges, a ∈ e.members ∧ b ∈ e.members) ∧
      g.neighbors a = .ok near ∧ near.Pairwise (· < ·) ∧
      (∀ c, c ∈ near ↔ c ≠ a ∧ g.connected a c = .ok true) ∧
      g.incident a = .ok edges ∧ (g.connected a a = .ok true ↔ edges ≠ []) := by
  have wellFormed := reached.wellFormed
  obtain ⟨joined, called, linked⟩ := wellFormed.exists_connected left right
  have turned : g.connected b a = .ok joined :=
    wellFormed.connected_ok.mpr ⟨⟨right, left⟩, linked.trans linked_comm⟩
  refine ⟨joined, g.adjacent a, edgesAt g.edges a, called, ?_, turned, linked, ?_,
    Ordered.increasing_ofList _, fun c => ?_, wellFormed.incident_eq left, ?_⟩
  · rw [wellFormed.searchConnected_eq, called]
  · rw [wellFormed.neighbors_eq, if_pos left]
  · rw [mem_adjacent, wellFormed.connected_true]
  · rw [wellFormed.connected_true, linked_self]

def knot : Hypergraph Float := .ofParts ⟨[1], [1]⟩ [[1], [1], [1], [1]] [⟨[1], [0, 1, 3]⟩]

theorem reachable_knot : knot.Reachable := by
  have made : assemble ⟨[1], [1]⟩ [[1], [1], [1], [1]] [⟨[1], [3, 1, 0, 1]⟩] = .ok knot := rfl
  exact reachable_of_assemble made

theorem connected_neighbors_knot : knot.searchConnected 3 1 = .ok true ∧
    knot.connected 1 3 = .ok true ∧ knot.neighbors 3 = .ok [0, 1] ∧
    knot.connected 3 3 = .ok true ∧ knot.connected 2 2 ≠ .ok true := by
  obtain ⟨joined, near, edges, called, searched, turned, -, listed, -, -, incident, own⟩ :=
    reachable_knot.connected_neighbors (a := 3) (b := 1) (by decide) (by decide)
  obtain rfl : true = joined := Except.ok.inj (Eq.trans (by decide +kernel) called)
  obtain rfl : [0, 1] = near := Except.ok.inj (Eq.trans (by decide +kernel) listed)
  obtain rfl : [0] = edges := Except.ok.inj (Eq.trans (by decide +kernel) incident)
  obtain ⟨-, -, none, -, -, -, -, -, -, -, alone, apart⟩ :=
    reachable_knot.connected_neighbors (a := 2) (b := 2) (by decide) (by decide)
  obtain rfl : [] = none := Except.ok.inj (Eq.trans (by decide +kernel) alone)
  exact ⟨searched, turned, listed, own.mpr (List.cons_ne_nil _ _), fun joined => apart.mp joined rfl⟩

end Hypergraph
end Multilevel
