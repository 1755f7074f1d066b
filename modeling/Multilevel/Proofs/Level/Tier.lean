import Multilevel.Level.Coarsen
import Multilevel.Proofs.Hypergraph.Construction

/-!
# Tiers

A node that is appended to a tier is appended to its graph and to both of its vectors, so that the
vectors stay as long as the graph has nodes (`InStep`). They can then be read side by side, as what
each node stands for.
-/
namespace Multilevel

variable {α : Type}

namespace Tier

/-! ### The vectors side by side -/

theorem length_origins (t : Tier α) : t.origins.length = t.parents.length := List.length_mapIdx

theorem getElem?_origins (t : Tier α) (n : NodeId) :
    t.origins[n]? = t.parents[n]?.map fun parents => ⟨parents, t.virtual[n]?.getD false⟩ :=
  List.getElem?_mapIdx

theorem map_parents_origins (t : Tier α) : t.origins.map Origin.parents = t.parents := by
  apply List.ext_getElem?
  intro n
  rw [List.getElem?_map, getElem?_origins]
  cases t.parents[n]? <;> rfl

/-- Each node has an entry in both vectors. -/
structure InStep (t : Tier α) : Prop where
  parents : t.parents.length = t.graph.nodeCount
  virtual : t.virtual.length = t.graph.nodeCount

theorem InStep.length_origins {t : Tier α} (inStep : t.InStep) :
    t.origins.length = t.graph.nodeCount :=
  t.length_origins.trans inStep.parents

theorem InStep.map_isVirtual_origins {t : Tier α} (inStep : t.InStep) :
    t.origins.map Origin.isVirtual = t.virtual := by
  have lengths : t.parents.length = t.virtual.length := inStep.parents.trans inStep.virtual.symm
  apply List.ext_getElem?
  intro n
  rw [List.getElem?_map, getElem?_origins]
  rcases Nat.lt_or_ge n t.parents.length with known | outside
  · rw [List.getElem?_eq_getElem known, List.getElem?_eq_getElem (lengths ▸ known)]
    rfl
  · rw [List.getElem?_eq_none outside, List.getElem?_eq_none (lengths ▸ outside)]
    rfl

/-! ### Appending -/

theorem addNode_ok {t next : Tier α} {weights : List α} {o : Origin} :
    t.addNode weights o = .ok next ↔ ∃ g, t.graph.addNode weights = .ok g ∧
      next = ⟨g, t.parents ++ [o.parents], t.virtual ++ [o.isVirtual], t.fixed⟩ := by
  unfold addNode
  simp only [bind_ok, pure_ok, eq_comm (b := next)]

theorem addEdge_ok {t next : Tier α} {members : List NodeId} {weights : List α} :
    t.addEdge members weights = .ok next ↔ ∃ g, t.graph.addEdge members weights = .ok g ∧
      next = { t with graph := g } := by
  unfold addEdge
  simp only [bind_ok, pure_ok, eq_comm (b := next)]

/-- The tier whose vectors tell what its nodes stand for. -/
def ofOrigins (graph : Hypergraph α) (origins : List Origin) (fixed : Fixed) : Tier α :=
  ⟨graph, origins.map Origin.parents, origins.map Origin.isVirtual, fixed⟩

theorem origins_ofOrigins (graph : Hypergraph α) (origins : List Origin) (fixed : Fixed) :
    (ofOrigins graph origins fixed).origins = origins := by
  apply List.ext_getElem?
  intro n
  rw [getElem?_origins, ofOrigins, List.getElem?_map, List.getElem?_map]
  cases origins[n]? <;> rfl

theorem inStep_ofOrigins {graph : Hypergraph α} {origins : List Origin} {fixed : Fixed}
    (length : origins.length = graph.nodeCount) : (ofOrigins graph origins fixed).InStep :=
  ⟨(List.length_map _).trans length, (List.length_map _).trans length⟩

theorem addNode_ofOrigins {graph : Hypergraph α} {origins : List Origin} {fixed : Fixed}
    {weights : List α} {o : Origin} {next : Tier α} :
    (ofOrigins graph origins fixed).addNode weights o = .ok next ↔
      ∃ g, graph.addNode weights = .ok g ∧ next = ofOrigins g (origins ++ [o]) fixed := by
  rw [addNode_ok]
  simp only [ofOrigins, List.map_append, List.map_singleton]

theorem InStep.eq_ofOrigins {t : Tier α} (inStep : t.InStep) :
    t = ofOrigins t.graph t.origins t.fixed := by
  rw [ofOrigins, map_parents_origins, inStep.map_isVirtual_origins]

theorem InStep.addNode {t next : Tier α} {weights : List α} {o : Origin} (inStep : t.InStep)
    (made : t.addNode weights o = .ok next) : next.InStep ∧ next.origins = t.origins ++ [o] := by
  have length := inStep.length_origins
  rw [inStep.eq_ofOrigins] at made
  obtain ⟨g, added, rfl⟩ := addNode_ofOrigins.mp made
  obtain ⟨-, rfl⟩ := Hypergraph.addNode_ok.mp added
  refine ⟨inStep_ofOrigins ?_, origins_ofOrigins _ _ _⟩
  simpa [Hypergraph.nodeCount] using length

theorem InStep.addEdge {t next : Tier α} {members : List NodeId} {weights : List α}
    (inStep : t.InStep) (made : t.addEdge members weights = .ok next) :
    next.InStep ∧ next.origins = t.origins := by
  obtain ⟨g, added, rfl⟩ := addEdge_ok.mp made
  obtain ⟨-, rfl⟩ := (Hypergraph.addEdge_ok (e := ⟨weights, members⟩)).mp added
  have count : (t.graph.append (Edge.canonical ⟨weights, members⟩)).nodeCount =
      t.graph.nodeCount := List.length_mapIdx
  exact ⟨⟨inStep.parents.trans count.symm, inStep.virtual.trans count.symm⟩, rfl⟩

end Tier
end Multilevel
