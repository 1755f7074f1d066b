import Multilevel.Proofs.Hypergraph.Construction
import Multilevel.Proofs.InPlace

/-!
# Calls that change a hypergraph

A program changes a graph by calls, each of which may be refused. As a value, a call makes a graph
or a fault (`Edit.apply`). Where the graph is changed in place, a call is a row of checks and single
writes (`Edit.update`), and its checks come first: a refused call leaves the graph as it was, and
no write misses (`Edit.update_on`).
-/
namespace Multilevel.Hypergraph

variable {α γ : Type}

/-! ### Calls -/

inductive Edit (α : Type)
  | addNode (weights : List α)
  | addEdge (members : List NodeId) (weights : List α)
  | setNodeWeights (node : NodeId) (weights : List α)
  | setEdgeWeights (edge : EdgeId) (weights : List α)
  | setNodeFactor (factor : List α)
  | setEdgeFactor (factor : List α)

def Edit.Suits (g : Hypergraph α) : Edit α → Prop
  | addNode weights => weights.length = g.nodeDim
  | addEdge members weights =>
    (Edge.canonical ⟨weights, members⟩).WellFormed g.edgeDim g.nodeCount
  | setNodeWeights node weights => weights.length = g.nodeDim ∧ node < g.nodeCount
  | setEdgeWeights edge weights => weights.length = g.edgeDim ∧ edge < g.edgeCount
  | setNodeFactor factor => factor ≠ []
  | setEdgeFactor factor => factor ≠ []

section
variable [One α]

def Edit.apply (g : Hypergraph α) : Edit α → Except Fault (Hypergraph α)
  | addNode weights => g.addNode weights
  | addEdge members weights => g.addEdge members weights
  | setNodeWeights node weights => g.setNodeWeights node weights
  | setEdgeWeights edge weights => g.setEdgeWeights edge weights
  | setNodeFactor factor => g.setNodeFactor factor
  | setEdgeFactor factor => g.setEdgeFactor factor

/-- A call is accepted exactly when its arguments suit the graph. -/
theorem Edit.apply_ok {g : Hypergraph α} {edit : Edit α} :
    (∃ h, edit.apply g = .ok h) ↔ edit.Suits g := by
  cases edit with
  | addNode weights => simp only [apply, addNode_ok, Suits, exists_and_left, exists_eq, and_true]
  | addEdge members weights =>
    have accepts (h : Hypergraph α) := addEdge_ok (g := g) (h := h) (e := ⟨weights, members⟩)
    simp only [apply, accepts, Suits, exists_and_left, exists_eq, and_true]
  | setNodeWeights node weights =>
    simp only [apply, setNodeWeights_ok, Suits, exists_and_left]
    refine and_congr Iff.rfl ⟨?_, fun bound => ?_⟩
    · rintro ⟨_, _, read, -⟩
      exact (List.getElem?_eq_some_iff.mp read).1
    · exact ⟨_, g.nodes[node], List.getElem?_eq_getElem bound, rfl⟩
  | setEdgeWeights edge weights =>
    simp only [apply, setEdgeWeights_ok, Suits, exists_and_left]
    refine and_congr Iff.rfl ⟨?_, fun bound => ?_⟩
    · rintro ⟨_, _, read, -⟩
      exact (List.getElem?_eq_some_iff.mp read).1
    · exact ⟨_, g.edges[edge], List.getElem?_eq_getElem bound, rfl⟩
  | setNodeFactor factor => cases factor <;> simp [apply, Hypergraph.setNodeFactor, Suits]
  | setEdgeFactor factor => cases factor <;> simp [apply, Hypergraph.setEdgeFactor, Suits]

end

/-! ### In place -/

/-- A computation that changes a graph where it lies. -/
abbrev Update (α γ : Type) := InPlace (Hypergraph α) γ

namespace Update

def asked (query : Hypergraph α → Except Fault γ) : Update α γ := do
  InPlace.reported (query (← get))

def nodes : Part (Hypergraph α) (Node α) :=
  ⟨Hypergraph.nodes, fun g nodes => { g with nodes }, fun _ _ => rfl, fun _ => rfl, fun _ _ _ => rfl⟩

def edges : Part (Hypergraph α) (Edge α) :=
  ⟨Hypergraph.edges, fun g edges => { g with edges }, fun _ _ => rfl, fun _ => rfl, fun _ _ _ => rfl⟩

def addNode (weights : List α) : Update α NodeId := do
  asked (·.checkNodeWeights weights)
  let id := (← get).nodeCount
  modify fun g => { g with nodes := g.nodes ++ [⟨weights, []⟩] }
  return id

/-- The edge is entered at each of its members before it is there itself. -/
def addEdge (members : List NodeId) (weights : List α) : Update α EdgeId := do
  asked (·.checkEdgeWeights weights)
  let members := Ordered.ofList members
  if members.length < 2 then throw (.fault (.tooFewMembers members.length))
  else
    let g ← get
    match members.find? (g.nodeCount ≤ ·) with
    | some stranger => throw (.fault (.unknownMember stranger g.nodeCount))
    | none =>
      let id := g.edgeCount
      forM members (nodes.writeAt fun node => { node with edges := node.edges ++ [id] })
      modify fun g => { g with edges := g.edges ++ [⟨weights, members⟩] }
      return id

def setNodeWeights (n : NodeId) (weights : List α) : Update α Unit := do
  asked (·.checkNodeWeights weights)
  let _ ← asked (·.node n)
  nodes.writeAt (fun node => { node with weights }) n

def setEdgeWeights (e : EdgeId) (weights : List α) : Update α Unit := do
  asked (·.checkEdgeWeights weights)
  let _ ← asked (·.edge e)
  edges.writeAt (fun edge => { edge with weights }) e

/-- The dimension is changed before the weights, which are brought to it one by one. -/
def setNodeFactor [One α] (factor : List α) : Update α Unit :=
  if factor.isEmpty then throw (.fault (.emptyFactor .node))
  else do
    modify fun g => { g with factors := { g.factors with node := factor } }
    forM (List.range (← get).nodeCount)
      (nodes.writeAt fun node => { node with weights := Weight.reshape factor.length node.weights })

def setEdgeFactor [One α] (factor : List α) : Update α Unit :=
  if factor.isEmpty then throw (.fault (.emptyFactor .edge))
  else do
    modify fun g => { g with factors := { g.factors with edge := factor } }
    forM (List.range (← get).edgeCount)
      (edges.writeAt fun edge => { edge with weights := Weight.reshape factor.length edge.weights })

/-! ### Single writes -/

variable {δ : Type}

theorem asked_bind_on (query : Hypergraph α → Except Fault γ) (f : γ → Update α δ)
    (g : Hypergraph α) : InPlace.on (asked query >>= f) g =
      match query g with
      | .ok a => (f a).on g
      | .error fault => (.error (.fault fault), g) := by
  have ends : (asked query).on g = ((query g).mapError .fault, g) := rfl
  rw [InPlace.on_bind, ends]
  cases query g <;> rfl

/-! ### Whole calls -/

/-- How a call ends that does all its checks before it writes. -/
def settled (g : Hypergraph α) (answer : γ) :
    Except Fault (Hypergraph α) → Except Stop γ × Hypergraph α
  | .ok h => (.ok answer, h)
  | .error fault => (.error (.fault fault), g)

theorem addNode_on (g : Hypergraph α) (weights : List α) :
    (addNode weights).on g = settled g g.nodeCount (g.addNode weights) := by
  simp only [addNode, asked_bind_on, Hypergraph.addNode]
  cases g.checkNodeWeights weights <;> rfl

theorem addEdge_on (g : Hypergraph α) (members : List NodeId) (weights : List α) :
    (addEdge members weights).on g = settled g g.edgeCount (g.addEdge members weights) := by
  simp only [addEdge, asked_bind_on, Hypergraph.addEdge]
  cases g.checkEdgeWeights weights with
  | error => rfl
  | ok =>
    change InPlace.on (if _ then _ else _) g = settled g _ (if _ then _ else _)
    by_cases few : (Ordered.ofList members).length < 2
    · rw [if_pos few, if_pos few]
      rfl
    · rw [if_neg few, if_neg few, InPlace.on_bind, InPlace.get_on]
      dsimp only
      cases found : (Ordered.ofList members).find? (g.nodeCount ≤ ·) with
      | some stranger => rfl
      | none =>
        -- no member is missing, so every push finds its node
        have known : ∀ n ∈ Ordered.ofList members, n < g.nodeCount := fun n member => by
          simpa using List.find?_eq_none.mp found n member
        have once : (Ordered.ofList members).Nodup :=
          (Ordered.increasing_ofList members).imp Nat.ne_of_lt
        rw [InPlace.on_bind, nodes.forM_writeAt_on _ once known]
        rfl

theorem setNodeWeights_on (g : Hypergraph α) (n : NodeId) (weights : List α) :
    (setNodeWeights n weights).on g = settled g () (g.setNodeWeights n weights) := by
  simp only [setNodeWeights, asked_bind_on, Hypergraph.setNodeWeights]
  cases g.checkNodeWeights weights with
  | error => rfl
  | ok =>
    cases found : g.node n with
    | error => rfl
    | ok held =>
      have read : g.nodes[n]? = some held := node_ok.mp found
      have known : n < g.nodeCount := (List.getElem?_eq_some_iff.mp read).1
      dsimp only
      rw [nodes.writeAt_on _ known]
      change (_, { g with nodes := g.nodes.modify _ _ }) = _
      rw [List.modify_eq_set_getElem?, read]
      rfl

theorem setEdgeWeights_on (g : Hypergraph α) (e : EdgeId) (weights : List α) :
    (setEdgeWeights e weights).on g = settled g () (g.setEdgeWeights e weights) := by
  simp only [setEdgeWeights, asked_bind_on, Hypergraph.setEdgeWeights]
  cases g.checkEdgeWeights weights with
  | error => rfl
  | ok =>
    cases found : g.edge e with
    | error => rfl
    | ok held =>
      have read : g.edges[e]? = some held := edge_ok.mp found
      have known : e < g.edgeCount := (List.getElem?_eq_some_iff.mp read).1
      dsimp only
      rw [edges.writeAt_on _ known]
      change (_, { g with edges := g.edges.modify _ _ }) = _
      rw [List.modify_eq_set_getElem?, read]
      rfl

theorem setNodeFactor_on [One α] (g : Hypergraph α) (factor : List α) :
    (setNodeFactor factor).on g = settled g () (g.setNodeFactor factor) := by
  unfold setNodeFactor Hypergraph.setNodeFactor
  split
  · rfl
  · simp only [InPlace.on_bind, InPlace.modify_on, InPlace.get_on]
    exact nodes.forM_writeAt_range_on _ { g with factors := { g.factors with node := factor } }

theorem setEdgeFactor_on [One α] (g : Hypergraph α) (factor : List α) :
    (setEdgeFactor factor).on g = settled g () (g.setEdgeFactor factor) := by
  unfold setEdgeFactor Hypergraph.setEdgeFactor
  split
  · rfl
  · simp only [InPlace.on_bind, InPlace.modify_on, InPlace.get_on]
    exact edges.forM_writeAt_range_on _ { g with factors := { g.factors with edge := factor } }

theorem settled_bind (g : Hypergraph α) (u : Update α γ) {answer : γ}
    {x : Except Fault (Hypergraph α)} (ends : u.on g = settled g answer x) :
    InPlace.on (do let _ ← u) g = settled g () x := by
  rw [InPlace.on_bind, ends]
  cases x <;> rfl

end Update

section
variable [One α]

def Edit.update : Edit α → Update α Unit
  | addNode weights => do let _ ← Update.addNode weights
  | addEdge members weights => do let _ ← Update.addEdge members weights
  | setNodeWeights node weights => Update.setNodeWeights node weights
  | setEdgeWeights edge weights => Update.setEdgeWeights edge weights
  | setNodeFactor factor => Update.setNodeFactor factor
  | setEdgeFactor factor => Update.setEdgeFactor factor

/-- In place, a call does what it does to a value. A refused one has written nothing. -/
theorem Edit.update_on (edit : Edit α) (g : Hypergraph α) :
    edit.update.on g = Update.settled g () (edit.apply g) := by
  cases edit with
  | addNode weights => exact Update.settled_bind g _ (Update.addNode_on g weights)
  | addEdge members weights => exact Update.settled_bind g _ (Update.addEdge_on g members weights)
  | setNodeWeights node weights => exact Update.setNodeWeights_on g node weights
  | setEdgeWeights edge weights => exact Update.setEdgeWeights_on g edge weights
  | setNodeFactor factor => exact Update.setNodeFactor_on g factor
  | setEdgeFactor factor => exact Update.setEdgeFactor_on g factor

/-- The graph that a program holds after a call. -/
def after (g : Hypergraph α) (edit : Edit α) : Hypergraph α := (edit.update.on g).2

theorem after_of_ok {g h : Hypergraph α} {edit : Edit α} (accepted : edit.apply g = .ok h) :
    g.after edit = h := by
  rw [after, edit.update_on, accepted]
  rfl

theorem after_of_error {g : Hypergraph α} {edit : Edit α} {fault : Fault}
    (refused : edit.apply g = .error fault) : g.after edit = g := by
  rw [after, edit.update_on, refused]
  rfl

end
end Multilevel.Hypergraph
