import Multilevel.Proofs.Hypergraph.Parallel
import Multilevel.Proofs.Level.Reachable

namespace Multilevel.Level

variable {α : Type} {g : Hypergraph α} {clusters : Clustering} {options : CoarsenOptions}

theorem accepts_ofGraph : (ofGraph g).Accepts clusters ↔
    (∀ n ∈ clusters.flatten, n < g.nodeCount) ∧ clusters.flatten.Nodup := by
  refine ⟨fun accepts => ⟨accepts.known, accepts.once⟩, fun ⟨known, once⟩ => ?_⟩
  refine ⟨⟨known, once, fun n _ read => ?_⟩, fun members _ b held => ?_⟩
  · have bare := (List.mem_replicate.mp (List.mem_of_getElem? read)).2
    cases bare
  · obtain ⟨n, -, fixed⟩ := List.mem_filterMap.mp held
    cases fixed

/-- What an edge becomes in a child depends on its members alone. -/
def destination (clusters : Clustering) (origins : List Origin) (members : List NodeId) :
    Option (List NodeId) :=
  if members.any fun n => decide (n ∈ clusters.flatten) then
    if 1 < (Ordered.ofList (members.filterMap (owner origins))).length then
      some (Ordered.ofList (members.filterMap (owner origins)))
    else none
  else none

theorem induced_eq_changed (clusters : Clustering) (origins : List Origin) :
    (induced clusters origins : Edge α → Option (Edge α)) =
      Hypergraph.changed (destination clusters origins) := by
  funext e
  unfold induced Clustering.touches Hypergraph.changed destination Edge.along Edge.imageAlong
  split
  · split <;> rfl
  · rfl

variable [Add α]

theorem nodeCount_compression (g : Hypergraph α) : g.compression.nodeCount = g.nodeCount :=
  (Hypergraph.nodeCount_ofParts _ _ _).trans (List.length_map _)

theorem weightsAt_compression (g : Hypergraph α) : g.compression.weightsAt = g.weightsAt := by
  funext n
  rw [Hypergraph.weightsAt, Hypergraph.weightsAt, ← List.getElem?_map, ← List.getElem?_map,
    Hypergraph.compression, Hypergraph.weights_ofParts]

theorem outskirts_compression : (ofGraph g.compression).outskirts clusters options =
    (ofGraph g).outskirts clusters options := by
  have edges : g.compression.edges.map Edge.members = (g.edges.map Edge.members).eraseDups :=
    Hypergraph.members_merged g.edges
  have met : boundary clusters g.compression.edges = boundary clusters g.edges := by
    rw [boundary_eq_eraseDups, boundary_eq_eraseDups, edges, eraseDups_flatMap]
  simp only [outskirts, ofGraph, graph, tier, met]

theorem childOrigins_compression : (ofGraph g.compression).childOrigins clusters options =
    (ofGraph g).childOrigins clusters options := by
  rw [childOrigins, childOrigins, outskirts_compression]

variable [Zero α]

theorem childWeights_compression : (ofGraph g.compression).childWeights clusters options =
    (ofGraph g).childWeights clusters options := by
  have nodes : (ofGraph g.compression).together = (ofGraph g).together := by
    funext members
    simp only [together, ofGraph, graph, tier, weightsAt_compression]
    rfl
  rw [childWeights, childWeights, nodes, outskirts_compression]
  rfl

def carried (g : Hypergraph α) (clusters : Clustering) (options : CoarsenOptions) :
    List NodeId → Option (List NodeId) :=
  destination clusters ((ofGraph g).childOrigins clusters options)

theorem childGraph_ofGraph : (ofGraph g).childGraph clusters options =
    .ofParts g.factors ((ofGraph g).childWeights clusters options)
      (g.edges.filterMap (Hypergraph.changed (carried g clusters options))) := by
  rw [childGraph, induced_eq_changed]
  rfl

theorem childGraph_compression : (ofGraph g.compression).childGraph clusters options =
    .ofParts g.factors ((ofGraph g).childWeights clusters options)
      ((Hypergraph.merged g.edges).filterMap
        (Hypergraph.changed (carried g clusters options))) := by
  rw [childGraph_ofGraph, carried, childWeights_compression, childOrigins_compression]
  rfl

/-- Coarsening accepts the same clusterings of a graph and of its compressed graph. The children
have the same nodes, and compressed they have the same edges, with the same weights where addition
is exact. -/
theorem coarsen_compressed [One α] (reached : g.Reachable) (clusters : Clustering)
    (options : CoarsenOptions) : ∃ k, g.compressed = .ok k ∧
    ((∃ c, (ofGraph g).coarsen clusters options = .ok c) ↔
      ∃ d, (ofGraph k).coarsen clusters options = .ok d) ∧
    ∀ c d, (ofGraph g).coarsen clusters options = .ok c →
      (ofGraph k).coarsen clusters options = .ok d →
      (∀ n, d.parentsOf n = c.parentsOf n) ∧ (∀ n, d.isVirtual n = c.isVirtual n) ∧
      d.graph.nodes.map Node.weights = c.graph.nodes.map Node.weights ∧
      ∃ e f, c.graph.compressed = .ok e ∧ d.graph.compressed = .ok f ∧
        f.factors = e.factors ∧ f.nodes = e.nodes ∧
        f.edges.map Edge.members = e.edges.map Edge.members ∧ (ExactAddition α → f = e) := by
  have wellFormed : (ofGraph g).graph.WellFormed := reached.wellFormed
  have merged : (ofGraph g.compression).graph.WellFormed := Hypergraph.WellFormed.compression wellFormed
  refine ⟨g.compression, Hypergraph.compressed_eq wellFormed, ?_, ?_⟩
  · simp only [coarsen_ok wellFormed, coarsen_ok merged, exists_and_left,
      exists_eq, and_true, accepts_ofGraph, nodeCount_compression]
  · intro c d first second
    obtain ⟨accepts, rfl⟩ := (coarsen_ok wellFormed).mp first
    obtain ⟨again, rfl⟩ := (coarsen_ok merged).mp second
    have left : ((ofGraph g).coarsened clusters options).graph = _ := childGraph_ofGraph
    have right : ((ofGraph g.compression).coarsened clusters options).graph = _ :=
      childGraph_compression
    have plain : ((ofGraph g).coarsened clusters options).WellFormed :=
      accepts.wellFormed wellFormed
    have bundled : ((ofGraph g.compression).coarsened clusters options).WellFormed :=
      again.wellFormed merged
    rw [left, right]
    have same := Hypergraph.members_merged_changed (carried g clusters options) g.edges
    refine ⟨fun n => ?_, fun n => ?_, ?_, _, _, Hypergraph.compressed_ofParts (left ▸ plain.graph),
      Hypergraph.compressed_ofParts (right ▸ bundled.graph), rfl, ?_, same, fun exact => ?_⟩
    · simp only [parentsOf, coarsened, tier, Tier.ofOrigins, childOrigins_compression]
    · simp only [isVirtual, coarsened, tier, Tier.ofOrigins, childOrigins_compression]
    · rw [Hypergraph.weights_ofParts, Hypergraph.weights_ofParts]
    · simp only [Hypergraph.ofParts, Hypergraph.edgesAt_congr _ same]
    · rw [Hypergraph.merged_merged_changed _ exact fun e present =>
        (reached.wellFormed.edges e present).weights]

def doubled : Hypergraph Rat :=
  .ofParts ⟨[1], [1]⟩ [[1], [1], [1]] [⟨[1], [0, 1]⟩, ⟨[1], [1, 2]⟩, ⟨[1], [0, 1]⟩]

theorem coarsen_compressed_doubled : ∃ k c d e,
    doubled.compressed = .ok k ∧ (ofGraph doubled).coarsen [[1], [0]] ⟨true⟩ = .ok c ∧
    (ofGraph k).coarsen [[1], [0]] ⟨true⟩ = .ok d ∧ c.graph.edgeCount = 3 ∧ d.graph.edgeCount = 2 ∧
    d.parentsOf 2 = c.parentsOf 2 ∧ c.graph.compressed = .ok e ∧ d.graph.compressed = .ok e := by
  have built : Hypergraph.assemble ⟨[1], [1]⟩ [[1], [1], [1]]
      [⟨[1], [0, 1]⟩, ⟨[1], [1, 2]⟩, ⟨[1], [1, 0]⟩] = .ok doubled := rfl
  obtain ⟨k, compressed, accepted, children⟩ :=
    coarsen_compressed (Hypergraph.reachable_of_assemble built) [[1], [0]] ⟨true⟩
  obtain ⟨c, plain⟩ := ok_of_isOk (x := (ofGraph doubled).coarsen [[1], [0]] ⟨true⟩) (by decide)
  obtain ⟨d, bundled⟩ := accepted.mp ⟨c, plain⟩
  obtain ⟨parents, -, -, e, f, left, right, -, -, -, same⟩ := children c d plain bundled
  obtain rfl := same exactAddition_rat
  refine ⟨k, c, d, f, compressed, plain, bundled, ?_, ?_, parents 2, left, right⟩
  · obtain ⟨c', made, count⟩ : ∃ c', (ofGraph doubled).coarsen [[1], [0]] ⟨true⟩ = .ok c' ∧
        c'.graph.edgeCount = 3 := ⟨_, rfl, rfl⟩
    rwa [Except.ok.inj (plain.symm.trans made)]
  · obtain ⟨k', d', small, made, count⟩ : ∃ k' d', doubled.compressed = .ok k' ∧
        (ofGraph k').coarsen [[1], [0]] ⟨true⟩ = .ok d' ∧ d'.graph.edgeCount = 2 :=
      ⟨_, _, rfl, rfl, rfl⟩
    obtain rfl := Except.ok.inj (compressed.symm.trans small)
    rwa [Except.ok.inj (bundled.symm.trans made)]

end Multilevel.Level
