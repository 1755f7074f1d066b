import Multilevel.Hypergraph.Digest
import Multilevel.Snapshot.Text
import Multilevel.Proofs.Hypergraph.Reachable
import Multilevel.Proofs.Json.Float

/-!
# Text snapshots restore graphs

A graph with finite scalars is read from its text with all that it had, but with every scalar as the
reader of numbers reads it. So a graph is restored exactly where that reader gives each of its
scalars back, which it does for numbers with few digits and not for every number.
-/
namespace Multilevel

variable {α β : Type}

/-! ### Scalars of a graph -/

def Factors.map (f : α → β) (factors : Factors α) : Factors β :=
  ⟨factors.node.map f, factors.edge.map f⟩

def Node.map (f : α → β) (n : Node α) : Node β := ⟨n.weights.map f, n.edges⟩

def Edge.map (f : α → β) (e : Edge α) : Edge β := ⟨e.weights.map f, e.members⟩

namespace Hypergraph

def mapScalars (f : α → β) (g : Hypergraph α) : Hypergraph β where
  factors := g.factors.map f
  nodes := g.nodes.map (Node.map f)
  edges := g.edges.map (Edge.map f)

def scalars (g : Hypergraph α) : List α :=
  g.factors.node ++ (g.factors.edge ++
    (g.nodes.flatMap Node.weights ++ g.edges.flatMap Edge.weights))

theorem forall_mem_scalars {g : Hypergraph α} {P : α → Prop} : (∀ x ∈ g.scalars, P x) ↔
    (∀ x ∈ g.factors.node, P x) ∧ (∀ x ∈ g.factors.edge, P x) ∧
      (∀ n ∈ g.nodes, ∀ x ∈ n.weights, P x) ∧ ∀ e ∈ g.edges, ∀ x ∈ e.weights, P x := by
  rw [scalars, List.forall_mem_append, List.forall_mem_append, List.forall_mem_append,
    List.forall_mem_flatMap, List.forall_mem_flatMap]

theorem scalars_mapScalars (f : α → β) (g : Hypergraph α) :
    (g.mapScalars f).scalars = g.scalars.map f := by
  simp [scalars, mapScalars, Factors.map, Node.map, Edge.map, List.map_flatMap, List.flatMap_map]

/-- Only scalars that are all kept leave the graph as it is. -/
theorem mapScalars_eq_self {g : Hypergraph α} {f : α → α} :
    g.mapScalars f = g ↔ ∀ x ∈ g.scalars, f x = x := by
  constructor
  · intro same
    have scalars := (scalars_mapScalars f g).symm.trans (congrArg scalars same)
    exact List.map_inj_left.mp (scalars.trans (List.map_id _).symm)
  · intro kept
    obtain ⟨nodeFactor, edgeFactor, nodes, edges⟩ := forall_mem_scalars.mp kept
    have kept {values : List α} (each : ∀ x ∈ values, f x = x) : values.map f = values :=
      (List.map_congr_left each).trans (List.map_id _)
    have sameNodes : g.nodes.map (Node.map f) = g.nodes :=
      (List.map_congr_left fun n member => congrArg (Node.mk · n.edges)
        (kept (nodes n member))).trans (List.map_id _)
    have sameEdges : g.edges.map (Edge.map f) = g.edges :=
      (List.map_congr_left fun e member => congrArg (Edge.mk · e.members)
        (kept (edges e member))).trans (List.map_id _)
    rw [mapScalars, Factors.map, kept nodeFactor, kept edgeFactor, sameNodes, sameEdges]

theorem WellFormed.mapScalars {g : Hypergraph α} (wellFormed : g.WellFormed) (f : α → β) :
    (g.mapScalars f).WellFormed where
  nodeFactor := by simp [Hypergraph.mapScalars, Factors.map, wellFormed.nodeFactor]
  edgeFactor := by simp [Hypergraph.mapScalars, Factors.map, wellFormed.edgeFactor]
  nodeWeights := List.forall_mem_map.mpr fun n member => by
    simpa [nodeDim, Hypergraph.mapScalars, Factors.map, Node.map] using
      wellFormed.nodeWeights n member
  edges := List.forall_mem_map.mpr fun e member => by
    obtain ⟨weights, increasing, spanning, known⟩ := wellFormed.edges e member
    refine ⟨?_, increasing, spanning, fun n listed => ?_⟩
    · simpa [edgeDim, Hypergraph.mapScalars, Factors.map, Edge.map] using weights
    · simpa [nodeCount, Hypergraph.mapScalars] using known n listed
  incidence n node read := by
    rw [Hypergraph.mapScalars, List.getElem?_map] at read
    obtain ⟨original, present, rfl⟩ := Option.map_eq_some_iff.mp read
    obtain ⟨increasing, spans⟩ := wellFormed.incidence n original present
    refine ⟨increasing, fun e => (spans e).trans ?_⟩
    simp [Hypergraph.mapScalars, Edge.map]

end Hypergraph

/-! ### Parts of a graph -/

namespace Snapshot

open Json

section
variable {values : List Float} (finite : ∀ x ∈ values, x.isFinite = true)
include finite

theorem list?_ofFloats : list? float? (ofFloats values) = some (values.map reread) :=
  list?_map fun x member => float?_ofFloat (finite x member)

theorem sound_ofFloats : Sound (ofFloats values) :=
  sound_array fun x member => sound_ofFloat (finite x member)

end

theorem factors_ofJson? {f : Factors Float} (node : ∀ x ∈ f.node, x.isFinite = true)
    (edge : ∀ x ∈ f.edge, x.isFinite = true) : Factors.ofJson? f.toJson = some (f.map reread) := by
  have keys : ["node_weight_factor", "edge_weight_factor"].Nodup := by decide
  have read : fields? ["node_weight_factor", "edge_weight_factor"] f.toJson =
      some [.given (ofFloats f.node), .given (ofFloats f.edge)] := fields?_record keys
  simp [Factors.ofJson?, read, list?_ofFloats node, list?_ofFloats edge, Factors.map]

theorem edge_ofJson? {e : Edge Float} (members : ∀ n ∈ e.members, n < 2 ^ 64)
    (finite : ∀ x ∈ e.weights, x.isFinite = true) :
    edgeOfJson? (edgeJson e) = some (e.map reread) := by
  have keys : ["members", "weights"].Nodup := by decide
  have read : fields? ["members", "weights"] (edgeJson e) =
      some [.given (ofNats e.members), .given (ofFloats e.weights)] := fields?_record keys
  have listed : list? nat? (ofNats e.members) = some e.members :=
    (list?_map fun n member => nat?_ofNat (members n member)).trans (congrArg some (List.map_id _))
  simp [edgeOfJson?, read, listed, list?_ofFloats finite, Edge.map]

variable {g : Hypergraph Float} (wellFormed : g.WellFormed) (few : g.nodeCount < 2 ^ 64)
  (finite : ∀ x ∈ g.scalars, x.isFinite = true)

include wellFormed few finite in
theorem content_ofJson? : contentOfJson? (json g) =
    some ⟨g.factors.map reread, g.nodes.map fun n => n.weights.map reread,
      g.edges.map (Edge.map reread)⟩ := by
  obtain ⟨nodeFactor, edgeFactor, nodes, edges⟩ := Hypergraph.forall_mem_scalars.mp finite
  have keys : ["config", "nodes", "edges"].Nodup := by decide
  have read : fields? ["config", "nodes", "edges"] (json g) =
      some [.given g.factors.toJson, .given (.array (g.nodes.map fun n => ofFloats n.weights)),
        .given (.array (g.edges.map edgeJson))] := fields?_record keys
  have rows : list? (list? float?) (.array (g.nodes.map fun n => ofFloats n.weights)) =
      some (g.nodes.map fun n => n.weights.map reread) :=
    list?_map fun n member => list?_ofFloats (nodes n member)
  have spans : list? edgeOfJson? (.array (g.edges.map edgeJson)) =
      some (g.edges.map (Edge.map reread)) :=
    list?_map fun e member => edge_ofJson?
      (fun n listed => Nat.lt_trans ((wellFormed.edges e member).known n listed) few)
      (edges e member)
  simp [contentOfJson?, read, factors_ofJson? nodeFactor edgeFactor, rows, spans]

include finite in
theorem sound_json : Sound (json g) := by
  obtain ⟨nodeFactor, edgeFactor, nodes, edges⟩ := Hypergraph.forall_mem_scalars.mp finite
  have factors : Sound g.factors.toJson := sound_record (by
    simpa using ⟨sound_ofFloats nodeFactor, sound_ofFloats edgeFactor⟩)
  have rows : Sound (.array (g.nodes.map fun n => ofFloats n.weights)) :=
    sound_array fun n member => sound_ofFloats (nodes n member)
  have spans : Sound (.array (g.edges.map edgeJson)) := sound_array fun e member =>
    sound_record (by
      simpa using ⟨sound_array fun n _ => sound_ofNat n, sound_ofFloats (edges e member)⟩)
  exact sound_record (by simpa using ⟨factors, rows, spans⟩)

include wellFormed few finite in
/-- A graph is read from its text with every scalar read again. -/
theorem readText_eq : readText (writeText g) = .ok (g.mapScalars reread) := by
  rw [readText, writeText, read?_pretty (sound_json finite), Option.bind_some,
    content_ofJson? wellFormed few finite]
  have parts : (g.mapScalars reread).nodes.map Node.weights =
      g.nodes.map fun n => n.weights.map reread := by
    rw [Hypergraph.mapScalars, List.map_map]
    rfl
  have made := (wellFormed.mapScalars reread).assemble_parts
  rw [parts] at made
  exact made

/-- Reading the text of a graph with finite scalars always succeeds. It gives a graph that has all
the same but the scalars, which are what the reader makes of them; so the graph is restored if and
only if the reader gives every scalar back, as it does where they have few digits. -/
theorem readText_writeText (reached : g.Reachable) (few : g.nodeCount < 2 ^ 64)
    (finite : ∀ x ∈ g.scalars, x.isFinite = true) :
    readText (writeText g) = .ok (g.mapScalars reread) ∧
      (readText (writeText g) = .ok g ↔ ∀ x ∈ g.scalars, reread x = x) ∧
      ((∀ x ∈ g.scalars, Short x) → readText (writeText g) = .ok g) := by
  have read := readText_eq reached.wellFormed few finite
  have restored : readText (writeText g) = .ok g ↔ ∀ x ∈ g.scalars, reread x = x := by
    rw [read, Except.ok.injEq, Hypergraph.mapScalars_eq_self]
  exact ⟨read, restored, fun short => restored.mpr fun x member =>
    reread_of_short (finite x member) (short x member)⟩

def fewDigits : Hypergraph Float :=
  .ofParts ⟨[1, 0.5], [2]⟩ [[1, 2], [0.25, -0.0], [3, 1e-7]] [⟨[1.5], [0, 1, 2]⟩]

theorem readText_fewDigits : readText (writeText fewDigits) = .ok fewDigits := by
  have made : Hypergraph.assemble ⟨[1, 0.5], [2]⟩ [[1, 2], [0.25, -0.0], [3, 1e-7]]
      [⟨[1.5], [0, 1, 2]⟩] = .ok fewDigits := rfl
  exact (readText_writeText (Hypergraph.reachable_of_assemble made) (by decide)
    (by decide +kernel)).2.2 (by decide +kernel)

def eleventh : Hypergraph Float := .ofParts ⟨[1], [1]⟩ [[0.09090909090909091]] []

/-- One eleventh is not restored: it is written as `0.09090909090909091`, which the reader takes for
the number above. -/
theorem readText_eleventh : eleventh.Reachable ∧ (∀ x ∈ eleventh.scalars, x.isFinite = true) ∧
    ∃ h, readText (writeText eleventh) = .ok h ∧
      h = .ofParts ⟨[1], [1]⟩ [[0.09090909090909093]] [] ∧ h ≠ eleventh ∧
      h.digest ≠ eleventh.digest := by
  have made : Hypergraph.assemble ⟨[1], [1]⟩ [[0.09090909090909091]] [] = .ok eleventh := rfl
  have reached := Hypergraph.reachable_of_assemble made
  have finite : ∀ x ∈ eleventh.scalars, x.isFinite = true := by decide +kernel
  have read := readText_eq reached.wellFormed (by decide) finite
  exact ⟨reached, finite, _, read, by decide +kernel⟩

end Snapshot
end Multilevel
