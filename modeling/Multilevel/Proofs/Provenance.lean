import Multilevel.Hmetis.Graph
import Multilevel.Random.Generate
import Multilevel.Snapshot.Text
import Multilevel.Proofs.Level.Reachable

/-!
# Where graphs come from

Besides the calls of a program, graphs come from merging parallel edges, from readers, from the
random generator, and from levels. All of them go through the checks of construction, so whatever
a graph was obtained from, a program could have built it.
-/
namespace Multilevel

/-! ### Files -/

namespace Hmetis

variable {α : Type} [One α]

theorem reachable_of_addEdgeLine {g h : Hypergraph α} {e : EdgeLine α} (reached : g.Reachable)
    (made : addEdgeLine g e = .ok h) : h.Reachable :=
  reached.apply (.addEdge e.members e.weights) (mapError_ok.mp made)

/-- Whatever a file says, its nodes and edges are added one by one. -/
theorem reachable_of_sections {bare g : Hypergraph α} {nodes : List (List α)}
    {edges : List (EdgeLine α)} {last : Hypergraph α → Except Fault (Hypergraph α)}
    (start : bare.Reachable) (kept : ∀ a b, last a = .ok b → a = b)
    (made : (do last (← edges.foldlM addEdgeLine (← nodes.foldlM Hypergraph.addNode bare))) =
      .ok g) : g.Reachable := by
  obtain ⟨noded, nodeSteps, made⟩ := bind_ok.mp made
  obtain ⟨edged, edgeSteps, made⟩ := bind_ok.mp made
  rw [← kept edged g made]
  exact foldlM_keeps Hypergraph.Reachable (fun _ _ _ _ => reachable_of_addEdgeLine)
    (start.foldlM_addNode nodeSteps) edgeSteps

theorem reachable_of_readGraph [Numeral α] {source : Source} {factors : Factors α}
    {g : Hypergraph α} (made : readGraph source factors = .ok g) : g.Reachable := by
  unfold readGraph at made
  obtain ⟨bare, start, made⟩ := bind_ok.mp made
  have reached := Hypergraph.Reachable.empty start
  dsimp only at made
  split at made
  · cases made
  · cases made
  · obtain ⟨⟨h, afterHeader⟩, -, made⟩ := bind_ok.mp made
    obtain ⟨⟨edges, afterEdges⟩, -, made⟩ := bind_ok.mp made
    dsimp only at made
    split at made
    · obtain ⟨⟨nodes, rest⟩, -, made⟩ := bind_ok.mp made
      refine reachable_of_sections reached (fun a b same => ?_) made
      split at same
      · cases same
      · exact pure_ok.mp same
    · refine reachable_of_sections reached (fun a b same => ?_) made
      split at same
      · cases same
      · exact pure_ok.mp same

end Hmetis

namespace Snapshot

theorem reachable_of_read {α : Type} [One α] [Stored α] {bytes : List UInt8} {g : Hypergraph α}
    (made : read bytes = .ok g) : g.Reachable := by
  unfold read at made
  split at made
  · cases made
  · exact Hypergraph.reachable_of_assemble made

theorem reachable_of_readText {text : String} {g : Hypergraph Float}
    (made : readText text = .ok g) : g.Reachable := by
  unfold readText at made
  split at made
  · cases made
  · exact Hypergraph.reachable_of_assemble made

end Snapshot

/-! ### Other graphs -/

theorem Hypergraph.reachable_of_compressed {α : Type} [One α] [Add α] {g h : Hypergraph α}
    (made : g.compressed = .ok h) : h.Reachable := by
  obtain ⟨edges, -, assembled⟩ := bind_ok.mp made
  exact reachable_of_assemble assembled

theorem Random.reachable_of_graph {α : Type} [One α] [NatCast α] {factors : Factors α}
    {nodes edges maxDegree : Nat} {stream rest : Stream} {g : Hypergraph α}
    (made : graph factors nodes edges maxDegree stream = .ok (g, rest)) : g.Reachable := by
  unfold graph at made
  split at made
  · cases made
  · obtain ⟨_, -, made⟩ := bind_ok.mp made
    obtain ⟨h, assembled, made⟩ := bind_ok.mp made
    obtain ⟨rfl, -⟩ := Prod.mk.inj (pure_ok.mp made)
    exact Hypergraph.reachable_of_assemble assembled

/-! ### All graphs -/

/-- The graphs that there can be: those of programs, readers, the generator and levels, and what
any further calls make of them. -/
inductive Obtained : Hypergraph Float → Prop
  | empty {factors : Factors Float} {g : Hypergraph Float}
    (made : Hypergraph.empty factors = .ok g) : Obtained g
  | unit : Obtained Hypergraph.unit
  | after {g : Hypergraph Float} (edit : Hypergraph.Edit Float) (before : Obtained g) :
    Obtained (g.after edit)
  | compressed {g h : Hypergraph Float} (before : Obtained g) (made : g.compressed = .ok h) :
    Obtained h
  | hmetis {source : Source} {factors : Factors Float} {g : Hypergraph Float}
    (made : Hmetis.readGraph source factors = .ok g) : Obtained g
  | text {text : String} {g : Hypergraph Float} (made : Snapshot.readText text = .ok g) : Obtained g
  | bytes {bytes : List UInt8} {g : Hypergraph Float} (made : Snapshot.read bytes = .ok g) :
    Obtained g
  | random {factors : Factors Float} {nodes edges maxDegree : Nat} {stream rest : Random.Stream}
    {g : Hypergraph Float}
    (made : Random.graph factors nodes edges maxDegree stream = .ok (g, rest)) : Obtained g
  | level {l : Level Float} (reached : l.Reachable) : Obtained l.graph

theorem Obtained.reachable {g : Hypergraph Float} (obtained : Obtained g) : g.Reachable := by
  induction obtained with
  | empty made => exact .empty made
  | unit => exact .unit
  | after edit _ reached => exact reached.after edit
  | compressed _ made _ => exact Hypergraph.reachable_of_compressed made
  | hmetis made => exact Hmetis.reachable_of_readGraph made
  | text made => exact Snapshot.reachable_of_readText made
  | bytes made => exact Snapshot.reachable_of_read made
  | random made => exact Random.reachable_of_graph made
  | level reached => exact reached.wellFormed.graph.reachable

/-- Every graph is well-formed. A call on it succeeds exactly when its arguments suit the graph,
and leaves the graph as it was when it fails. -/
theorem Obtained.representation {g : Hypergraph Float} (obtained : Obtained g) :
    g.WellFormed ∧ ∀ edit : Hypergraph.Edit Float,
      ((∃ h, edit.apply g = .ok h) ↔ edit.Suits g) ∧ (¬ edit.Suits g → g.after edit = g) := by
  refine ⟨obtained.reachable.wellFormed, fun edit => ⟨Hypergraph.Edit.apply_ok, fun refused => ?_⟩⟩
  cases h : edit.apply g with
  | ok next => exact absurd (Hypergraph.Edit.apply_ok.mp ⟨next, h⟩) refused
  | error fault => exact Hypergraph.after_of_error h

/-- A run whose second call is refused and whose last one lists a member twice. -/
def Hypergraph.pair : Hypergraph Float :=
  (((Hypergraph.unit.after (.addNode [2])).after (.addEdge [0, 1] [1])).after
    (.addNode [3])).after (.addEdge [1, 0, 1] [1])

theorem representation_pair : Hypergraph.pair.edges = [⟨[1], [0, 1]⟩] ∧
    Hypergraph.pair.WellFormed ∧
    ∀ edit : Hypergraph.Edit Float,
      ((∃ h, edit.apply .pair = .ok h) ↔ edit.Suits .pair) ∧
        (¬ edit.Suits .pair → Hypergraph.pair.after edit = .pair) :=
  ⟨rfl, Obtained.representation (.after _ (.after _ (.after _ (.after _ .unit))))⟩

end Multilevel
