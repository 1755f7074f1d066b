import Multilevel.Proofs.Hmetis.Grammar

/-!
# Where a graph file fails

A loop over lines fails at the first line that its reader refuses, or where the lines end
(`takeLines_error`), and a loop over edges at the first that does not span nodes of the graph
(`foldlM_addEdgeLine_error`). `readGraph_error_iff` puts them in their order.
-/
namespace Multilevel.Hmetis

open Text Source

variable {α : Type}

/-! ### Edges that are refused -/

inductive Unspanned (count : Nat) (members : List NodeId) : Fault → Prop
  | few (few : (Ordered.ofList members).length < 2) :
    Unspanned count members (.tooFewMembers (Ordered.ofList members).length)
  | unknown {n : NodeId} (several : 2 ≤ (Ordered.ofList members).length) (member : n ∈ members)
    (stranger : count ≤ n) (least : ∀ m ∈ members, count ≤ m → n ≤ m) :
    Unspanned count members (.unknownMember n count)

theorem addEdge_error {g : Hypergraph α} {members : List NodeId} {weights : List α} {cause : Fault}
    (fits : weights.length = g.edgeDim) :
    g.addEdge members weights = .error cause ↔ Unspanned g.nodeCount members cause := by
  have find {n : NodeId} : (Ordered.ofList members).find? (g.nodeCount ≤ ·) = some n ↔
      n ∈ members ∧ g.nodeCount ≤ n ∧ ∀ m ∈ members, g.nodeCount ≤ m → n ≤ m := by
    simp only [Ordered.find?_le_eq_some (Ordered.increasing_ofList _), Ordered.mem_ofList]
  have checked : g.checkEdgeWeights weights = .ok () := Hypergraph.checkEdgeWeights_ok.mpr fits
  rw [Hypergraph.addEdge, checked]
  change (if _ then _ else _) = _ ↔ _
  constructor
  · intro failed
    split at failed
    · rename_i few
      exact Except.error.inj failed ▸ .few few
    · rename_i several
      split at failed
      · rename_i n found
        obtain ⟨member, stranger, least⟩ := find.mp found
        exact Except.error.inj failed ▸ .unknown (Nat.le_of_not_lt several) member stranger least
      · cases failed
  · intro unspanned
    cases unspanned with
    | few few => rw [if_pos few]
    | unknown several member stranger least =>
      rw [if_neg (Nat.not_lt.mpr several), find.mpr ⟨member, stranger, least⟩]

theorem addEdgeLine_error {g : Hypergraph α} {e : EdgeLine α} {fault : Fault}
    (fits : e.weights.length = g.edgeDim) :
    addEdgeLine g e = .error fault ↔
      ∃ cause, Unspanned g.nodeCount e.members cause ∧ fault = .onLine e.line cause := by
  rw [addEdgeLine, mapError_error]
  simp only [addEdge_error fits, eq_comm]

theorem foldlM_addEdgeLine_error {factors : Factors α} {weights : List (List α)}
    {edges : List (EdgeLine α)} {fault : Fault}
    (fits : ∀ e ∈ edges, e.weights.length = factors.edge.length) :
    edges.foldlM addEdgeLine (.ofParts factors weights []) = .error fault ↔
      ∃ before e after cause, edges = before ++ e :: after ∧
        (∀ d ∈ before, Spans weights.length d.members) ∧ Unspanned weights.length e.members cause ∧
          fault = .onLine e.line cause := by
  constructor
  · intro failed
    obtain ⟨before, e, after, b, rfl, rounds, failed⟩ := foldlM_error failed
    obtain ⟨spanning, rfl⟩ := Hypergraph.foldlM_addEdge_ok.mp (foldlM_addEdgeLine_ok.mp rounds)
    obtain ⟨cause, unspanned, rfl⟩ := (addEdgeLine_error (fits e List.mem_append_cons_self)).mp failed
    rw [Hypergraph.nodeCount_ofParts] at unspanned
    refine ⟨before, e, after, cause, rfl, fun d member => ?_, unspanned, rfl⟩
    exact (canonical_wellFormed.mp (spanning _ (List.mem_map_of_mem member))).2
  · rintro ⟨before, e, after, cause, rfl, spans, unspanned, rfl⟩
    let made : Hypergraph α :=
      .ofParts factors weights ([] ++ (before.map EdgeLine.edge).map Edge.canonical)
    have rounds : before.foldlM addEdgeLine (.ofParts factors weights []) = .ok made := by
      refine foldlM_addEdgeLine_ok.mpr (Hypergraph.foldlM_addEdge_ok.mpr
        ⟨List.forall_mem_map.mpr fun d member => canonical_wellFormed.mpr ?_, rfl⟩)
      exact ⟨fits d (List.mem_append_left _ member), spans d member⟩
    have failed : addEdgeLine made e = .error (.onLine e.line cause) := by
      refine (addEdgeLine_error (fits e List.mem_append_cons_self)).mpr ⟨cause, ?_, rfl⟩
      rwa [Hypergraph.nodeCount_ofParts]
    rw [List.foldlM_append]
    exact bind_error.mpr (.inr ⟨made, rounds, bind_error.mpr (.inl failed)⟩)

/-! ### Sections that are not read -/

inductive Halts {β : Type} (read : Line → Except Fault β) (short : Fault) : List Met → Fault → Prop
  | short : Halts read short [] short
  | unreadable {rest : List Met} : Halts read short (.unreadable :: rest) .notText
  | refused {l : Line} {rest : List Met} {fault : Fault} (failed : read l = .error fault) :
    Halts read short (.line l :: rest) fault

theorem takeLines_error {β : Type} {read : Line → Except Fault β} {short fault : Fault}
    {met : List Met} {n : Nat} :
    takeLines read short n met = .error fault ↔ ∃ (before : List Line) (rest : List Met),
      met = before.map .line ++ rest ∧ before.length < n ∧ (∀ l ∈ before, ∃ b, read l = .ok b) ∧
        Halts read short rest fault := by
  induction n generalizing met with
  | zero =>
    constructor
    · rintro ⟨⟩
    · rintro ⟨before, rest, -, less, -⟩
      exact absurd less (Nat.not_lt_zero _)
  | succ n ih =>
    constructor
    · intro failed
      match met with
      | [] =>
        obtain rfl := Except.error.inj failed
        exact ⟨[], [], rfl, Nat.zero_lt_succ n, nofun, .short⟩
      | .unreadable :: rest =>
        obtain rfl := Except.error.inj failed
        exact ⟨[], _, rfl, Nat.zero_lt_succ n, nofun, .unreadable⟩
      | .line l :: met =>
        rcases bind_error.mp failed with now | ⟨b, first, later⟩
        · exact ⟨[], _, rfl, Nat.zero_lt_succ n, nofun, .refused now⟩
        · have others := (bind_error_left fun _ _ => ⟨_, rfl⟩).mp later
          obtain ⟨before, rest, rfl, less, each, halts⟩ := ih.mp others
          exact ⟨l :: before, rest, rfl, Nat.succ_lt_succ less,
            List.forall_mem_cons.mpr ⟨⟨b, first⟩, each⟩, halts⟩
    · rintro ⟨_ | ⟨l, before⟩, rest, rfl, less, each, halts⟩
      · cases halts with
        | short => rfl
        | unreadable => rfl
        | refused failed => exact bind_error.mpr (.inl failed)
      · obtain ⟨⟨b, first⟩, each⟩ := List.forall_mem_cons.mp each
        have later := ih.mpr ⟨before, rest, rfl, Nat.lt_of_succ_lt_succ less, each, halts⟩
        exact bind_error.mpr (.inr ⟨b, first, bind_error.mpr (.inl later)⟩)

section
variable [One α] [Numeral α] {factors : Factors α} {source : Source} {fault : Fault}

def edgeSection (factors : Factors α) (count : Nat) (h : Header) (met : List Met) :
    Except Fault (List (EdgeLine α) × List Met) :=
  takeLines (edgeLine factors.edge.length h.weighsEdges) (.malformed count .truncatedEdges) h.edges met

def nodeSection (factors : Factors α) (count : Nat) (h : Header) (met : List Met) :
    Except Fault (List (List α) × List Met) :=
  if h.weighsNodes then
    takeLines (nodeLine factors.node.length) (.malformed count .truncatedNodes) h.nodes met
  else .ok (List.replicate h.nodes (List.replicate factors.node.length 1), met)

theorem lengths_of_nodeSection {count : Nat} {h : Header} {met last : List Met}
    {weights : List (List α)} (read : nodeSection factors count h met = .ok (weights, last)) :
    ∀ w ∈ weights, w.length = factors.node.length := by
  unfold nodeSection at read
  split at read
  · obtain ⟨taken, -, -, each⟩ := takeLines_ok.mp read
    exact forall_of_forall₂ each fun _ _ own => (nodeLine_ok.mp own).length
  · obtain ⟨rfl, -⟩ := Prod.mk.inj (Except.ok.inj read)
    intro w member
    rw [List.eq_of_mem_replicate member, List.length_replicate]

/-- A file with a header line fails in its header, in a section, with an edge, or with what stands
behind its sections. -/
theorem readGraph_error_iff {l : Line} {rest : List Met} (node : factors.node ≠ [])
    (edge : factors.edge ≠ []) (met : source.content = .line l :: rest) :
    readGraph source factors = .error fault ↔ header l = .error fault ∨ ∃ h, header l = .ok h ∧
      (edgeSection factors source.lines.length h rest = .error fault ∨ ∃ edges behind,
        edgeSection factors source.lines.length h rest = .ok (edges, behind) ∧
          (nodeSection factors source.lines.length h behind = .error fault ∨ ∃ weights last,
            nodeSection factors source.lines.length h behind = .ok (weights, last) ∧
              (edges.foldlM addEdgeLine (.ofParts factors weights []) = .error fault ∨
                (∃ g, edges.foldlM addEdgeLine (.ofParts factors weights []) = .ok g) ∧
                  (∃ others, last = .unreadable :: others) ∧ fault = .notText))) := by
  have start : Hypergraph.empty factors = .ok (.ofParts factors [] []) :=
    Hypergraph.empty_ok.mpr ⟨node, edge, rfl⟩
  unfold readGraph
  rw [met, start]
  dsimp only
  simp only [ite_bind, bind_error, reduceCtorEq, false_or, Except.ok.injEq, exists_eq_left',
    map_error, map_ok, exists_exists_and_eq_and, Prod.exists]
  refine or_congr_right (exists_congr fun h => and_congr_right fun _ => or_congr_right
    (exists_congr fun edges => exists_congr fun behind => and_congr_right fun _ => or_congr_right
      (exists_congr fun weights => exists_congr fun last => and_congr_right fun nodeLines => ?_)))
  -- nodes are always accepted, as their weights have been counted
  have nodes : weights.foldlM Hypergraph.addNode (.ofParts factors [] []) =
      .ok (.ofParts factors weights []) :=
    Hypergraph.foldlM_addNode_ok.mpr ⟨lengths_of_nodeSection nodeLines, rfl⟩
  simp only [nodes, reduceCtorEq, false_or, Except.ok.injEq, exists_eq_left']
  refine or_congr_right ?_
  rw [← exists_and_right]
  refine exists_congr fun g => and_congr_right fun _ => ?_
  constructor
  · intro failed
    split at failed
    · exact ⟨⟨_, rfl⟩, (Except.error.inj failed).symm⟩
    · cases failed
  · rintro ⟨⟨_, rfl⟩, rfl⟩
    rfl

end
end Multilevel.Hmetis
