import Multilevel.Proofs.Decimal.Layout
import Multilevel.Proofs.Hmetis.Grammar
import Multilevel.Proofs.Hypergraph.Reachable
import Multilevel.Proofs.Text.Words

namespace Multilevel.Hmetis

open Text

variable {α : Type}

structure Content (row : List (List Char)) : Prop where
  nonempty : row ≠ []
  token : ∀ word ∈ row, Token word
  plain : ∀ word ∈ row.head?, word.head? ≠ some '%'

theorem rows_lines {table : List (List (List Char))} (each : ∀ row ∈ table, Content row) :
    rows (String.ofList (table.flatMap lineText)) = table := by
  rw [rows, String.toList_ofList]
  induction table with
  | nil => rfl
  | cons row table ih =>
    obtain ⟨content, others⟩ := List.forall_mem_cons.mp each
    have clean : ∀ c ∈ [' '].intercalate row, decide (c = '\n') = false := by
      intro c member
      rcases mem_intercalate member with rfl | ⟨word, listed, inside⟩
      · rfl
      · refine decide_eq_false fun ends => ?_
        subst ends
        exact absurd ((content.token word listed).solid _ inside) (by decide)
    have kept : [' '].intercalate row ≠ [] ∧ ([' '].intercalate row).head? ≠ some '%' := by
      obtain ⟨word, rest, rfl⟩ := List.exists_cons_of_ne_nil content.nonempty
      have some := (content.token word List.mem_cons_self).nonempty
      have head := head?_intercalate some rest
      refine ⟨fun none => some ?_, head ▸ content.plain word rfl⟩
      rw [none] at head
      exact List.head?_eq_none_iff.mp head.symm
    rw [List.flatMap_cons, lineText, List.append_assoc, List.singleton_append, contentLines,
      segments_append clean (by decide), List.map_cons, trim_intercalate content.token,
      List.filter_cons_of_pos (by simpa using kept), List.map_cons,
      words_intercalate content.token]
    exact congrArg (row :: ·) (ih others)

def headerWords (g : Hypergraph α) : List (List Char) :=
  [Nat.toDigits 10 g.edgeCount, Nat.toDigits 10 g.nodeCount, ['1', '1']]

theorem content_headerWords (g : Hypergraph α) : Content (headerWords g) where
  nonempty := List.cons_ne_nil _ _
  token word member := by
    simp only [headerWords, List.mem_cons, List.not_mem_nil, or_false] at member
    rcases member with rfl | rfl | rfl
    · exact token_toDigits _
    · exact token_toDigits _
    · decide
  plain := by
    rintro _ ⟨⟩ first
    have digit := (spells_toDigits g.edgeCount).digit '%' (List.mem_of_head? first)
    cases digit

section
variable [Numeral α]

def edgeWords (e : Edge α) : List (List Char) :=
  e.weights.map Numeral.text ++ e.members.map fun m => Nat.toDigits 10 (m + 1)

def nodeWords (n : Node α) : List (List Char) := n.weights.map Numeral.text

def table (g : Hypergraph α) : List (List (List Char)) :=
  headerWords g :: (g.edges.map edgeWords ++ g.nodes.map nodeWords)

theorem graphText_eq (g : Hypergraph α) : graphText g = (table g).flatMap lineText := by
  rw [graphText, table, List.flatMap_cons, List.flatMap_append, List.flatMap_map, List.flatMap_map,
    List.append_assoc]
  rfl

/-- A scalar whose text is a word that begins no comment and reads as the scalar. -/
structure Faithful (x : α) : Prop where
  token : Token (Numeral.text x)
  plain : (Numeral.text x).head? ≠ some '%'
  read : Numeral.read? (Numeral.text x) = some x

instance [DecidableEq α] (x : α) : Decidable (Faithful x) :=
  decidable_of_iff (Token (Numeral.text x) ∧ (Numeral.text x).head? ≠ some '%' ∧
    Numeral.read? (Numeral.text x) = some x)
    ⟨fun ⟨token, plain, read⟩ => ⟨token, plain, read⟩,
      fun faithful => ⟨faithful.token, faithful.plain, faithful.read⟩⟩

theorem faithful_of_number {x : Float} (number : x.isNaN = false) : Faithful x where
  token := Decimal.token_text Decimal.plain x
  plain first := by
    have leads := Decimal.head?_text Decimal.plain x _ first
    revert leads
    decide
  read := Decimal.read_text Decimal.plain number

theorem content_weights {weights : List α} {others : List (List Char)} (some : weights ≠ [])
    (each : ∀ x ∈ weights, Faithful x) (rest : ∀ word ∈ others, Token word) :
    Content (weights.map Numeral.text ++ others) where
  nonempty none := some (List.map_eq_nil_iff.mp (List.append_eq_nil_iff.mp none).1)
  token word member := by
    rcases List.mem_append.mp member with weight | other
    · obtain ⟨x, present, rfl⟩ := List.mem_map.mp weight
      exact (each x present).token
    · exact rest word other
  plain := by
    obtain ⟨x, weights, rfl⟩ := List.exists_cons_of_ne_nil some
    rintro _ ⟨⟩
    exact (each x List.mem_cons_self).plain

theorem weightRow_text {weights : List α} (each : ∀ x ∈ weights, Faithful x) :
    WeightRow weights.length (weights.map Numeral.text) weights where
  length := rfl
  read := by
    rw [List.forall₂_map_left_iff, List.forall₂_same]
    exact fun x present => (each x present).read

end

theorem memberRow_text {members : List NodeId} {count : Nat} (known : ∀ n ∈ members, n < count)
    (small : count < 0x10000000000000000) :
    MemberRow (members.map fun m => Nat.toDigits 10 (m + 1)) members := by
  rw [MemberRow, List.forall₂_map_left_iff, List.forall₂_same]
  intro n member
  have bound := known n member
  exact .bare (spells_toDigits (n + 1)) (Nat.lt_of_le_of_lt (Nat.succ_le_of_lt bound) small)

section
variable [Numeral α] {g : Hypergraph α}

theorem content_table (wellFormed : g.WellFormed)
    (ofNode : ∀ n ∈ g.nodes, ∀ x ∈ n.weights, Faithful x)
    (ofEdge : ∀ e ∈ g.edges, ∀ x ∈ e.weights, Faithful x) : ∀ row ∈ table g, Content row := by
  refine List.forall_mem_cons.mpr ⟨content_headerWords g, List.forall_mem_append.mpr ⟨?_, ?_⟩⟩
  · refine List.forall_mem_map.mpr fun e present => ?_
    have some : 0 < e.weights.length := by
      rw [(wellFormed.edges e present).weights]
      exact List.length_pos_iff.mpr wellFormed.edgeFactor
    refine content_weights (List.length_pos_iff.mp some) (ofEdge e present) fun word member => ?_
    obtain ⟨m, -, rfl⟩ := List.mem_map.mp member
    exact token_toDigits _
  · refine List.forall_mem_map.mpr fun n present => ?_
    have some : 0 < n.weights.length := by
      rw [wellFormed.nodeWeights n present]
      exact List.length_pos_iff.mpr wellFormed.nodeFactor
    rw [nodeWords, ← List.append_nil (n.weights.map _)]
    exact content_weights (List.length_pos_iff.mp some) (ofNode n present) nofun

variable [One α]

theorem sections_table (wellFormed : g.WellFormed) (nodes : g.nodeCount < 0x10000000000000000)
    (edges : g.edgeCount < 0x10000000000000000) (ofNode : ∀ n ∈ g.nodes, ∀ x ∈ n.weights, Faithful x)
    (ofEdge : ∀ e ∈ g.edges, ∀ x ∈ e.weights, Faithful x) :
    Sections g.factors (table g) (g.nodes.map Node.weights) g.edges := by
  have nodeRows : NodeRows g.nodeDim true (g.nodes.map nodeWords) (g.nodes.map Node.weights) := by
    refine .weighed ?_
    rw [List.forall₂_map_left_iff, List.forall₂_map_right_iff, List.forall₂_same]
    intro n present
    rw [← wellFormed.nodeWeights n present]
    exact weightRow_text (ofNode n present)
  have edgeRows : List.Forall₂ (EdgeRow g.edgeDim true) (g.edges.map edgeWords) g.edges := by
    rw [List.forall₂_map_left_iff, List.forall₂_same]
    intro e present
    rw [← (wellFormed.edges e present).weights]
    exact .weighed (weightRow_text (ofEdge e present))
      (memberRow_text (wellFormed.edges e present).known nodes)
  have counted : Natural (Nat.toDigits 10 g.edgeCount) g.edges.length :=
    .bare (spells_toDigits _) edges
  have numbered : Natural (Nat.toDigits 10 g.nodeCount) (g.nodes.map Node.weights).length := by
    rw [List.length_map]
    exact .bare (spells_toDigits _) nodes
  rw [table, ← List.append_nil (_ ++ _)]
  exact .mk counted numbered (.two true true) edgeRows nodeRows

theorem readGraph_writeGraph_faithful (reached : g.Reachable)
    (nodes : g.nodeCount < 0x10000000000000000) (edges : g.edgeCount < 0x10000000000000000)
    (ofNode : ∀ n ∈ g.nodes, ∀ x ∈ n.weights, Faithful x)
    (ofEdge : ∀ e ∈ g.edges, ∀ x ∈ e.weights, Faithful x) :
    readGraph (.text (writeGraph g)) g.factors = .ok g := by
  have wellFormed := reached.wellFormed
  rw [readGraph_ok, writeGraph, graphText_eq, rows_lines (content_table wellFormed ofNode ofEdge)]
  have canonical : g.edges.map Edge.canonical = g.edges :=
    (List.map_congr_left fun e present => (wellFormed.edges e present).canonical).trans
      (List.map_id _)
  refine ⟨_, _, sections_table wellFormed nodes edges ofNode ofEdge, ?_, ?_⟩
  · rw [canonical]
    exact wellFormed.fits
  · rw [canonical]
    exact wellFormed.eq_ofParts

end

/-- Reading what is written gives the graph back, whatever its weights, if they are numbers. -/
theorem readGraph_writeGraph {g : Hypergraph Float} (reached : g.Reachable)
    (nodes : g.nodeCount < 0x10000000000000000) (edges : g.edgeCount < 0x10000000000000000)
    (ofNode : ∀ n ∈ g.nodes, ∀ x ∈ n.weights, x.isNaN = false)
    (ofEdge : ∀ e ∈ g.edges, ∀ x ∈ e.weights, x.isNaN = false) :
    readGraph (.text (writeGraph g)) g.factors = .ok g :=
  readGraph_writeGraph_faithful reached nodes edges
    (fun n present x weighs => faithful_of_number (ofNode n present x weighs))
    (fun e present x weighs => faithful_of_number (ofEdge e present x weighs))

/-- A graph with an infinite weight, a negative zero and a fraction. -/
def extremes : Hypergraph Float :=
  .ofParts ⟨[1], [1, 1]⟩ [[0.1], [-0.0]] [⟨[Float.ofBits 0x7ff0000000000000, 1e300], [0, 1]⟩]

theorem readGraph_writeGraph_extremes :
    readGraph (.text (writeGraph extremes)) ⟨[1], [1, 1]⟩ = .ok extremes := by
  have built : Hypergraph.assemble ⟨[1], [1, 1]⟩ [[0.1], [-0.0]]
      [⟨[Float.ofBits 0x7ff0000000000000, 1e300], [1, 0]⟩] = .ok extremes := rfl
  exact readGraph_writeGraph (Hypergraph.reachable_of_assemble built) (by decide) (by decide)
    (by decide +kernel) (by decide +kernel)

end Multilevel.Hmetis
