import Multilevel.Hmetis.Graph
import Multilevel.Proofs.Text.Lines
import Multilevel.Proofs.Text.Natural
import Multilevel.Proofs.Hypergraph.Construction

/-!
# The grammar of graph files

A file is read as rows, the words of its content lines. `Sections` says which rows make a file, and
with which node weights and edges; `readGraph_ok` says that the reader finds what it says. The
nodes that an edge row lists are a set of the graph only in the end, so what is wrong with them is
no matter of the rows.
-/
namespace Multilevel.Hmetis

open Text Source

variable {α : Type}

/-! ### Rows -/

/-- The lines of a text, without blanks at their ends, that are neither empty nor comments. -/
def contentLines (s : List Char) : List (List Char) :=
  ((segments (· = '\n') s).map trim).filter fun line => line ≠ [] ∧ line.head? ≠ some '%'

def rows (s : String) : List (List (List Char)) := (contentLines s.toList).map words

theorem words_numberedLines (s : String) : (numberedLines s).map Line.words = rows s := by
  suffices ∀ (parts : List (List Char)) (first : Nat), (numbered first parts).map Line.content =
      (parts.map trim).filter fun line => line ≠ [] ∧ line.head? ≠ some '%' by
    rw [rows, contentLines, ← this _ 1, List.map_map]
    rfl
  intro parts
  induction parts with
  | nil => exact fun _ => rfl
  | cons part parts ih =>
    intro first
    have kept : isContent (trim part) = decide (trim part ≠ [] ∧ (trim part).head? ≠ some '%') := by
      cases trim part <;> simp [isContent]
    rw [numbered_cons, List.map_cons, List.filter_cons, ← kept, ← ih (first + 1)]
    split <;> rfl

/-! ### The grammar -/

def flag (set : Bool) : Char := if set then '1' else '0'

inductive Flags : List (List Char) → Bool → Bool → Prop
  | none : Flags [] false false
  | one (a : Bool) : Flags [[flag a]] a false
  | two (a b : Bool) : Flags [[flag a, flag b]] a b

structure WeightRow [Numeral α] (dim : Nat) (row : List (List Char)) (weights : List α) : Prop where
  length : weights.length = dim
  read : List.Forall₂ (fun word weight => Numeral.read? word = some weight) row weights

def MemberRow (row : List (List Char)) (members : List NodeId) : Prop :=
  List.Forall₂ (fun word n => Natural word (n + 1)) row members

inductive EdgeRow [One α] [Numeral α] (dim : Nat) : Bool → List (List Char) → Edge α → Prop
  | plain {row : List (List Char)} {members : List NodeId} (read : MemberRow row members) :
    EdgeRow dim false row ⟨List.replicate dim 1, members⟩
  | weighed {row others : List (List Char)} {weights : List α} {members : List NodeId}
    (weight : WeightRow dim row weights) (read : MemberRow others members) :
    EdgeRow dim true (row ++ others) ⟨weights, members⟩

/-- There are rows for nodes only if they have weights. -/
inductive NodeRows [One α] [Numeral α] (dim : Nat) :
    Bool → List (List (List Char)) → List (List α) → Prop
  | plain (count : Nat) : NodeRows dim false [] (List.replicate count (List.replicate dim 1))
  | weighed {rows : List (List (List Char))} {weights : List (List α)}
    (read : List.Forall₂ (WeightRow dim) rows weights) : NodeRows dim true rows weights

/-- The rows of a file: a header, a row for each edge, rows for the nodes, and any others. -/
inductive Sections [One α] [Numeral α] (factors : Factors α) :
    List (List (List Char)) → List (List α) → List (Edge α) → Prop
  | mk {edgeCount nodeCount : List Char} {third : List (List Char)} {weighsEdges weighsNodes : Bool}
    {edgeRows nodeRows rest : List (List (List Char))} {weights : List (List α)}
    {edges : List (Edge α)} (counted : Natural edgeCount edges.length)
    (numbered : Natural nodeCount weights.length) (flags : Flags third weighsEdges weighsNodes)
    (edge : List.Forall₂ (EdgeRow factors.edge.length weighsEdges) edgeRows edges)
    (node : NodeRows factors.node.length weighsNodes nodeRows weights) :
    Sections factors ((edgeCount :: nodeCount :: third) :: (edgeRows ++ nodeRows ++ rest))
      weights edges

/-! ### Reading words -/

theorem token_ok {β : Type} {read : List Char → Option β} {line : Nat} {s : List Char} {value : β} :
    token read line s = .ok value ↔ read s = some value := by
  unfold token
  split <;> simp_all

theorem natural?_eq_some {s : List Char} {n : Nat} : natural? s = some n ↔ Natural s n := by
  rw [← natural_ok, natural?]
  cases Text.natural s <;> simp [Except.toOption]

theorem member_ok {line : Nat} {s : List Char} {n : NodeId} :
    member line s = .ok n ↔ Natural s (n + 1) := by
  unfold member
  rw [bind_ok]
  simp only [token_ok, natural?_eq_some]
  constructor
  · rintro ⟨number, written, made⟩
    split at made
    · cases made
    · obtain rfl := Except.ok.inj made
      exact written
  · intro written
    exact ⟨n + 1, written, rfl⟩

theorem flag_eq {c : Char} {set : Bool} :
    (c = '0' ∨ c = '1') ∧ decide (c = '1') = set ↔ c = flag set := by
  constructor
  · rintro ⟨rfl | rfl, rfl⟩ <;> rfl
  · rintro rfl
    cases set <;> decide

theorem flags_ok {line : Nat} {s : List Char} {a b : Bool} :
    flags line s = .ok (a, b) ↔ Flags [s] a b := by
  unfold flags
  split
  · rename_i c
    constructor
    · intro made
      split at made
      · rename_i digit
        obtain ⟨left, rfl⟩ := Prod.mk.inj (Except.ok.inj made)
        obtain rfl := flag_eq.mp ⟨digit, left⟩
        exact .one a
      · cases made
    · rintro ⟨⟩
      obtain ⟨digit, read⟩ := flag_eq.mpr rfl
      rw [if_pos digit, read]
  · rename_i c d
    constructor
    · intro made
      split at made
      · rename_i digits
        obtain ⟨left, right⟩ := Prod.mk.inj (Except.ok.inj made)
        obtain rfl := flag_eq.mp ⟨digits.1, left⟩
        obtain rfl := flag_eq.mp ⟨digits.2, right⟩
        exact .two a b
      · cases made
    · rintro ⟨⟩
      obtain ⟨first, left⟩ := flag_eq.mpr rfl
      obtain ⟨second, right⟩ := flag_eq.mpr rfl
      rw [if_pos ⟨first, second⟩, left, right]
  · rename_i one two
    constructor
    · rintro ⟨⟩
    · rintro ⟨⟩
      · exact absurd rfl (one _)
      · exact absurd rfl (two _ _)

theorem header_ok {l : Line} {h : Header} : header l = .ok h ↔ ∃ edgeCount nodeCount third,
    l.words = edgeCount :: nodeCount :: third ∧ Natural edgeCount h.edges ∧
      Natural nodeCount h.nodes ∧ Flags third h.weighsEdges h.weighsNodes := by
  obtain ⟨edges, nodes, weighsEdges, weighsNodes⟩ := h
  unfold header
  split
  · rename_i e n read
    simp only [bind_ok, pure_ok, token_ok, natural?_eq_some, read]
    constructor
    · rintro ⟨_, counted, _, numbered, ⟨⟩⟩
      exact ⟨e, n, [], rfl, counted, numbered, .none⟩
    · rintro ⟨_, _, _, ⟨⟩, counted, numbered, ⟨⟩⟩
      exact ⟨edges, counted, nodes, numbered, rfl⟩
  · rename_i e n f read
    simp only [bind_ok, pure_ok, token_ok, natural?_eq_some, read]
    constructor
    · rintro ⟨_, counted, _, numbered, ⟨a, b⟩, set, ⟨⟩⟩
      exact ⟨e, n, [f], rfl, counted, numbered, flags_ok.mp set⟩
    · rintro ⟨_, _, _, ⟨⟩, counted, numbered, set⟩
      exact ⟨edges, counted, nodes, numbered, _, flags_ok.mpr set, rfl⟩
  · rename_i two three
    constructor
    · rintro ⟨⟩
    · rintro ⟨_, _, _, same, -, -, set⟩
      cases set with
      | none => exact absurd same (two _ _)
      | one => exact absurd same (three _ _ _)
      | two => exact absurd same (three _ _ _)

theorem members_ok {line : Nat} {row : List (List Char)} {members : List NodeId} :
    row.mapM (member line) = .ok members ↔ MemberRow row members := by
  simp only [mapM_ok, member_ok, MemberRow]

section
variable [Numeral α]

theorem weights_ok {line : Nat} {row : List (List Char)} {weights : List α} :
    row.mapM (token Numeral.read? line) = .ok weights ↔ WeightRow row.length row weights := by
  simp only [mapM_ok, token_ok]
  exact ⟨fun read => ⟨read.length_eq.symm, read⟩, WeightRow.read⟩

theorem nodeLine_ok {dim : Nat} {l : Line} {weights : List α} :
    nodeLine dim l = .ok weights ↔ WeightRow dim l.words weights := by
  unfold nodeLine
  simp only [bind_ok, weights_ok]
  constructor
  · rintro ⟨_, row, made⟩
    split at made
    · rename_i length
      obtain rfl := pure_ok.mp made
      exact ⟨length, row.read⟩
    · cases made
  · intro row
    exact ⟨weights, ⟨row.read.length_eq.symm, row.read⟩, by rw [if_pos row.length]; rfl⟩

variable [One α]

theorem edgeRow_weighed {dim : Nat} {row : List (List Char)} {e : Edge α} :
    EdgeRow dim true row e ↔ dim ≤ row.length ∧ WeightRow dim (row.take dim) e.weights ∧
      MemberRow (row.drop dim) e.members := by
  constructor
  · rintro ⟨⟩
    rename_i row others weights members weight read
    have length : row.length = dim := weight.read.length_eq.trans weight.length
    rw [List.take_left' length, List.drop_left' length, List.length_append]
    exact ⟨by omega, weight, read⟩
  · rintro ⟨-, weight, read⟩
    rw [← List.take_append_drop dim row]
    exact .weighed weight read

/-- The edge on a line, with its members as they are listed. -/
def EdgeLine.edge (e : EdgeLine α) : Edge α := ⟨e.weights, e.members⟩

theorem edgeLine_ok {dim : Nat} {weighed : Bool} {l : Line} {e : EdgeLine α} :
    edgeLine dim weighed l = .ok e ↔ e.line = l.number ∧ EdgeRow dim weighed l.words e.edge := by
  obtain ⟨line, members, weights⟩ := e
  unfold edgeLine
  cases weighed with
  | false =>
    simp only [Bool.false_eq_true, if_false, bind_ok, pure_ok, members_ok]
    constructor
    · rintro ⟨_, read, ⟨⟩⟩
      exact ⟨rfl, .plain read⟩
    · rintro ⟨rfl, ⟨read⟩⟩
      exact ⟨_, read, rfl⟩
  | true =>
    rw [if_pos rfl, edgeRow_weighed]
    split
    · rename_i short
      constructor
      · rintro ⟨⟩
      · rintro ⟨-, enough, -⟩
        omega
    · rename_i short
      have length : (l.words.take dim).length = dim :=
        List.length_take_of_le (Nat.le_of_not_lt short)
      simp only [bind_ok, pure_ok, members_ok, weights_ok, length]
      constructor
      · rintro ⟨_, weight, _, read, ⟨⟩⟩
        exact ⟨rfl, Nat.le_of_not_lt short, weight, read⟩
      · rintro ⟨rfl, -, weight, read⟩
        exact ⟨_, weight, _, read, rfl⟩

end

/-! ### Reading sections -/

theorem takeLines_ok {β : Type} {read : Line → Except Fault β} {short : Fault} {met after : List Met}
    {values : List β} {n : Nat} :
    takeLines read short n met = .ok (values, after) ↔ ∃ taken : List Line,
      met = taken.map .line ++ after ∧ values.length = n ∧
        List.Forall₂ (fun l value => read l = .ok value) taken values := by
  induction n generalizing met values with
  | zero =>
    rw [takeLines, Except.ok.injEq, Prod.mk.injEq]
    constructor
    · rintro ⟨rfl, rfl⟩
      exact ⟨[], rfl, rfl, .nil⟩
    · rintro ⟨taken, rfl, none, each⟩
      obtain rfl := List.length_eq_zero_iff.mp none
      obtain rfl := List.forall₂_nil_right_iff.mp each
      exact ⟨rfl, rfl⟩
  | succ n ih =>
    constructor
    · intro made
      match met with
      | [] | .unreadable :: _ => cases made
      | .line l :: met =>
        obtain ⟨first, one, made⟩ := bind_ok.mp made
        obtain ⟨⟨others, _⟩, more, ⟨⟩⟩ := bind_ok.mp made
        obtain ⟨taken, rfl, counted, each⟩ := ih.mp more
        exact ⟨l :: taken, rfl, congrArg Nat.succ counted, .cons one each⟩
    · rintro ⟨taken, rfl, counted, each⟩
      cases each with
      | nil => cases counted
      | cons one each =>
        have more := ih.mpr ⟨_, rfl, Nat.succ.inj counted, each⟩
        exact bind_ok.mpr ⟨_, one, bind_ok.mpr ⟨_, more, rfl⟩⟩

theorem takeLines_lines_ok {β : Type} {read : Line → Except Fault β} (short : Fault)
    {lines : List Line} {values : List β} {after : List Met} {n : Nat} :
    takeLines read short n (lines.map .line) = .ok (values, after) ↔ ∃ taken rest,
      lines = taken ++ rest ∧ after = rest.map .line ∧ values.length = n ∧
        List.Forall₂ (fun l value => read l = .ok value) taken values := by
  rw [takeLines_ok]
  constructor
  · rintro ⟨taken, split, counted, each⟩
    obtain ⟨front, rest, rfl, same, rfl⟩ := List.map_eq_append_iff.mp split
    obtain rfl := List.map_injective_iff.mpr (fun _ _ => Met.line.inj) same
    exact ⟨front, rest, rfl, rfl, counted, each⟩
  · rintro ⟨taken, rest, rfl, rfl, counted, each⟩
    exact ⟨taken, List.map_append, counted, each⟩

section
variable [One α] [Numeral α] {lines : List Line} {after : List Met}

theorem exists_edgeLines {dim : Nat} {weighed : Bool} {listed : List (Edge α)}
    (each : List.Forall₂ (EdgeRow dim weighed) (lines.map Line.words) listed) :
    ∃ edges, List.Forall₂ (fun l e => edgeLine dim weighed l = .ok e) lines edges ∧
      edges.map EdgeLine.edge = listed := by
  rw [List.forall₂_map_left_iff] at each
  induction each with
  | nil => exact ⟨[], .nil, rfl⟩
  | @cons l e lines listed row _ ih =>
    obtain ⟨edges, read, rfl⟩ := ih
    exact ⟨⟨l.number, e.members, e.weights⟩ :: edges, .cons (edgeLine_ok.mpr ⟨rfl, row⟩) read, rfl⟩

theorem edgeLines_ok {dim count : Nat} {weighed : Bool} (short : Fault) {listed : List (Edge α)} :
    (∃ edges, takeLines (edgeLine dim weighed) short count (lines.map .line) = .ok (edges, after) ∧
      edges.map EdgeLine.edge = listed) ↔ ∃ taken rest, lines = taken ++ rest ∧
        after = rest.map .line ∧ listed.length = count ∧
          List.Forall₂ (EdgeRow dim weighed) (taken.map Line.words) listed := by
  simp only [takeLines_lines_ok, edgeLine_ok]
  constructor
  · rintro ⟨edges, ⟨taken, rest, rfl, rfl, counted, each⟩, rfl⟩
    refine ⟨taken, rest, rfl, rfl, (List.length_map _).trans counted, ?_⟩
    rw [List.forall₂_map_left_iff, List.forall₂_map_right_iff]
    exact each.imp fun l e read => read.2
  · rintro ⟨taken, rest, rfl, rfl, counted, each⟩
    obtain ⟨edges, read, rfl⟩ := exists_edgeLines each
    rw [List.length_map] at counted
    exact ⟨edges, ⟨taken, rest, rfl, rfl, counted, read.imp fun _ _ => edgeLine_ok.mp⟩, rfl⟩

theorem nodeLines_ok {dim count : Nat} {weighed : Bool} (short : Fault) {weights : List (List α)} :
    (if weighed then takeLines (nodeLine dim) short count (lines.map .line)
      else .ok (List.replicate count (List.replicate dim 1), lines.map .line)) =
        .ok (weights, after) ↔ ∃ taken rest, lines = taken ++ rest ∧ after = rest.map .line ∧
          weights.length = count ∧ NodeRows dim weighed (taken.map Line.words) weights := by
  cases weighed with
  | false =>
    rw [if_neg Bool.false_ne_true, Except.ok.injEq, Prod.mk.injEq]
    constructor
    · rintro ⟨rfl, rfl⟩
      exact ⟨[], lines, rfl, rfl, List.length_replicate, .plain count⟩
    · rintro ⟨taken, rest, rfl, rfl, counted, rows⟩
      generalize none : taken.map Line.words = read at rows
      cases rows
      obtain rfl := List.map_eq_nil_iff.mp none
      obtain rfl := List.length_replicate.symm.trans counted
      exact ⟨rfl, rfl⟩
  | true =>
    rw [if_pos rfl, takeLines_lines_ok]
    simp only [nodeLine_ok]
    constructor
    · rintro ⟨taken, rest, rfl, rfl, counted, each⟩
      exact ⟨taken, rest, rfl, rfl, counted, .weighed (List.forall₂_map_left_iff.mpr each)⟩
    · rintro ⟨taken, rest, rfl, rfl, counted, rows⟩
      generalize same : taken.map Line.words = read at rows
      cases rows with
      | weighed each =>
        subst same
        exact ⟨taken, rest, rfl, rfl, counted, List.forall₂_map_left_iff.mp each⟩

end

/-! ### Reading a graph -/

theorem foldlM_addEdgeLine_ok {g h : Hypergraph α} {edges : List (EdgeLine α)} :
    edges.foldlM addEdgeLine g = .ok h ↔
      (edges.map EdgeLine.edge).foldlM (fun g e => g.addEdge e.members e.weights) g = .ok h := by
  rw [List.foldlM_map]
  exact foldlM_ok_congr fun g e h => mapError_ok

/-- The rows of some lines are those of a file when the lines fall into its sections. -/
theorem sections_words [One α] [Numeral α] {factors : Factors α} {l : Line} {lines : List Line}
    {weights : List (List α)} {edges : List (Edge α)} :
    Sections factors ((l :: lines).map Line.words) weights edges ↔ ∃ h edgeLines nodeLines rest,
      header l = .ok h ∧ lines = edgeLines ++ (nodeLines ++ rest) ∧
        edges.length = h.edges ∧ weights.length = h.nodes ∧
        List.Forall₂ (EdgeRow factors.edge.length h.weighsEdges) (edgeLines.map Line.words) edges ∧
        NodeRows factors.node.length h.weighsNodes (nodeLines.map Line.words) weights := by
  simp only [header_ok]
  constructor
  · intro sections
    generalize all : (l :: lines).map Line.words = rows at sections
    obtain ⟨counted, numbered, flags, edge, node⟩ := sections
    rename_i weighsEdges weighsNodes _ _ _
    obtain ⟨words, body⟩ := List.cons.inj all
    obtain ⟨front, rest, rfl, halves, rfl⟩ := List.map_eq_append_iff.mp body
    obtain ⟨edgeLines, nodeLines, rfl, rfl, rfl⟩ := List.map_eq_append_iff.mp halves
    exact ⟨⟨_, _, weighsEdges, weighsNodes⟩, edgeLines, nodeLines, rest,
      ⟨_, _, _, words, counted, numbered, flags⟩, List.append_assoc _ _ _, rfl, rfl, edge, node⟩
  · rintro ⟨h, edgeLines, nodeLines, rest, ⟨e, n, third, words, counted, numbered, flags⟩, rfl,
      edgeCount, nodeCount, edge, node⟩
    rw [List.map_cons, words, List.map_append, List.map_append, ← List.append_assoc]
    exact .mk (edgeCount ▸ counted) (nodeCount ▸ numbered) flags edge node

/-- A text is read as a graph exactly when its rows make a file whose parts fit. -/
theorem readGraph_ok [One α] [Numeral α] {s : String} {factors : Factors α} {g : Hypergraph α} :
    readGraph (.text s) factors = .ok g ↔ ∃ weights edges, Sections factors (rows s) weights edges ∧
      Hypergraph.Fits factors weights (edges.map Edge.canonical) ∧
        g = .ofParts factors weights (edges.map Edge.canonical) := by
  have met := content_text s
  rw [← words_numberedLines]
  generalize numberedLines s = lines at met ⊢
  unfold readGraph
  rw [met]
  cases lines with
  | nil =>
    constructor
    · intro made
      obtain ⟨_, -, made⟩ := bind_ok.mp made
      cases made
    · rintro ⟨_, _, ⟨⟩, -, -⟩
  | cons l lines =>
    let short := Fault.malformed (Source.text s).lines.length
    rw [List.map_cons]
    dsimp only
    simp only [ite_bind, bind_ok, map_ok, Hypergraph.empty_ok, sections_words]
    constructor
    · rintro ⟨_, ⟨nodeFactor, edgeFactor, rfl⟩, _, ⟨h, headed, rfl⟩, ⟨edges, _⟩, edgeLines,
        ⟨weights, _⟩, nodeLines, _, nodes, _, spanned, last⟩
      obtain ⟨edgesTaken, _, rfl, rfl, edgeCount, edge⟩ :=
        (edgeLines_ok _).mp ⟨edges, edgeLines, rfl⟩
      obtain ⟨nodesTaken, rest, rfl, rfl, nodeCount, node⟩ := (nodeLines_ok _).mp nodeLines
      obtain ⟨lengths, rfl⟩ := Hypergraph.foldlM_addNode_ok.mp nodes
      obtain ⟨spanning, rfl⟩ := Hypergraph.foldlM_addEdge_ok.mp (foldlM_addEdgeLine_ok.mp spanned)
      refine ⟨weights, edges.map EdgeLine.edge,
        ⟨h, edgesTaken, nodesTaken, rest, headed, rfl, edgeCount, nodeCount, edge, node⟩,
        ⟨nodeFactor, edgeFactor, lengths, List.forall_mem_map.mpr spanning⟩, ?_⟩
      cases rest <;> exact (pure_ok.mp last).symm
    · rintro ⟨weights, _, ⟨h, edgesTaken, nodesTaken, rest, headed, rfl, edgeCount, nodeCount, edge,
        node⟩, fits, rfl⟩
      obtain ⟨edges, edgeLines, rfl⟩ := (edgeLines_ok (short .truncatedEdges)).mpr
        ⟨edgesTaken, nodesTaken ++ rest, rfl, rfl, edgeCount, edge⟩
      have nodeLines := (nodeLines_ok (short .truncatedNodes)).mpr
        ⟨nodesTaken, rest, rfl, rfl, nodeCount, node⟩
      refine ⟨_, ⟨fits.nodeFactor, fits.edgeFactor, rfl⟩, _, ⟨h, headed, rfl⟩, _, edgeLines,
        _, nodeLines, _, Hypergraph.foldlM_addNode_ok.mpr ⟨fits.nodeWeights, rfl⟩, _,
        foldlM_addEdgeLine_ok.mpr (Hypergraph.foldlM_addEdge_ok.mpr
          ⟨List.forall_mem_map.mp fits.edges, rfl⟩), ?_⟩
      cases rest <;> rfl

/-! ### Counts -/

theorem lt_of_header {l : Line} {h : Header} (headed : header l = .ok h) :
    h.nodes < 0x10000000000000000 ∧ h.edges < 0x10000000000000000 := by
  obtain ⟨_, _, _, -, counted, numbered, -⟩ := header_ok.mp headed
  have small {s : List Char} {n : Nat} (written : Natural s n) : n < 0x10000000000000000 := by
    cases written <;> assumption
  exact ⟨small numbered, small counted⟩

/-- A graph has the given factors, and as many nodes and edges as the first content line says. -/
theorem counts_of_readGraph [One α] [Numeral α] {source : Source} {factors : Factors α}
    {g : Hypergraph α} (made : readGraph source factors = .ok g) : ∃ l rest h,
      source.content = .line l :: rest ∧ header l = .ok h ∧
        g.factors = factors ∧ g.nodeCount = h.nodes ∧ g.edgeCount = h.edges := by
  unfold readGraph at made
  obtain ⟨bare, start, made⟩ := bind_ok.mp made
  obtain ⟨-, -, rfl⟩ := Hypergraph.empty_ok.mp start
  dsimp only at made
  split at made
  · cases made
  · cases made
  · rename_i l rest content
    simp only [ite_bind, bind_ok, map_ok] at made
    obtain ⟨_, ⟨h, headed, rfl⟩, ⟨edges, afterEdges⟩, edgeLines, ⟨weights, _⟩, nodeLines, _, nodes, _,
      spanned, last⟩ := made
    obtain ⟨-, rfl⟩ := Hypergraph.foldlM_addNode_ok.mp nodes
    obtain ⟨-, rfl⟩ := Hypergraph.foldlM_addEdge_ok.mp (foldlM_addEdgeLine_ok.mp spanned)
    obtain ⟨-, -, edgeCount, -⟩ := takeLines_ok.mp edgeLines
    have nodeCount : weights.length = h.nodes := by
      split at nodeLines
      · obtain ⟨-, -, counted, -⟩ := takeLines_ok.mp nodeLines
        exact counted
      · obtain ⟨rfl, -⟩ := Prod.mk.inj (Except.ok.inj nodeLines)
        exact List.length_replicate
    split at last
    · cases last
    · obtain rfl := pure_ok.mp last
      refine ⟨l, rest, h, content, headed, rfl, ?_, ?_⟩
      · rw [Hypergraph.nodeCount_ofParts]
        exact nodeCount
      · simpa [Hypergraph.edgeCount, Hypergraph.ofParts] using edgeCount

/-! ### What is accepted -/

/-- The members of an edge, as they are listed, are those of a graph with some nodes: at least two
different ones. -/
def Spans (count : Nat) (members : List NodeId) : Prop :=
  (∀ n ∈ members, n < count) ∧ ∃ a ∈ members, ∃ b ∈ members, a ≠ b

theorem canonical_wellFormed {dim count : Nat} {e : Edge α} :
    e.canonical.WellFormed dim count ↔ e.weights.length = dim ∧ Spans count e.members := by
  have large : 2 ≤ (Ordered.ofList e.members).length ↔ ∃ a ∈ e.members, ∃ b ∈ e.members, a ≠ b := by
    rw [← Nat.not_lt, Nat.lt_succ_iff, Ordered.length_ofList_le_one]
    push Not
    rfl
  constructor
  · intro wellFormed
    exact ⟨wellFormed.weights, fun n member => wellFormed.known n (Ordered.mem_ofList.mpr member),
      large.mp wellFormed.spanning⟩
  · rintro ⟨length, known, several⟩
    exact ⟨length, Ordered.increasing_ofList _, large.mpr several,
      fun n member => known n (Ordered.mem_ofList.mp member)⟩

section
variable [One α] [Numeral α]

theorem NodeRows.lengths {dim : Nat} {weighed : Bool} {rows : List (List (List Char))}
    {weights : List (List α)} (read : NodeRows dim weighed rows weights) :
    ∀ w ∈ weights, w.length = dim := by
  cases read with
  | plain count =>
    intro w member
    rw [(List.mem_replicate.mp member).2, List.length_replicate]
  | weighed each =>
    exact forall_of_forall₂ each fun _ _ => WeightRow.length

theorem EdgeRow.length {dim : Nat} {weighed : Bool} {row : List (List Char)} {e : Edge α}
    (read : EdgeRow dim weighed row e) : e.weights.length = dim := by
  cases read with
  | plain => exact List.length_replicate
  | weighed weight => exact weight.length

/-- What the rows do not settle is whether each edge spans nodes of the graph. -/
theorem Sections.fits_iff {factors : Factors α} {rows : List (List (List Char))}
    {weights : List (List α)} {edges : List (Edge α)} (node : factors.node ≠ [])
    (edge : factors.edge ≠ []) (sections : Sections factors rows weights edges) :
    Hypergraph.Fits factors weights (edges.map Edge.canonical) ↔
      ∀ e ∈ edges, Spans weights.length e.members := by
  obtain ⟨-, -, -, edgeRows, nodeRows⟩ := sections
  have lengths := forall_of_forall₂ edgeRows fun _ _ => EdgeRow.length
  constructor
  · intro fits e member
    exact (canonical_wellFormed.mp (fits.edges _ (List.mem_map_of_mem member))).2
  · intro spans
    refine ⟨node, edge, nodeRows.lengths, List.forall_mem_map.mpr fun e member => ?_⟩
    exact canonical_wellFormed.mpr ⟨lengths e member, spans e member⟩

/-- The reader accepts exactly the files whose edges each span at least two of the nodes, and gives
the graph of what the rows say. -/
theorem readGraph_accepts {s : String} {factors : Factors α} {g : Hypergraph α}
    (node : factors.node ≠ []) (edge : factors.edge ≠ []) :
    readGraph (.text s) factors = .ok g ↔ ∃ weights edges, Sections factors (rows s) weights edges ∧
      (∀ e ∈ edges, Spans weights.length e.members) ∧
        g = .ofParts factors weights (edges.map Edge.canonical) := by
  rw [readGraph_ok]
  refine exists_congr fun weights => exists_congr fun edges => and_congr_right fun sections => ?_
  rw [sections.fits_iff node edge]

end

/-- A file of two edges and three nodes, only the edges weighed. -/
def notes : String := "% two edges\n 2 3 1\r\n2.5 1 2 +2\n\n-inf 3 2\nthe rest"

theorem readGraph_accepts_notes : ∃ g : Hypergraph Float,
    readGraph (.text notes) ⟨[1], [1]⟩ = .ok g ∧ ∃ weights edges,
      Sections ⟨[1], [1]⟩ (rows notes) weights edges ∧
      (∀ e ∈ edges, Spans weights.length e.members) ∧
        g = .ofParts ⟨[1], [1]⟩ weights (edges.map Edge.canonical) := by
  obtain ⟨g, read⟩ := ok_of_isOk (x := readGraph (.text notes) (⟨[1], [1]⟩ : Factors Float))
    (by decide +kernel)
  exact ⟨g, read, (readGraph_accepts (List.cons_ne_nil _ _) (List.cons_ne_nil _ _)).mp read⟩

end Multilevel.Hmetis
