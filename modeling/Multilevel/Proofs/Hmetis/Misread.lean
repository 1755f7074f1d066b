import Multilevel.Proofs.Hmetis.Objections
import Multilevel.Proofs.Hmetis.Sections

/-!
# Files that are misread

Why a source is no graph file, and which of its lines is blamed for it (`Misread`). Lines are read
from the first to the last, so a row is blamed only if the rows before it are as they should be, and
what follows it does not matter. Edges are blamed only if all rows are as they should be.
-/
namespace Multilevel.Hmetis

open Text Source

variable {α : Type}

/-! ### Rows and their roles -/

inductive HeaderRow : Row → Header → Prop
  | mk {edgeCount nodeCount : List Char} {third : Row} {h : Header}
    (counted : Natural edgeCount h.edges) (numbered : Natural nodeCount h.nodes)
    (flags : Flags third h.weighsEdges h.weighsNodes) : HeaderRow (edgeCount :: nodeCount :: third) h

theorem headerRow_iff {l : Line} {h : Header} : header l = .ok h ↔ HeaderRow l.words h := by
  rw [header_ok]
  constructor
  · rintro ⟨_, _, _, words, counted, numbered, flags⟩
    rw [words]
    exact .mk counted numbered flags
  · intro headed
    generalize l.words = row at headed
    obtain ⟨counted, numbered, flags⟩ := headed
    exact ⟨_, _, _, rfl, counted, numbered, flags⟩

/-- Rows that are as they should be, and the role of the row that should come next. -/
inductive Begins [One α] [Numeral α] (factors : Factors α) : List Row → Role → Prop
  | header : Begins factors [] .header
  | edge {row : Row} {rows : List Row} {h : Header} (headed : HeaderRow row h)
    (each : ∀ r ∈ rows, ∃ e : Edge α, EdgeRow factors.edge.length h.weighsEdges r e)
    (more : rows.length < h.edges) : Begins factors (row :: rows) (.edge h.weighsEdges)
  | node {row : Row} {edges nodes : List Row} {h : Header} (headed : HeaderRow row h)
    (weighed : h.weighsNodes = true)
    (edge : ∀ r ∈ edges, ∃ e : Edge α, EdgeRow factors.edge.length h.weighsEdges r e)
    (all : edges.length = h.edges)
    (node : ∀ r ∈ nodes, ∃ weights : List α, WeightRow factors.node.length r weights)
    (more : nodes.length < h.nodes) : Begins factors (row :: (edges ++ nodes)) .node

/-- Why a source of lines is no graph file, and the line that is blamed: none if there is no header,
the last one if there are too few rows, the row that is not as it should be, or the row of the first
edge that does not span nodes of the graph. -/
inductive Misread [One α] [Numeral α] (factors : Factors α) (source : Source) : Nat → Fault → Prop
  | headless (none : source.content = []) : Misread factors source 0 (.malformed 0 .missingHeader)
  | fewEdges {lines : List Line} {weighed : Bool} (all : source.content = lines.map .line)
    (begins : Begins factors (lines.map Line.words) (.edge weighed)) :
    Misread factors source source.lines.length (.malformed source.lines.length .truncatedEdges)
  | fewNodes {lines : List Line} (all : source.content = lines.map .line)
    (begins : Begins factors (lines.map Line.words) .node) :
    Misread factors source source.lines.length (.malformed source.lines.length .truncatedNodes)
  | row {before : List Line} {l : Line} {after : List Met} {role : Role} {cause : Malformed}
    (met : source.content = before.map .line ++ .line l :: after)
    (begins : Begins factors (before.map Line.words) role)
    (objection : Objection factors role l.words cause) :
    Misread factors source l.number (.malformed l.number cause)
  | edge {lines : List Line} {weights : List (List α)} {before after : List (Edge α)} {e : Edge α}
    {l : Line} {cause : Fault} (all : source.content = lines.map .line)
    (sections : Sections factors (lines.map Line.words) weights (before ++ e :: after))
    (spans : ∀ d ∈ before, Spans weights.length d.members)
    (unspanned : Unspanned weights.length e.members cause)
    (placed : lines[before.length + 1]? = some l) :
    Misread factors source l.number (.onLine l.number cause)

section
variable [Numeral α] {factors : Factors α} {source : Source} {fault : Fault}

theorem weightRows_iff {dim : Nat} {lines : List Line} :
    (∀ r ∈ lines.map Line.words, ∃ weights : List α, WeightRow dim r weights) ↔
      ∀ l ∈ lines, ∃ weights, nodeLine (α := α) dim l = .ok weights := by
  simp only [List.forall_mem_map, nodeLine_ok]

variable [One α]

theorem edgeRows_iff {dim : Nat} {weighed : Bool} {lines : List Line} :
    (∀ r ∈ lines.map Line.words, ∃ e : Edge α, EdgeRow dim weighed r e) ↔
      ∀ l ∈ lines, ∃ e, edgeLine (α := α) dim weighed l = .ok e := by
  simp only [List.forall_mem_map, edgeLine_ok]
  refine forall₂_congr fun l _ => ⟨?_, ?_⟩
  · rintro ⟨e, read⟩
    exact ⟨⟨l.number, e.members, e.weights⟩, rfl, read⟩
  · rintro ⟨e, -, read⟩
    exact ⟨e.edge, read⟩

theorem line_of_edgeLines {dim : Nat} {weighed : Bool} {lines : List Line}
    {before after : List (EdgeLine α)} {e : EdgeLine α}
    (read : List.Forall₂ (fun l e => edgeLine dim weighed l = .ok e) lines (before ++ e :: after)) :
    ∃ l, e.line = l.number ∧ ∀ rest, (lines ++ rest)[before.length]? = some l := by
  have behind := List.forall₂_drop_append lines before (e :: after) read
  obtain ⟨l, others, own, -, split⟩ := List.forall₂_cons_right_iff.mp behind
  have placed : lines[before.length]? = some l := by
    rw [← Nat.add_zero before.length, ← List.getElem?_drop, split]
    rfl
  refine ⟨l, (edgeLine_ok.mp own).1, fun rest => ?_⟩
  rw [List.getElem?_append_left (List.getElem?_eq_some_iff.mp placed).1, placed]

theorem fits_of_edgeLines {dim : Nat} {weighed : Bool} {lines : List Line} {edges : List (EdgeLine α)}
    (read : List.Forall₂ (fun l e => edgeLine dim weighed l = .ok e) lines edges) :
    ∀ e ∈ edges, e.weights.length = dim :=
  forall_of_forall₂ read fun _ _ own => (edgeLine_ok.mp own).2.length

/-! ### Rows that are refused -/

/-- What the reader meets after rows that are as they should be, and why it goes no further. -/
def Stops (factors : Factors α) (count : Nat) : Role → List Met → Fault → Prop
  | .header => Halts header (.malformed 0 .missingHeader)
  | .edge weighed =>
    Halts (edgeLine (α := α) factors.edge.length weighed) (.malformed count .truncatedEdges)
  | .node => Halts (nodeLine (α := α) factors.node.length) (.malformed count .truncatedNodes)

theorem stops_line {role : Role} {l : Line} {rest : List Met} {count : Nat} :
    Stops factors count role (.line l :: rest) fault ↔
      ∃ cause, Objection factors role l.words cause ∧ fault = .malformed l.number cause := by
  have refused {β : Type} {read : Line → Except Fault β} {short : Fault} :
      Halts read short (.line l :: rest) fault ↔ read l = .error fault :=
    ⟨fun | .refused failed => failed, .refused⟩
  cases role with
  | header => exact refused.trans header_error
  | edge => exact refused.trans edgeLine_error
  | node => exact refused.trans nodeLine_error

theorem Begins.misread {role : Role} {lines before : List Line} {rest : List Met}
    (begins : Begins factors (before.map Line.words) role) (all : source.content = lines.map .line)
    (met : source.content = before.map .line ++ rest)
    (stops : Stops factors source.lines.length role rest fault) :
    ∃ line, Misread factors source line fault := by
  match rest with
  | [] =>
    rw [List.append_nil] at met
    cases role with
    | header =>
      generalize rows : before.map Line.words = words at begins
      cases begins
      obtain rfl := List.map_eq_nil_iff.mp rows
      cases stops
      exact ⟨0, .headless met⟩
    | edge =>
      cases stops
      exact ⟨_, .fewEdges met begins⟩
    | node =>
      cases stops
      exact ⟨_, .fewNodes met begins⟩
  | .unreadable :: _ =>
    have member : Met.unreadable ∈ lines.map Met.line := by
      rw [← all, met]
      exact List.mem_append_right _ List.mem_cons_self
    obtain ⟨l, -, same⟩ := List.mem_map.mp member
    cases same
  | .line l :: _ =>
    obtain ⟨cause, objection, rfl⟩ := stops_line.mp stops
    exact ⟨_, .row met begins objection⟩

/-! ### Where reading stops -/

section
variable {l : Line} {lines : List Line} {h : Header} {edges : List (EdgeLine α)} {behind : List Met}

theorem misread_of_edgeSection (all : source.content = (l :: lines).map .line)
    (headed : header l = .ok h)
    (failed : edgeSection factors source.lines.length h (lines.map .line) = .error fault) :
    ∃ line, Misread factors source line fault := by
  obtain ⟨before, rest, split, less, each, halts⟩ := takeLines_error.mp failed
  have begins : Begins factors ((l :: before).map Line.words) (.edge h.weighsEdges) :=
    .edge (headerRow_iff.mp headed) (edgeRows_iff.mpr each) (by rwa [List.length_map])
  have met : source.content = (l :: before).map .line ++ rest :=
    all.trans (congrArg (Met.line l :: ·) split)
  exact begins.misread all met halts

theorem misread_of_nodeSection (all : source.content = (l :: lines).map .line)
    (headed : header l = .ok h)
    (edgeLines : edgeSection factors source.lines.length h (lines.map .line) = .ok (edges, behind))
    (failed : nodeSection factors source.lines.length h behind = .error fault) :
    ∃ line, Misread factors source line fault := by
  unfold nodeSection at failed
  split at failed
  · rename_i weighed
    obtain ⟨taken, split, counted, read⟩ := takeLines_ok.mp edgeLines
    obtain ⟨before, rest, rfl, less, each, halts⟩ := takeLines_error.mp failed
    have begins : Begins factors ((l :: (taken ++ before)).map Line.words) .node := by
      rw [List.map_cons, List.map_append]
      refine .node (headerRow_iff.mp headed) weighed (edgeRows_iff.mpr ?_) ?_
        (weightRows_iff.mpr each) (by rwa [List.length_map])
      · exact forall_of_forall₂ read.flip fun e l same => ⟨e, same⟩
      · rw [List.length_map, read.length_eq, counted]
    have met : source.content = (l :: (taken ++ before)).map .line ++ rest := by
      rw [List.map_cons, List.map_append, List.cons_append, List.append_assoc]
      exact all.trans (congrArg (Met.line l :: ·) split)
    exact begins.misread all met halts
  · cases failed

theorem misread_of_edges {weights : List (List α)} {last : List Met}
    (all : source.content = (l :: lines).map .line) (headed : header l = .ok h)
    (edgeLines : edgeSection factors source.lines.length h (lines.map .line) = .ok (edges, behind))
    (nodeLines : nodeSection factors source.lines.length h behind = .ok (weights, last))
    (failed : edges.foldlM addEdgeLine (.ofParts factors weights []) = .error fault) :
    ∃ line, Misread factors source line fault := by
  obtain ⟨edgesTaken, _, rfl, rfl, edgeCount, read⟩ := (takeLines_lines_ok _).mp edgeLines
  obtain ⟨nodesTaken, rest, rfl, -, nodeCount, nodeRows⟩ := (nodeLines_ok _).mp nodeLines
  have edgeRows : List.Forall₂ (EdgeRow factors.edge.length h.weighsEdges)
      (edgesTaken.map Line.words) (edges.map EdgeLine.edge) := by
    rw [List.forall₂_map_left_iff, List.forall₂_map_right_iff]
    exact read.imp fun l e same => (edgeLine_ok.mp same).2
  have sections := sections_words.mpr ⟨h, edgesTaken, nodesTaken, rest, headed, rfl,
    (List.length_map _).trans edgeCount, nodeCount, edgeRows, nodeRows⟩
  obtain ⟨before, e, after, cause, rfl, spans, unspanned, rfl⟩ :=
    (foldlM_addEdgeLine_error (fits_of_edgeLines read)).mp failed
  obtain ⟨k, number, placed⟩ := line_of_edgeLines read
  rw [List.map_append, List.map_cons] at sections
  rw [number]
  refine ⟨k.number, .edge all sections (List.forall_mem_map.mpr spans) unspanned ?_⟩
  rw [List.length_map, List.getElem?_cons_succ]
  exact placed _

end

/-- If all lines are texts, the reader goes no further for one of the reasons that are listed. -/
theorem misread_of_readGraph {lines : List Line} (node : factors.node ≠ []) (edge : factors.edge ≠ [])
    (all : source.content = lines.map .line) (failed : readGraph source factors = .error fault) :
    ∃ line, Misread factors source line fault := by
  have begins : Begins factors (([] : List Line).map Line.words) .header := .header
  cases lines with
  | nil =>
    have stops : Stops factors source.lines.length .header [] fault := by
      unfold readGraph at failed
      rw [all, Hypergraph.empty_ok.mpr ⟨node, edge, rfl⟩] at failed
      exact Except.error.inj failed ▸ .short
    exact begins.misread all all stops
  | cons l lines =>
    rcases (readGraph_error_iff node edge all).mp failed with failed | ⟨h, headed, failed | ⟨edges, _,
      edgeLines, failed | ⟨weights, _, nodeLines, failed | ⟨-, ⟨others, behind⟩, rfl⟩⟩⟩⟩
    · exact begins.misread all all (.refused failed)
    · exact misread_of_edgeSection all headed failed
    · exact misread_of_nodeSection all headed edgeLines failed
    · exact misread_of_edges all headed edgeLines nodeLines failed
    · obtain ⟨_, lines, rfl, rfl, -, -⟩ := (takeLines_lines_ok _).mp edgeLines
      obtain ⟨_, rest, rfl, last, -, -⟩ := (nodeLines_ok _).mp nodeLines
      rw [last] at behind
      cases rest <;> cases behind

/-! ### Files that are refused -/

theorem Begins.readGraph_error {role : Role} {before : List Line} {rest : List Met}
    (begins : Begins factors (before.map Line.words) role) (node : factors.node ≠ [])
    (edge : factors.edge ≠ []) (met : source.content = before.map .line ++ rest)
    (stops : Stops factors source.lines.length role rest fault) :
    readGraph source factors = .error fault := by
  generalize rows : before.map Line.words = words at begins
  cases begins with
  | header =>
    obtain rfl := List.map_eq_nil_iff.mp rows
    cases stops with
    | short | unreadable =>
      unfold readGraph
      rw [met, Hypergraph.empty_ok.mpr ⟨node, edge, rfl⟩]
      rfl
    | refused failed => exact (readGraph_error_iff node edge met).mpr (.inl failed)
  | @edge row _ h headed each more =>
    obtain ⟨l, before, rfl, rfl, rfl⟩ := List.map_eq_cons_iff.mp rows
    rw [List.length_map] at more
    refine (readGraph_error_iff node edge met).mpr (.inr ⟨h, headerRow_iff.mpr headed, .inl ?_⟩)
    exact takeLines_error.mpr ⟨before, rest, rfl, more, edgeRows_iff.mp each, stops⟩
  | @node row _ _ h headed weighed each all weighs more =>
    obtain ⟨l, _, rfl, rfl, split⟩ := List.map_eq_cons_iff.mp rows
    obtain ⟨edgeLines, nodeLines, rfl, rfl, rfl⟩ := List.map_eq_append_iff.mp split
    rw [List.length_map] at all more
    obtain ⟨edges, read⟩ := exists_mapM (edgeRows_iff.mp each)
    have own := mapM_ok.mp read
    rw [List.map_cons, List.map_append, List.cons_append, List.append_assoc] at met
    refine (readGraph_error_iff node edge met).mpr (.inr ⟨h, headerRow_iff.mpr headed,
      .inr ⟨edges, nodeLines.map .line ++ rest, ?_, .inl ?_⟩⟩)
    · exact takeLines_ok.mpr ⟨edgeLines, rfl, own.length_eq.symm.trans all, own⟩
    · rw [nodeSection, if_pos weighed]
      exact takeLines_error.mpr ⟨nodeLines, rest, rfl, more, weightRows_iff.mp weighs, stops⟩

theorem readGraph_error_of_unspanned {lines : List Line} {weights : List (List α)}
    {before after : List (Edge α)} {e : Edge α} {l : Line} {cause : Fault} (node : factors.node ≠ [])
    (edge : factors.edge ≠ []) (all : source.content = lines.map .line)
    (sections : Sections factors (lines.map Line.words) weights (before ++ e :: after))
    (spans : ∀ d ∈ before, Spans weights.length d.members)
    (unspanned : Unspanned weights.length e.members cause)
    (placed : lines[before.length + 1]? = some l) :
    readGraph source factors = .error (.onLine l.number cause) := by
  cases lines with
  | nil => cases sections
  | cons first lines =>
    obtain ⟨h, edgeLines, nodeLines, rest, headed, rfl, edgeCount, nodeCount, edgeRows, nodeRows⟩ :=
      sections_words.mp sections
    obtain ⟨edges, read, same⟩ := exists_edgeLines edgeRows
    obtain ⟨front, back, rfl, rfl, split⟩ := List.map_eq_append_iff.mp same
    obtain ⟨x, back, rfl, rfl, rfl⟩ := List.map_eq_cons_iff.mp split
    have known : ∀ d ∈ front, Spans weights.length d.members := fun d member =>
      spans d.edge (List.mem_map_of_mem member)
    have failed := (foldlM_addEdgeLine_error (fits_of_edgeLines read)).mpr
      ⟨front, x, back, cause, rfl, known, unspanned, rfl⟩
    obtain ⟨k, number, place⟩ := line_of_edgeLines read
    obtain rfl : k = l := by
      rw [List.length_map, List.getElem?_cons_succ, place] at placed
      exact Option.some.inj placed
    rw [number] at failed
    rw [← same, List.length_map] at edgeCount
    have edgeLines := (takeLines_lines_ok (.malformed source.lines.length .truncatedEdges)).mpr
      ⟨edgeLines, nodeLines ++ rest, rfl, rfl, edgeCount, read⟩
    have nodeLines := (nodeLines_ok (.malformed source.lines.length .truncatedNodes)).mpr
      ⟨nodeLines, rest, rfl, rfl, nodeCount, nodeRows⟩
    exact (readGraph_error_iff node edge all).mpr (.inr ⟨h, headed, .inr ⟨_, _, edgeLines,
      .inr ⟨_, _, nodeLines, .inl failed⟩⟩⟩)

theorem Misread.readGraph_error {line : Nat} (misread : Misread factors source line fault)
    (node : factors.node ≠ []) (edge : factors.edge ≠ []) :
    readGraph source factors = .error fault := by
  cases misread with
  | headless none =>
    have begins : Begins factors (([] : List Line).map Line.words) .header := .header
    exact begins.readGraph_error node edge none .short
  | fewEdges all begins =>
    exact begins.readGraph_error node edge (all.trans (List.append_nil _).symm) .short
  | fewNodes all begins =>
    exact begins.readGraph_error node edge (all.trans (List.append_nil _).symm) .short
  | row met begins objection =>
    exact begins.readGraph_error node edge met (stops_line.mpr ⟨_, objection, rfl⟩)
  | edge all sections spans unspanned placed =>
    exact readGraph_error_of_unspanned node edge all sections spans unspanned placed

end
end Multilevel.Hmetis
