import Multilevel.Proofs.Alike
import Multilevel.Proofs.Hmetis.Partition

/-!
# Layout of graph and partition files

Where lines stand and what separates their words has no influence on what a file is read as. Two runs
of a reader over lines with the same words take the same steps, and if they fail, then alike but for
the number of the line (`readGraph_alike`).
-/
namespace Multilevel

/-! ### Faults and their lines -/

def Fault.unplaced : Fault → Fault
  | malformed _ cause => malformed 0 cause
  | onLine _ cause => onLine 0 cause
  | other => other

/-- Faults that differ in nothing but the line that they name. -/
def Fault.Moved (e f : Fault) : Prop := e.unplaced = f.unplaced

structure Fault.SameKind (e f : Fault) : Prop where
  family : e.report.family = f.report.family
  code : e.report.detail.code = f.report.detail.code

theorem Fault.sameKind_unplaced (e : Fault) : e.SameKind e.unplaced := by
  cases e <;> exact ⟨rfl, rfl⟩

theorem Fault.Moved.sameKind {e f : Fault} (moved : e.Moved f) : e.SameKind f := by
  have left := e.sameKind_unplaced
  have right := f.sameKind_unplaced
  rw [Moved] at moved
  rw [← moved] at right
  exact ⟨left.family.trans right.family.symm, left.code.trans right.code.symm⟩

namespace Hmetis

open Text Source

variable {α : Type} {l m : Line} {i j : Nat}

/-! ### Lines with the same words -/

theorem token_alike {β : Type} (read : List Char → Option β) (s : List Char) :
    Alike Fault.Moved Eq (token read i s) (token read j s) := by
  unfold token
  cases read s with
  | some => exact .ok rfl
  | none => exact .error rfl

theorem flags_alike (s : List Char) : Alike Fault.Moved Eq (flags i s) (flags j s) := by
  unfold flags
  split
  · split
    · exact .ok rfl
    · exact .error rfl
  · split
    · exact .ok rfl
    · exact .error rfl
  · exact .error rfl

theorem header_alike (same : l.words = m.words) :
    Alike Fault.Moved Eq (header l) (header m) := by
  unfold header
  rw [same]
  split
  · refine (token_alike natural? _).bind fun edges _ counted => ?_
    refine (token_alike natural? _).bind fun nodes _ numbered => ?_
    rw [counted, numbered]
    exact .ok rfl
  · refine (token_alike natural? _).bind fun edges _ counted => ?_
    refine (token_alike natural? _).bind fun nodes _ numbered => ?_
    refine (flags_alike _).bind fun set _ flagged => ?_
    rw [counted, numbered, flagged]
    exact .ok rfl
  · exact .error rfl

theorem member_alike (s : List Char) : Alike Fault.Moved Eq (member i s) (member j s) := by
  refine (token_alike natural? s).bind fun number _ same => ?_
  rw [← same]
  cases number with
  | zero => exact .error rfl
  | succ n => exact .ok rfl

section
variable [Numeral α]

theorem nodeLine_alike {dim : Nat} (same : l.words = m.words) :
    Alike Fault.Moved Eq (nodeLine (α := α) dim l) (nodeLine dim m) := by
  unfold nodeLine
  rw [same]
  refine (Alike.mapM_eq_self (token_alike Numeral.read?) _).bind fun weights _ read => ?_
  rw [← read]
  split
  · exact .ok rfl
  · exact .error rfl

theorem edgeLine_alike [One α] {dim : Nat} {weighed : Bool} (same : l.words = m.words) :
    Alike Fault.Moved (fun e f : EdgeLine α => e.edge = f.edge) (edgeLine dim weighed l)
      (edgeLine dim weighed m) := by
  unfold edgeLine
  rw [same]
  split
  · split
    · exact .error rfl
    · refine (Alike.mapM_eq_self (token_alike Numeral.read?) _).bind fun weights _ weighed => ?_
      refine (Alike.mapM_eq_self member_alike _).bind fun members _ listed => ?_
      rw [weighed, listed]
      exact .ok rfl
  · refine (Alike.mapM_eq_self member_alike _).bind fun members _ listed => ?_
    rw [listed]
    exact .ok rfl

end

theorem forall₂_words {s t : String} (same : rows s = rows t) :
    List.Forall₂ (fun l m : Line => l.words = m.words) (numberedLines s) (numberedLines t) := by
  rw [← words_numberedLines, ← words_numberedLines] at same
  rwa [← List.forall₂_eq_eq_eq, List.forall₂_map_left_iff, List.forall₂_map_right_iff] at same

/-! ### Sections -/

/-- Content lines with the same words, or lines that are no text. -/
inductive SameWords : Met → Met → Prop
  | line {l m : Line} (words : l.words = m.words) : SameWords (.line l) (.line m)
  | unreadable : SameWords .unreadable .unreadable

variable {met others : List Met}

theorem takeLines_alike {β γ : Type} {R : β → γ → Prop} {read : Line → Except Fault β}
    {read' : Line → Except Fault γ} {short short' : Fault} (ends : short.Moved short')
    (each : ∀ l m : Line, l.words = m.words → Alike Fault.Moved R (read l) (read' m)) (count : Nat)
    (same : List.Forall₂ SameWords met others) :
    Alike Fault.Moved (fun a b => List.Forall₂ R a.1 b.1 ∧ List.Forall₂ SameWords a.2 b.2)
      (takeLines read short count met) (takeLines read' short' count others) := by
  induction count generalizing met others with
  | zero => exact .ok ⟨.nil, same⟩
  | succ count ih =>
    cases same with
    | nil => exact .error ends
    | cons first rest =>
      cases first with
      | unreadable => exact .error rfl
      | line words =>
        refine (each _ _ words).bind fun value _ read => ?_
        exact (ih rest).bind fun _ _ ⟨values, after⟩ => .ok ⟨.cons read values, after⟩

theorem addEdgeLine_alike (g : Hypergraph α) {e f : EdgeLine α} (same : e.edge = f.edge) :
    Alike Fault.Moved Eq (addEdgeLine g e) (addEdgeLine g f) := by
  obtain ⟨line, members, weights⟩ := e
  obtain ⟨line', members', weights'⟩ := f
  obtain ⟨rfl, rfl⟩ := Edge.mk.inj same
  unfold addEdgeLine
  cases g.addEdge members weights with
  | error => exact .error rfl
  | ok => exact .ok rfl

theorem nodeLines_alike [One α] [Numeral α] {short short' : Fault} (ends : short.Moved short')
    (weighed : Bool) (dim count : Nat) (same : List.Forall₂ SameWords met others) :
    Alike Fault.Moved
      (fun a b : List (List α) × List Met => a.1 = b.1 ∧ List.Forall₂ SameWords a.2 b.2)
      (if weighed then takeLines (nodeLine dim) short count met
        else .ok (List.replicate count (List.replicate dim 1), met))
      (if weighed then takeLines (nodeLine dim) short' count others
        else .ok (List.replicate count (List.replicate dim 1), others)) := by
  split
  · have each (l m : Line) (words : l.words = m.words) :
        Alike Fault.Moved Eq (nodeLine (α := α) dim l) (nodeLine dim m) := nodeLine_alike words
    simpa only [List.forall₂_eq_eq_eq] using takeLines_alike ends each count same
  · exact .ok ⟨rfl, same⟩

/-- Sources whose content lines have the same words are read as the same graph, or for neither is
there one. -/
theorem readGraph_alike [One α] [Numeral α] {source other : Source} (factors : Factors α)
    (same : List.Forall₂ SameWords source.content other.content) :
    Alike Fault.Moved Eq (readGraph source factors) (readGraph other factors) := by
  have ends (cause : Malformed) : Fault.Moved (.malformed source.lines.length cause)
      (.malformed other.lines.length cause) := rfl
  unfold readGraph
  generalize source.content = met, other.content = others at same
  simp only [ite_bind]
  have start : Alike Fault.Moved Eq (Hypergraph.empty factors) (Hypergraph.empty factors) := by
    cases Hypergraph.empty factors with
    | error => exact .error rfl
    | ok => exact .ok rfl
  refine start.bind ?_
  rintro g _ rfl
  cases same with
  | nil => exact .error rfl
  | cons first rest =>
  cases first with
  | unreadable => exact .error rfl
  | line words =>
  refine .bind (R := fun a b => a.1 = b.1 ∧ List.Forall₂ SameWords a.2 b.2)
    ((header_alike words).map fun h _ same => ⟨same, rest⟩) ?_
  rintro ⟨h, _⟩ ⟨_, _⟩ ⟨rfl, same⟩
  refine (takeLines_alike (ends _) (fun _ _ => edgeLine_alike) h.edges same).bind ?_
  rintro ⟨edges, _⟩ ⟨edges', _⟩ ⟨listed, same⟩
  refine (nodeLines_alike (ends _) h.weighsNodes g.nodeDim h.nodes same).bind ?_
  rintro ⟨weights, _⟩ ⟨_, _⟩ ⟨rfl, same⟩
  have noded : Alike Fault.Moved Eq (weights.foldlM Hypergraph.addNode g)
      (weights.foldlM Hypergraph.addNode g) := by
    cases weights.foldlM Hypergraph.addNode g with
    | error => exact .error rfl
    | ok => exact .ok rfl
  refine noded.bind ?_
  rintro g _ rfl
  refine (Alike.foldlM (R := Eq) ?_ listed rfl).bind ?_
  · rintro g _ e f rfl same
    exact addEdgeLine_alike g same
  · rintro g _ rfl
    cases same with
    | nil => exact .ok rfl
    | cons first rest =>
      cases first with
      | unreadable => exact .error rfl
      | line => exact .ok rfl

/-- Texts with the same rows are read as the same graph, or for neither is there one. -/
theorem readGraph_alike_of_rows [One α] [Numeral α] {s t : String} (factors : Factors α)
    (same : rows s = rows t) :
    Alike Fault.Moved Eq (readGraph (.text s) factors) (readGraph (.text t) factors) := by
  refine readGraph_alike factors ?_
  rw [content_text, content_text, List.forall₂_map_left_iff, List.forall₂_map_right_iff]
  exact (forall₂_words same).imp fun _ _ words => .line words

/-! ### Partitions -/

theorem blockLine_alike (same : l.content = m.content) :
    Alike Fault.Moved Eq (blockLine l) (blockLine m) := by
  unfold blockLine
  rw [same]
  refine (token_alike _ _).bind fun value _ read => ?_
  rw [← read]
  split
  · exact .ok rfl
  · exact .ok rfl
  · exact .error rfl

/-- A partition is read from whole lines, so blanks within a line do matter. -/
theorem readPartition_alike {s t : String} (same : rows s = rows t)
    (single : ∀ row ∈ rows s, row.length = 1) :
    Alike Fault.Moved Eq (readPartition (.text s)) (readPartition (.text t)) := by
  have content : List.Forall₂ (fun l m : Line => l.content = m.content) (numberedLines s)
      (numberedLines t) := by
    refine List.forall₂_iff_zip.mpr ⟨(forall₂_words same).length_eq, fun {l m} pair => ?_⟩
    have words := (List.forall₂_iff_zip.mp (forall₂_words same)).2 pair
    obtain ⟨left, right⟩ := List.of_mem_zip pair
    have row : l.words ∈ rows s := words_numberedLines s ▸ List.mem_map_of_mem left
    obtain ⟨word, one⟩ := List.length_eq_one_iff.mp (single _ row)
    exact (content_of_words left one).trans (content_of_words right (words ▸ one)).symm
  rw [readPartition_text, readPartition_text]
  exact Alike.mapM_eq (fun _ _ => blockLine_alike) content

end Hmetis
end Multilevel
