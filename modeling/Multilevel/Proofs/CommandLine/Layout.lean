import Multilevel.CommandLine.Run
import Multilevel.Proofs.Hmetis.Layout

namespace Multilevel.CommandLine

open Source

theorem contentLines_eq (text : String) : contentLines text = numberedLines text := by
  have numbers : numbered 1 (Text.lines text.toList) = numberedLines text := by
    rw [numberedLines, numbered, Text.map_trim_lines]
    rfl
  rw [contentLines, contentAfter_text, numbers, List.filterMap_map]
  exact List.filterMap_some

/-- Failures over the same word of a cluster file, wherever it stands. -/
inductive Failure.SameToken : Failure → Failure → Prop
  | mk (i j : Nat) (token : List Char) (cause : Text.IntegerFault) :
    SameToken (.clusterToken i token cause) (.clusterToken j token cause)

theorem clusterLine_alike {l m : Line} (same : l.words = m.words) :
    Alike Failure.SameToken Eq (clusterLine l) (clusterLine m) := by
  unfold clusterLine
  rw [same]
  refine Alike.mapM_eq_self (fun token => ?_) _
  cases Text.natural token with
  | ok => exact .ok rfl
  | error cause => exact .error (.mk _ _ token cause)

theorem parseClusters_alike {s t : String} (same : Hmetis.rows s = Hmetis.rows t) :
    Alike Failure.SameToken Eq (parseClusters s) (parseClusters t) := by
  rw [parseClusters, parseClusters, contentLines_eq, contentLines_eq]
  exact Alike.mapM_eq (fun _ _ => clusterLine_alike) (Hmetis.forall₂_words same)

/-- No reader tells two texts apart. Blocks are read from whole lines, so for partitions each line
has to be one word. -/
structure ReadAlike (α : Type) [One α] [Numeral α] (s t : String) : Prop where
  graph : ∀ factors : Factors α, Alike Fault.SameKind Eq (Hmetis.readGraph (.text s) factors)
    (Hmetis.readGraph (.text t) factors)
  clusters : Alike Failure.SameToken Eq (parseClusters s) (parseClusters t)
  partition : (∀ row ∈ Hmetis.rows s, row.length = 1) →
    Alike Fault.SameKind Eq (Hmetis.readPartition (.text s)) (Hmetis.readPartition (.text t))

/-- Blank lines, comments, indentation, blanks between words and the way that lines end make no
difference to what is read, and both ways to split a text into lines number its content lines
alike. -/
theorem readAlike_of_rows {α : Type} [One α] [Numeral α] {s t : String}
    (same : Hmetis.rows s = Hmetis.rows t) :
    ReadAlike α s t ∧ ∀ text, (Source.text text).content = (contentLines text).map .line := by
  refine ⟨⟨fun factors => ?_, parseClusters_alike same, fun single => ?_⟩, fun text => ?_⟩
  · exact (Hmetis.readGraph_alike_of_rows factors same).imp fun _ _ => Fault.Moved.sameKind
  · exact (Hmetis.readPartition_alike same single).imp fun _ _ => Fault.Moved.sameKind
  · rw [contentLines_eq]
    exact content_text text

def column : String := "0\n-1\n1\n"

def spaced : String := "\t0 \r\n% free\r\n\n  -1\n1"

def tidy : String := "2 3 1\n2.5 1 2 +2\n-inf\t3  2\nthe rest\n"

theorem readAlike_spaced :
    (Hmetis.rows column = Hmetis.rows spaced ∧ ReadAlike Float column spaced) ∧
    (Hmetis.rows Hmetis.notes = Hmetis.rows tidy ∧ ReadAlike Float Hmetis.notes tidy) ∧
    ∀ text, (Source.text text).content = (contentLines text).map .line := by
  have blocks : Hmetis.rows column = Hmetis.rows spaced := by decide +kernel
  have edges : Hmetis.rows Hmetis.notes = Hmetis.rows tidy := by decide +kernel
  obtain ⟨tidied, numbered⟩ := readAlike_of_rows (α := Float) edges
  exact ⟨⟨blocks, (readAlike_of_rows blocks).1⟩, ⟨edges, tidied⟩, numbered⟩

end Multilevel.CommandLine
