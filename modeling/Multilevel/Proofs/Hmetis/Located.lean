import Multilevel.Proofs.Dictionary
import Multilevel.Proofs.Hmetis.Misread

namespace Multilevel.Hmetis

open Source

theorem line_of_malformed (line : Nat) (cause : Malformed) :
    Dictionary.get? (Fault.malformed line cause).report.detail.context "line" = some line.repr := by
  have apart : ∀ e ∈ cause.facts, "line" ≠ e.1 := by
    cases cause <;> simp [Malformed.facts]
  exact Dictionary.get?_ofList_cons apart

theorem line_of_onLine (line : Nat) (cause : Fault) :
    Dictionary.get? (Fault.onLine line cause).report.detail.context "line" = some line.repr :=
  Dictionary.get?_put_self _

section
variable {α : Type} [One α] [Numeral α] {factors : Factors α}

theorem Misread.line_eq {source : Source} {line : Nat} {fault : Fault}
    (misread : Misread factors source line fault) :
    Dictionary.get? fault.report.detail.context "line" = some line.repr := by
  cases misread with
  | headless | fewEdges | fewNodes | row => exact line_of_malformed _ _
  | edge => exact line_of_onLine _ _

theorem Misread.family_eq {source : Source} {line : Nat} {fault : Fault}
    (misread : Misread factors source line fault) :
    fault.report.family = .format ∨ fault.report.family = .invalidEdge := by
  cases misread with
  | headless | fewEdges | fewNodes | row => exact .inl rfl
  | edge _ _ _ unspanned => cases unspanned <;> exact .inr rfl

/-- A text is refused exactly if it is misread, and the report says so with the line that is blamed.
If a row is blamed, whatever else stood behind its line would not change the report. -/
theorem readGraph_located {s : String} (node : factors.node ≠ []) (edge : factors.edge ≠ [])
    {fault : Fault} : readGraph (.text s) factors = .error fault ↔
      ∃ line, Misread factors (.text s) line fault ∧
        (fault.report.family = .format ∨ fault.report.family = .invalidEdge) ∧
        Dictionary.get? fault.report.detail.context "line" = some line.repr ∧
        (fault.report.family = .format →
          fault.report.detail.code ∉ ["missing-header", "truncated-edges", "truncated-nodes"] →
            ∀ other : Source, other.lines.take line = (Source.text s).lines.take line →
              readGraph other factors = .error fault) := by
  constructor
  · intro failed
    obtain ⟨line, misread⟩ := misread_of_readGraph node edge (content_text s) failed
    refine ⟨line, misread, misread.family_eq, misread.line_eq, fun format early other same => ?_⟩
    cases misread with
    | headless => exact absurd (.head _) early
    | fewEdges => exact absurd (.tail _ (.head _)) early
    | fewNodes => exact absurd (.tail _ (.tail _ (.head _))) early
    | row met begins objection =>
      obtain ⟨rest, others⟩ := content_take met same
      exact (Misread.row others begins objection).readGraph_error node edge
    | edge _ _ _ unspanned => cases unspanned <;> cases format
  · rintro ⟨line, misread, -⟩
    exact misread.readGraph_error node edge

end

/-- A file whose fourth line lists a member that is no number. -/
def typo : String := "% header follows\n2 3\n1 2\n1 x\n"

theorem readGraph_located_typo :
    let factors : Factors Float := ⟨[1], [1]⟩
    let fault : Fault := .malformed 4 (.invalidToken "x")
    readGraph (.text typo) factors = .error fault ∧ ∃ line, Misread factors (.text typo) line fault ∧
      (fault.report.family = .format ∨ fault.report.family = .invalidEdge) ∧
      Dictionary.get? fault.report.detail.context "line" = some line.repr ∧
      (fault.report.family = .format →
        fault.report.detail.code ∉ ["missing-header", "truncated-edges", "truncated-nodes"] →
          ∀ other : Source, other.lines.take line = (Source.text typo).lines.take line →
            readGraph other factors = .error fault) := by
  intro factors fault
  have failed : readGraph (.text typo) factors = .error fault := rfl
  exact ⟨failed, (readGraph_located (List.cons_ne_nil _ _) (List.cons_ne_nil _ _)).mp failed⟩

end Multilevel.Hmetis
