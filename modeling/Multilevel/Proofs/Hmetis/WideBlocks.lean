import Multilevel.Proofs.Hmetis.Located
import Multilevel.Proofs.Hmetis.Partition

namespace Multilevel.Hmetis

theorem blockLine_wide {b : BlockId} (wide : 0x8000000000000000 ≤ b) (number : Nat) :
    blockLine ⟨number, blockWord (some b)⟩ =
      .error (.malformed number (.invalidToken (String.ofList (Nat.toDigits 10 b)))) := by
  have unread : token (fun s => (Text.integer s).toOption) number (Nat.toDigits 10 b) =
      .error (.malformed number (.invalidToken (String.ofList (Nat.toDigits 10 b)))) :=
    token_error.mpr ⟨Text.toOption_integer_toDigits wide, rfl⟩
  exact bind_error.mpr (.inl unread)

theorem readPartition_wide {before after : Partition} {b : BlockId}
    (small : ∀ c, some c ∈ before → c < 0x8000000000000000) (wide : 0x8000000000000000 ≤ b) :
    readPartition (.text (writePartition (before ++ some b :: after))) = .error
      (.malformed (before.length + 1) (.invalidToken (String.ofList (Nat.toDigits 10 b)))) := by
  rw [readPartition_blockWords, List.zipIdx_append, List.zipIdx_cons]
  refine mapM_error.mpr ⟨_, _, _, rfl, fun e member => ⟨e.1, ?_⟩, ?_⟩
  · exact blockLine_blockWord
      (fun c same => small c (same ▸ List.fst_mem_of_mem_zipIdx member)) e.2
  · rw [Nat.add_comm 1]
    exact blockLine_wide wide _

theorem exists_first_wide {p : Partition} (wide : ∃ b, some b ∈ p ∧ 0x8000000000000000 ≤ b) :
    ∃ before b after, p = before ++ some b :: after ∧ 0x8000000000000000 ≤ b ∧
      ∀ c, some c ∈ before → c < 0x8000000000000000 := by
  obtain ⟨b, used, large⟩ := wide
  have found : (p.find? (·.any (0x8000000000000000 ≤ ·))).isSome :=
    List.find?_isSome.mpr ⟨some b, used, by simpa using large⟩
  obtain ⟨first, read⟩ := Option.isSome_iff_exists.mp found
  obtain ⟨here, before, after, split, others⟩ := List.find?_eq_some_iff_append.mp read
  cases first with
  | none => cases here
  | some c =>
    exact ⟨before, c, after, split, by simpa using here,
      fun d earlier => by simpa using others _ earlier⟩

/-- A partition is read back from its file, unless some block is too wide; then the report names the
line of the first one. Whatever was read can be written and read again. -/
theorem readPartition_written (p : Partition) :
    ((∀ b, some b ∈ p → b ≤ 0x7fffffffffffffff) →
      readPartition (.text (writePartition p)) = .ok p) ∧
    (¬ (∀ b, some b ∈ p → b ≤ 0x7fffffffffffffff) → ∃ i b fault,
      p[i]? = some (some b) ∧ 0x7fffffffffffffff < b ∧
      (∀ j < i, ∀ c, p[j]? = some (some c) → c ≤ 0x7fffffffffffffff) ∧
      readPartition (.text (writePartition p)) = .error fault ∧
      fault.report.family = .format ∧ fault.report.detail.code = "invalid-token" ∧
      Dictionary.get? fault.report.detail.context "line" = some (i + 1).repr) ∧
    ∀ source : Source, readPartition source = .ok p →
      readPartition (.text (writePartition p)) = .ok p := by
  refine ⟨fun small => ?_, fun large => ?_, fun source read => ?_⟩
  · exact readPartition_writePartition fun b used => Nat.lt_succ_of_le (small b used)
  · simp only [not_forall, Nat.not_le, exists_prop] at large
    obtain ⟨before, b, after, rfl, wide, small⟩ := exists_first_wide large
    refine ⟨before.length, b, _, by simp, wide, fun j earlier c placed => ?_,
      readPartition_wide small wide, rfl, rfl, line_of_malformed _ _⟩
    rw [List.getElem?_append_left earlier] at placed
    exact Nat.le_of_lt_succ (small c (List.mem_of_getElem? placed))
  · exact readPartition_writePartition fun b used => lt_of_readPartition read used

/-- The widest block that a file can hold, two that it cannot, and a file with signs, blanks and a
comment. -/
theorem readPartition_written_bounds :
    let narrow : Partition := [none, some 0x7fffffffffffffff]
    let wide : Partition := [some 0, none, some 0x8000000000000000, some 0xffffffffffffffff]
    let file : Source := .text "% blocks\n +7 \r\n-1\n\n-0"
    readPartition (.text (writePartition narrow)) = .ok narrow ∧
    (∃ i b fault, wide[i]? = some (some b) ∧ 0x7fffffffffffffff < b ∧
      (∀ j < i, ∀ c, wide[j]? = some (some c) → c ≤ 0x7fffffffffffffff) ∧
      readPartition (.text (writePartition wide)) = .error fault ∧
      fault.report.family = .format ∧ fault.report.detail.code = "invalid-token" ∧
      Dictionary.get? fault.report.detail.context "line" = some (i + 1).repr) ∧
    readPartition file = .ok [some 7, none, some 0] ∧
    readPartition (.text (writePartition [some 7, none, some 0])) = .ok [some 7, none, some 0] := by
  intro narrow wide file
  have read : readPartition file = .ok [some 7, none, some 0] := rfl
  refine ⟨(readPartition_written narrow).1 (by simp [narrow]), ?_, read,
    (readPartition_written _).2.2 file read⟩
  exact (readPartition_written wide).2.1 fun small =>
    absurd (small 0x8000000000000000 (by simp [wide])) (by decide)

end Multilevel.Hmetis
