import Multilevel.Hmetis.Partition
import Multilevel.Proofs.Hmetis.Grammar
import Multilevel.Proofs.Text.Words

namespace Multilevel

open Text Source

namespace Text

theorem integer_toDigits_eq (n : Nat) : integer (Nat.toDigits 10 n) =
    Int.ofNat <$> magnitude 0x8000000000000000 (Nat.toDigits 10 n) := by
  obtain ⟨c, rest, digits, digit⟩ := (spells_toDigits n).leads
  rw [digits]
  unfold integer
  split
  · rename_i minus
    obtain ⟨rfl, -⟩ := List.cons.inj minus
    cases digit
  · rename_i plus
    obtain ⟨rfl, -⟩ := List.cons.inj plus
    cases digit
  · rfl

theorem integer_toDigits {n : Nat} (small : n < 0x8000000000000000) :
    integer (Nat.toDigits 10 n) = .ok (Int.ofNat n) := by
  rw [integer_toDigits_eq, (magnitude_ok (by decide)).mpr ⟨spells_toDigits n, small⟩]
  rfl

theorem toOption_integer_toDigits {n : Nat} (large : 0x8000000000000000 ≤ n) :
    (integer (Nat.toDigits 10 n)).toOption = none := by
  rw [integer_toDigits_eq]
  cases read : magnitude 0x8000000000000000 (Nat.toDigits 10 n) with
  | error => rfl
  | ok m =>
    obtain ⟨spelled, small⟩ := (magnitude_ok (by decide)).mp read
    have same : m = n := spelled.value.symm.trans (spells_toDigits n).value
    omega

/-- A number without a minus takes 63 bits at most. -/
theorem lt_of_integer {s : List Char} {n : Nat} (read : integer s = .ok (Int.ofNat n)) :
    n < 0x8000000000000000 := by
  unfold integer at read
  split at read
  · obtain ⟨value, written, same⟩ := map_ok.mp read
    obtain ⟨m, -, cast⟩ := bind_ok.mp written
    have natural : (m : Int) = value := pure_ok.mp cast
    have negated : -value = n := same
    omega
  · obtain ⟨m, written, same⟩ := map_ok.mp read
    obtain rfl := Int.ofNat.inj same
    exact ((magnitude_ok (by decide)).mp written).2
  · obtain ⟨m, written, same⟩ := map_ok.mp read
    obtain rfl := Int.ofNat.inj same
    exact ((magnitude_ok (by decide)).mp written).2

end Text

namespace Hmetis

theorem lt_of_blockLine {l : Line} {b : BlockId} (read : blockLine l = .ok (some b)) :
    b < 0x8000000000000000 := by
  unfold blockLine at read
  obtain ⟨value, written, read⟩ := bind_ok.mp read
  split at read
  · obtain rfl := Option.some.inj (pure_ok.mp read)
    have number := token_ok.mp written
    cases found : integer l.content with
    | error => rw [found] at number; cases number
    | ok held =>
      rw [found] at number
      obtain rfl := Option.some.inj number
      exact lt_of_integer found
  · cases pure_ok.mp read
  · cases read

theorem lt_of_blocks {met : List Met} {p : Partition} (read : blocks met = .ok p) {b : BlockId}
    (used : some b ∈ p) : b < 0x8000000000000000 := by
  induction met generalizing p with
  | nil =>
    obtain rfl := pure_ok.mp read
    cases used
  | cons first met ih =>
    cases first with
    | unreadable => cases read
    | line l =>
      obtain ⟨block, own, read⟩ := bind_ok.mp read
      obtain ⟨rest, others, read⟩ := bind_ok.mp read
      obtain rfl := pure_ok.mp read
      rcases List.mem_cons.mp used with rfl | later
      · exact lt_of_blockLine own
      · exact ih others later

theorem lt_of_readPartition {source : Source} {p : Partition} (read : readPartition source = .ok p)
    {b : BlockId} (used : some b ∈ p) : b < 0x8000000000000000 :=
  lt_of_blocks read used

def blockWord : Option BlockId → List Char
  | some b => Nat.toDigits 10 b
  | none => ['-', '1']

theorem blockText_eq (block : Option BlockId) : blockText block = blockWord block ++ ['\n'] := by
  cases block <;> rfl

theorem token_blockWord (block : Option BlockId) : Token (blockWord block) := by
  cases block with
  | none => decide
  | some b => exact token_toDigits b

theorem isContent_blockWord (block : Option BlockId) : isContent (blockWord block) = true := by
  cases block with
  | none => rfl
  | some b =>
    obtain ⟨c, rest, digits, digit⟩ := (spells_toDigits b).leads
    rw [blockWord, digits]
    refine decide_eq_true fun comment => ?_
    subst comment
    cases digit

theorem blockLine_blockWord {block : Option BlockId}
    (small : ∀ b, block = some b → b < 0x8000000000000000) (number : Nat) :
    blockLine ⟨number, blockWord block⟩ = .ok block := by
  cases block with
  | none => rfl
  | some b =>
    have read : token (fun s => (integer s).toOption) number (blockWord (some b)) =
        .ok (Int.ofNat b) := by
      rw [token_ok, blockWord, integer_toDigits (small b rfl)]
      rfl
    exact bind_ok.mpr ⟨_, read, rfl⟩

theorem blocks_lines (lines : List Line) : blocks (lines.map .line) = lines.mapM blockLine := by
  induction lines with
  | nil => rfl
  | cons l lines ih =>
    rw [List.map_cons, blocks, ih, List.mapM_cons]

theorem readPartition_text (s : String) :
    readPartition (.text s) = (numberedLines s).mapM blockLine := by
  rw [readPartition, content_text, blocks_lines]

theorem numbered_blockText (p : Partition) (first : Nat) :
    numbered first (segments (· = '\n') (p.flatMap blockText)) =
      (p.zipIdx first).map fun e => ⟨e.2, blockWord e.1⟩ := by
  induction p generalizing first with
  | nil => rfl
  | cons block p ih =>
    have token := token_blockWord block
    have clean : ∀ c ∈ blockWord block, decide (c = '\n') = false := by
      intro c member
      refine decide_eq_false fun ends => ?_
      subst ends
      exact absurd (token.solid _ member) (by decide)
    rw [List.flatMap_cons, blockText_eq, List.append_assoc, List.singleton_append,
      segments_append clean (by decide), numbered_cons,
      trim_of_solid (fun c first => token.solid c (List.mem_of_head? first))
        (fun c last => token.solid c (List.mem_of_getLast? last)),
      if_pos (isContent_blockWord block), ih]
    rfl

theorem readPartition_blockWords (p : Partition) :
    readPartition (.text (writePartition p)) =
      (p.zipIdx 1).mapM fun e => blockLine ⟨e.2, blockWord e.1⟩ := by
  rw [readPartition_text, numberedLines, writePartition, String.toList_ofList, numbered_blockText,
    List.mapM_map]
  rfl

theorem readPartition_writePartition {p : Partition}
    (small : ∀ b, some b ∈ p → b < 0x8000000000000000) :
    readPartition (.text (writePartition p)) = .ok p := by
  have each : ∀ e ∈ p.zipIdx 1, blockLine ⟨e.2, blockWord e.1⟩ = .ok e.1 := fun e member =>
    blockLine_blockWord (fun b same => small b (same ▸ List.fst_mem_of_mem_zipIdx member)) e.2
  rw [readPartition_blockWords, mapM_eq_map each, List.zipIdx_map_fst]

end Hmetis
end Multilevel
