import Mathlib.Data.List.DropRight
import Multilevel.Proofs.Text.Words
import Multilevel.Text.Source

/-!
# Content lines

The content lines of a text are its lines without the blanks at their ends, as far as they say
something, each with the number that counts all lines (`content_text`). Carriage returns are blank,
so lines that end at line feeds have the same content as lines that may end at both characters
(`map_trim_lines`). What a reader meets up to some line does not depend on the lines behind it
(`content_take`).
-/
namespace Multilevel
namespace Text

variable {s : List Char}

/-! ### Ends of trimmed texts -/

theorem getLast?_trim (s : List Char) : ∀ c ∈ (trim s).getLast?, isBlank c = false := by
  intro c last
  have nonempty : trim s ≠ [] := List.ne_nil_of_mem (List.mem_of_getLast? last)
  have solid := List.rdropWhile_last_not isBlank (s.dropWhile isBlank) nonempty
  rw [List.getLast?_eq_some_getLast nonempty] at last
  obtain rfl := Option.some.inj last
  exact Bool.eq_false_iff.mpr solid

theorem head?_trim (s : List Char) : ∀ c ∈ (trim s).head?, isBlank c = false := by
  intro c first
  obtain ⟨rest, whole⟩ := List.rdropWhile_prefix isBlank (s.dropWhile isBlank)
  have front : (List.rdropWhile isBlank (s.dropWhile isBlank)).head? = some c := first
  have leads : (s.dropWhile isBlank).head? = some c := by
    rw [← whole, List.head?_append, front]
    rfl
  have solid := List.head?_dropWhile_not isBlank s
  rwa [leads] at solid

theorem trim_concat {c : Char} (blank : isBlank c = true) : trim (s ++ [c]) = trim s := by
  change List.rdropWhile isBlank ((s ++ [c]).dropWhile isBlank) = _
  rw [List.dropWhile_append]
  split
  · rename_i none
    have alone : [c].dropWhile isBlank = [] := List.dropWhile_cons_of_pos blank
    rw [alone, trim, List.isEmpty_iff.mp none]
    rfl
  · exact List.rdropWhile_concat_pos isBlank _ c blank

theorem eq_of_words {word : List Char} (first : ∀ c ∈ s.head?, isBlank c = false)
    (last : ∀ c ∈ s.getLast?, isBlank c = false) (one : words s = [word]) : s = word := by
  have nonempty : s ≠ [] := by
    rintro rfl
    cases one
  by_cases clean : ∀ c ∈ s, isBlank c = false
  · rw [words, segments_of_clean clean nonempty, List.filter_cons_of_pos (by simpa using nonempty)]
      at one
    exact (List.cons.inj one).1
  · push Not at clean
    obtain ⟨b, member, blank⟩ := clean
    replace blank : isBlank b = true := by simpa using blank
    obtain ⟨front, rest, rfl⟩ := List.append_of_mem member
    -- there is a word on either side of a blank
    have some (c : Char) (blankless : isBlank c = false) : c ≠ b := by
      rintro rfl
      exact absurd blank (by simp [blankless])
    have before : words front ≠ [] := by
      cases front with
      | nil => exact absurd rfl (some b (first b rfl))
      | cons c front => exact words_ne_nil List.mem_cons_self (first c rfl)
    have behind : words rest ≠ [] := by
      cases ends : rest.getLast? with
      | none =>
        obtain rfl := List.getLast?_eq_none_iff.mp ends
        exact absurd rfl (some b (last b List.getLast?_concat))
      | some c =>
        refine words_ne_nil (List.mem_of_getLast? ends) (last c ?_)
        rw [List.getLast?_append, List.getLast?_cons, ends]
        rfl
    rw [words_append_cons blank] at one
    have total := congrArg List.length one
    rw [List.length_append, List.length_singleton] at total
    have left := List.length_pos_iff.mpr before
    have right := List.length_pos_iff.mpr behind
    omega

/-! ### Two ways to end a line -/

/-- Lines that end at line feeds keep the carriage returns before them. -/
theorem lines_segments (s : List Char) : List.Forall₂
    (fun line part => part = line ∨ part = line ++ ['\r']) (lines s) (segments (· = '\n') s) := by
  fun_induction lines s with
  | case1 => exact .nil
  | case2 rest ih => exact .cons (.inl rfl) ih
  | case3 rest ih => exact .cons (.inr rfl) ih
  | case4 c rest feed ends none ih =>
    rw [none] at ih
    obtain rfl := segments_eq_nil.mp (List.forall₂_nil_left_iff.mp ih)
    rw [segments, if_neg (by simpa using feed)]
    exact .cons (.inl rfl) .nil
  | case5 c rest feed ends line others some ih =>
    rw [some] at ih
    obtain ⟨part, parts, first, behind, split⟩ := List.forall₂_cons_left_iff.mp ih
    rw [segments, if_neg (by simpa using feed), split]
    exact .cons (first.imp (congrArg _) (congrArg _)) behind

theorem map_trim_lines (s : List Char) :
    (lines s).map trim = (segments (· = '\n') s).map trim := by
  have each := lines_segments s
  generalize lines s = lines, segments (· = '\n') s = parts at each ⊢
  induction each with
  | nil => rfl
  | cons first _ ih =>
    rw [List.map_cons, List.map_cons, ih]
    rcases first with rfl | rfl
    · rfl
    · rw [trim_concat (by decide)]

end Text

namespace Source

open Text

/-! ### Numbers of lines -/

/-- The lines that say something, numbered from that of the first line on. -/
def numbered (first : Nat) (parts : List (List Char)) : List Line :=
  ((parts.map trim).zipIdx first).filterMap fun part =>
    if isContent part.1 then some ⟨part.2, part.1⟩ else none

def numberedLines (s : String) : List Line := numbered 1 (segments (· = '\n') s.toList)

theorem numbered_cons (first : Nat) (part : List Char) (parts : List (List Char)) :
    numbered first (part :: parts) = if isContent (trim part) then
      ⟨first, trim part⟩ :: numbered (first + 1) parts else numbered (first + 1) parts := by
  unfold numbered
  rw [List.map_cons, List.zipIdx_cons, List.filterMap_cons]
  cases isContent (trim part) <;> rfl

theorem contentAfter_append (number : Nat) (parts : List (List Char))
    (rest : List (Option (List Char))) :
    contentAfter number (parts.map some ++ rest) =
      (numbered (number + 1) parts).map .line ++ contentAfter (number + parts.length) rest := by
  induction parts generalizing number with
  | nil => rfl
  | cons part parts ih =>
    rw [List.map_cons, List.cons_append, contentAfter, ih, numbered_cons, List.length_cons,
      Nat.add_right_comm number 1 parts.length, Nat.add_assoc number parts.length]
    split <;> rfl

theorem contentAfter_text (number : Nat) (parts : List (List Char)) :
    contentAfter number (parts.map some) = (numbered (number + 1) parts).map .line := by
  have whole := contentAfter_append number parts []
  rwa [List.append_nil, contentAfter, List.append_nil] at whole

theorem content_text (s : String) : (Source.text s).content = (numberedLines s).map .line :=
  contentAfter_text 0 _

theorem of_mem_numbered {first : Nat} {parts : List (List Char)} {l : Line}
    (listed : l ∈ numbered first parts) : first ≤ l.number ∧ ∃ part,
      parts[l.number - first]? = some part ∧ l.content = trim part ∧
        isContent (trim part) = true := by
  obtain ⟨⟨content, number⟩, entry, kept⟩ := List.mem_filterMap.mp listed
  obtain ⟨above, read⟩ := List.mk_mem_zipIdx_iff_le_and_getElem?_sub.mp entry
  rw [List.getElem?_map] at read
  obtain ⟨part, placed, rfl⟩ := Option.map_eq_some_iff.mp read
  split at kept
  · rename_i solid
    obtain rfl := Option.some.inj kept
    exact ⟨above, part, placed, rfl, solid⟩
  · cases kept

theorem content_of_words {first : Nat} {parts : List (List Char)} {l : Line} {word : List Char}
    (listed : l ∈ numbered first parts) (one : l.words = [word]) : l.content = word := by
  obtain ⟨-, part, -, trimmed, -⟩ := of_mem_numbered listed
  rw [trimmed]
  refine eq_of_words (head?_trim part) (getLast?_trim part) ?_
  rw [← trimmed]
  exact one

theorem numbered_append (first : Nat) (parts others : List (List Char)) :
    numbered first (parts ++ others) =
      numbered first parts ++ numbered (first + parts.length) others := by
  rw [numbered, List.map_append, List.zipIdx_append, List.filterMap_append, List.length_map]
  rfl

/-- A source that begins with the lines of a text up to some content line has the same content up to
there, whatever stands behind. -/
theorem content_take {s : String} {before : List Line} {after : List Met} {l : Line} {other : Source}
    (met : (Source.text s).content = before.map .line ++ .line l :: after)
    (same : other.lines.take l.number = (Source.text s).lines.take l.number) :
    ∃ rest, other.content = before.map .line ++ .line l :: rest := by
  obtain ⟨later, split⟩ : ∃ later, numberedLines s = before ++ l :: later := by
    rw [content_text] at met
    obtain ⟨front, back, whole, left, right⟩ := List.map_eq_append_iff.mp met
    obtain ⟨first, later, rfl, own, -⟩ := List.map_eq_cons_iff.mp right
    obtain rfl := List.map_injective_iff.mpr (fun _ _ => Met.line.inj) left
    obtain rfl := Met.line.inj own
    exact ⟨later, whole⟩
  let parts := segments (· = '\n') s.toList
  have front : other.lines.take l.number = (parts.take l.number).map some := by
    rw [same, List.map_take]
    rfl
  have halves : numbered 1 (parts.take l.number) ++
      numbered (1 + (parts.take l.number).length) (parts.drop l.number) =
        before ++ l :: later := by
    rw [← numbered_append, List.take_append_drop]
    exact split
  have behind : l ∉ numbered (1 + (parts.take l.number).length) (parts.drop l.number) := by
    intro listed
    have above := (of_mem_numbered listed).1
    rcases Nat.lt_or_ge l.number parts.length with inside | outside
    · rw [List.length_take_of_le (Nat.le_of_lt inside)] at above
      omega
    · rw [List.drop_eq_nil_of_le outside] at listed
      cases listed
  obtain ⟨rest, known⟩ : ∃ rest, numbered 1 (parts.take l.number) = before ++ l :: rest := by
    rcases List.append_eq_append_iff.mp halves with ⟨more, -, rest⟩ | ⟨more, front, rest⟩
    · exact absurd (rest ▸ List.mem_append_right more List.mem_cons_self) behind
    · cases more with
      | nil =>
        rw [List.nil_append] at rest
        exact absurd (rest ▸ List.mem_cons_self) behind
      | cons first more =>
        obtain ⟨rfl, -⟩ := List.cons.inj rest
        exact ⟨more, front⟩
  refine ⟨rest.map .line ++
    contentAfter (parts.take l.number).length (other.lines.drop l.number), ?_⟩
  have whole := contentAfter_append 0 (parts.take l.number) (other.lines.drop l.number)
  rw [← front, List.take_append_drop, known] at whole
  rw [content, whole, Nat.zero_add, List.map_append, List.map_cons, List.append_assoc,
    List.cons_append]

end Source
end Multilevel
