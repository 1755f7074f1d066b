import Multilevel.Proofs.Text.Natural
import Multilevel.Text.Blank

namespace Multilevel.Text

/-! ### Segments -/

section
variable {β : Type} {isSeparator : β → Bool} {part : List β}

theorem segments_append {c : β} {rest : List β} (clean : ∀ d ∈ part, isSeparator d = false)
    (separates : isSeparator c = true) :
    segments isSeparator (part ++ c :: rest) = part :: segments isSeparator rest := by
  induction part with
  | nil => rw [List.nil_append, segments, if_pos separates]
  | cons d part ih =>
    obtain ⟨first, others⟩ := List.forall_mem_cons.mp clean
    rw [List.cons_append, segments, if_neg (by simp [first]), ih others]

theorem segments_of_clean (clean : ∀ d ∈ part, isSeparator d = false) (some : part ≠ []) :
    segments isSeparator part = [part] := by
  induction part with
  | nil => exact absurd rfl some
  | cons d part ih =>
    obtain ⟨first, others⟩ := List.forall_mem_cons.mp clean
    rw [segments, if_neg (by simp [first])]
    cases part with
    | nil => rfl
    | cons e part => rw [ih others (List.cons_ne_nil e part)]

theorem segments_eq_nil {s : List β} : segments isSeparator s = [] ↔ s = [] := by
  cases s with
  | nil => simp [segments]
  | cons c rest =>
    rw [segments]
    split
    · simp
    · split <;> simp

/-- A separator stands between the parts on either side of it, and perhaps behind an empty one. -/
theorem segments_append_cons {c : β} (separates : isSeparator c = true) (front rest : List β) :
    ∃ gap : List (List β), (∀ part ∈ gap, part = []) ∧ segments isSeparator (front ++ c :: rest) =
      segments isSeparator front ++ (gap ++ segments isSeparator rest) := by
  have alone : segments isSeparator (c :: rest) = [] :: segments isSeparator rest := by
    rw [segments, if_pos separates]
  induction front with
  | nil => exact ⟨[[]], by simp, alone⟩
  | cons d front ih =>
    obtain ⟨gap, empty, split⟩ := ih
    rw [List.cons_append, segments, segments]
    by_cases ends : isSeparator d = true
    · rw [if_pos ends, if_pos ends, split]
      exact ⟨gap, empty, rfl⟩
    · rw [if_neg ends, if_neg ends]
      cases front with
      | nil => exact ⟨[], nofun, by rw [List.nil_append, alone]; rfl⟩
      | cons e front =>
        obtain ⟨part, parts, some⟩ := List.exists_cons_of_ne_nil
          (mt segments_eq_nil.mp (List.cons_ne_nil e front))
        rw [split, some]
        exact ⟨gap, empty, rfl⟩

theorem flatten_segments (s : List β) :
    (segments isSeparator s).flatten = s.filter (!isSeparator ·) := by
  induction s with
  | nil => rfl
  | cons c rest ih =>
    rw [segments]
    by_cases separates : isSeparator c = true
    · rw [if_pos separates, List.filter_cons_of_neg (by simp [separates]), ← ih]
      rfl
    · rw [if_neg separates, List.filter_cons_of_pos (by simp [separates]), ← ih]
      cases segments isSeparator rest <;> rfl

theorem getLast?_segments {s : List β} (last : (segments isSeparator s).getLast? = some []) :
    ∃ c, s.getLast? = some c ∧ isSeparator c = true := by
  induction s with
  | nil => cases last
  | cons c rest ih =>
    have later (some : segments isSeparator rest ≠ [])
        (last : (segments isSeparator rest).getLast? = .some []) :
        ∃ d, (c :: rest).getLast? = .some d ∧ isSeparator d = true := by
      obtain ⟨d, ends, separates⟩ := ih last
      have nonempty : rest ≠ [] := mt segments_eq_nil.mpr some
      exact ⟨d, by rw [List.getLast?_cons_of_ne_nil nonempty, ends], separates⟩
    rw [segments] at last
    split at last
    · rename_i separates
      cases parts : segments isSeparator rest with
      | nil =>
        obtain rfl := segments_eq_nil.mp parts
        exact ⟨c, rfl, separates⟩
      | cons part more =>
        rw [parts, List.getLast?_cons_cons, ← parts] at last
        exact later (by simp [parts]) last
    · split at last
      · cases last
      · rename_i part more parts
        cases more with
        | nil => cases last
        | cons next more =>
          rw [List.getLast?_cons_cons] at last
          exact later (by simp [parts]) (by rw [parts, List.getLast?_cons_cons, last])

end

/-! ### Words -/

/-- At least one character, and none that is blank. -/
structure Token (word : List Char) : Prop where
  nonempty : word ≠ []
  solid : ∀ c ∈ word, isBlank c = false

instance (word : List Char) : Decidable (Token word) :=
  decidable_of_iff (word ≠ [] ∧ word.all (!isBlank ·) = true)
    ⟨fun ⟨nonempty, solid⟩ => ⟨nonempty, by simpa using solid⟩,
      fun token => ⟨token.nonempty, by simpa using token.solid⟩⟩

theorem bounds_of_isDigit {c : Char} (digit : c.isDigit = true) : 48 ≤ c.toNat ∧ c.toNat ≤ 57 := by
  simpa [Char.isDigit, Char.le_def, UInt32.le_iff_toNat_le] using digit

theorem isBlank_of_isDigit {c : Char} (digit : c.isDigit = true) : isBlank c = false := by
  have bounds := bounds_of_isDigit digit
  unfold isBlank
  simp only [Bool.or_eq_false_iff, Bool.and_eq_false_iff, decide_eq_false_iff_not]
  omega

theorem token_toDigits (n : Nat) : Token (Nat.toDigits 10 n) where
  nonempty := (spells_toDigits n).nonempty
  solid c member := isBlank_of_isDigit ((spells_toDigits n).digit c member)

variable {tokens : List (List Char)}

theorem words_intercalate (each : ∀ word ∈ tokens, Token word) :
    words ([' '].intercalate tokens) = tokens := by
  induction tokens with
  | nil => rfl
  | cons word others ih =>
    obtain ⟨first, rest⟩ := List.forall_mem_cons.mp each
    have kept : (!word.isEmpty) = true := by simp [first.nonempty]
    cases others with
    | nil =>
      rw [List.intercalate_singleton, words, segments_of_clean first.solid first.nonempty]
      exact List.filter_cons_of_pos kept
    | cons next others =>
      rw [List.intercalate_cons_cons, words, List.append_assoc, List.singleton_append,
        segments_append first.solid (by decide)]
      rw [List.filter_cons, if_pos kept]
      exact congrArg (word :: ·) (ih rest)

/-- A blank parts the words before it from those behind it. -/
theorem words_append_cons {c : Char} (blank : isBlank c = true) (front rest : List Char) :
    words (front ++ c :: rest) = words front ++ words rest := by
  obtain ⟨gap, empty, split⟩ := segments_append_cons blank front rest
  have none : gap.filter (!·.isEmpty) = [] :=
    List.filter_eq_nil_iff.mpr fun part member => by simp [empty part member]
  rw [words, split, List.filter_append, List.filter_append, none]
  rfl

theorem mem_intercalate {c : Char} (member : c ∈ [' '].intercalate tokens) :
    c = ' ' ∨ ∃ word ∈ tokens, c ∈ word := by
  induction tokens with
  | nil => cases member
  | cons word others ih =>
    cases others with
    | nil => exact .inr ⟨word, List.mem_singleton_self word, by simpa using member⟩
    | cons next others =>
      simp only [List.intercalate_cons_cons, List.mem_append, List.mem_singleton] at member
      rcases member with (inside | blank) | later
      · exact .inr ⟨word, List.mem_cons_self, inside⟩
      · exact .inl blank
      · rcases ih later with blank | ⟨other, listed, inside⟩
        · exact .inl blank
        · exact .inr ⟨other, List.mem_cons_of_mem _ listed, inside⟩

theorem words_ne_nil {s : List Char} {c : Char} (member : c ∈ s) (solid : isBlank c = false) :
    words s ≠ [] := by
  intro none
  have kept : c ∈ (segments isBlank s).flatten := by
    rw [flatten_segments]
    exact List.mem_filter.mpr ⟨member, by simp [solid]⟩
  obtain ⟨part, listed, inside⟩ := List.mem_flatten.mp kept
  have empty := List.filter_eq_nil_iff.mp none part listed
  exact absurd (List.ne_nil_of_mem inside) (by simpa using empty)

/-! ### Trimming -/

/-- A text that is not blank ends with something else once it is trimmed. -/
theorem exists_solid_of_trim {s : List Char} (some : trim s ≠ []) :
    ∃ c ∈ trim s, isBlank c = false := by
  have nonempty : (s.dropWhile isBlank).reverse.dropWhile isBlank ≠ [] :=
    fun none => some (List.reverse_eq_nil_iff.mpr none)
  refine ⟨((s.dropWhile isBlank).reverse.dropWhile isBlank).head nonempty,
    List.mem_reverse.mpr (List.head_mem _), ?_⟩
  exact List.head_dropWhile_not isBlank nonempty

theorem trim_of_solid {s : List Char} (first : ∀ c ∈ s.head?, isBlank c = false)
    (last : ∀ c ∈ s.getLast?, isBlank c = false) : trim s = s := by
  have front : s.dropWhile isBlank = s := by
    cases s with
    | nil => rfl
    | cons c s => exact List.dropWhile_cons_of_neg (by simp [first c rfl])
  have back : s.reverse.dropWhile isBlank = s.reverse := by
    cases turned : s.reverse with
    | nil => rfl
    | cons c r =>
      refine List.dropWhile_cons_of_neg ?_
      have ends : s.getLast? = some c := by rw [← List.head?_reverse, turned]; rfl
      simp [last c ends]
  rw [trim, front, back, List.reverse_reverse]

theorem head?_intercalate {word : List Char} (some : word ≠ []) (others : List (List Char)) :
    ([' '].intercalate (word :: others)).head? = word.head? := by
  obtain ⟨c, rest, rfl⟩ := List.exists_cons_of_ne_nil some
  cases others with
  | nil => rw [List.intercalate_singleton]
  | cons => rw [List.intercalate_cons_cons]; rfl

theorem getLast?_intercalate (each : ∀ word ∈ tokens, Token word) :
    ∀ c ∈ ([' '].intercalate tokens).getLast?, isBlank c = false := by
  induction tokens with
  | nil => nofun
  | cons word others ih =>
    obtain ⟨first, rest⟩ := List.forall_mem_cons.mp each
    cases others with
    | nil =>
      intro c last
      rw [List.intercalate_singleton] at last
      exact first.solid c (List.mem_of_getLast? last)
    | cons next others =>
      have some : [' '].intercalate (next :: others) ≠ [] := by
        intro none
        have head := head?_intercalate (rest next List.mem_cons_self).nonempty others
        rw [none] at head
        exact (rest next List.mem_cons_self).nonempty (List.head?_eq_none_iff.mp head.symm)
      intro c last
      rw [List.intercalate_cons_cons, List.getLast?_append] at last
      cases later : ([' '].intercalate (next :: others)).getLast? with
      | none => exact absurd (List.getLast?_eq_none_iff.mp later) some
      | some d =>
        rw [later] at last
        exact ih rest c (later.trans last)

theorem trim_intercalate (each : ∀ word ∈ tokens, Token word) :
    trim ([' '].intercalate tokens) = [' '].intercalate tokens := by
  refine trim_of_solid (fun c first => ?_) (getLast?_intercalate each)
  cases tokens with
  | nil => cases first
  | cons word others =>
    obtain ⟨token, -⟩ := List.forall_mem_cons.mp each
    rw [head?_intercalate token.nonempty] at first
    exact token.solid c (List.mem_of_head? first)

end Multilevel.Text
