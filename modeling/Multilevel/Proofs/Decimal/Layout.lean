import Multilevel.Decimal.Layout
import Multilevel.Proofs.Decimal.Shortest
import Multilevel.Proofs.Text.Natural
import Multilevel.Proofs.Text.Words

namespace Multilevel.Decimal

open Text

/-! ### Decimals in texts -/

/-- What may follow the digits of a decimal, and the exponent it stands for. -/
structure Tail (tail : List Char) (e : Int) : Prop where
  value : exponent? tail = some e
  ends : ∀ c ∈ tail.head?, c.isDigit = false ∧ c ≠ '.'
  solid : ∀ c ∈ tail, isBlank c = false

/-- A text of a decimal without sign. -/
structure Writes (s : List Char) (v : ℚ) : Prop where
  first : LeadsWithDigit s
  solid : ∀ c ∈ s, isBlank c = false
  read : ∃ digits exponent, magnitude? s = some (nearest digits exponent) ∧
    decimal digits exponent = v

theorem splitDigits_append {digits rest : List Char} (digit : ∀ c ∈ digits, c.isDigit = true)
    (ends : ∀ c ∈ rest.head?, c.isDigit = false) :
    splitDigits (digits ++ rest) = (digits, rest) := by
  unfold splitDigits
  rw [List.takeWhile_append_of_pos digit, List.dropWhile_append_of_pos digit]
  cases rest with
  | nil => simp
  | cons c rest => simp [ends c rfl]

theorem splitFraction_tail {tail : List Char} {e : Int} (ends : Tail tail e) :
    splitFraction tail = ([], tail) := by
  unfold splitFraction
  split
  · exact absurd rfl (ends.ends '.' rfl).2
  · rfl

section
variable {whole fraction tail : List Char} {n : Nat} {e : Int}

theorem writes_whole (spelled : Spells whole n) (ends : Tail tail e) :
    Writes (whole ++ tail) (decimal n e) where
  first := by
    obtain ⟨c, rest, rfl, digit⟩ := spelled.leads
    exact ⟨c, rest ++ tail, rfl, digit⟩
  solid := List.forall_mem_append.mpr
    ⟨fun c member => isBlank_of_isDigit (spelled.digit c member), ends.solid⟩
  read := by
    refine ⟨n, e, ?_, rfl⟩
    unfold magnitude?
    rw [splitDigits_append spelled.digit fun c first => (ends.ends c first).1]
    dsimp only
    rw [splitFraction_tail ends]
    dsimp only
    rw [if_neg (by simp [spelled.nonempty]), ends.value, List.append_nil, spelled.value]
    simp

variable (whole fraction) in
theorem writes_point (some : whole ≠ []) (spelled : Spells (whole ++ fraction) n)
    (ends : Tail tail e) :
    Writes (whole ++ '.' :: (fraction ++ tail)) (decimal n (e - fraction.length)) where
  first := by
    obtain ⟨c, rest, rfl⟩ := List.exists_cons_of_ne_nil some
    exact ⟨c, _, rfl, spelled.digit c List.mem_cons_self⟩
  solid := by
    obtain ⟨left, right⟩ := List.forall_mem_append.mp spelled.digit
    refine List.forall_mem_append.mpr ⟨fun c member => isBlank_of_isDigit (left c member), ?_⟩
    refine List.forall_mem_cons.mpr ⟨by decide, List.forall_mem_append.mpr ⟨?_, ends.solid⟩⟩
    exact fun c member => isBlank_of_isDigit (right c member)
  read := by
    obtain ⟨left, right⟩ := List.forall_mem_append.mp spelled.digit
    refine ⟨n, e - fraction.length, ?_, rfl⟩
    unfold magnitude?
    rw [splitDigits_append left (by simp)]
    dsimp only
    rw [show splitFraction ('.' :: (fraction ++ tail)) = splitDigits (fraction ++ tail) from rfl,
      splitDigits_append right fun c first => (ends.ends c first).1]
    dsimp only
    rw [if_neg (by simp [some]), ends.value, spelled.value]
    rfl

end

theorem tail_nil : Tail [] 0 := ⟨rfl, nofun, nofun⟩

/-! ### Layouts -/

section
variable (l : Layout)

theorem splitSign_of_digit {s : List Char} (first : LeadsWithDigit s) :
    splitSign s = (false, s) := by
  obtain ⟨c, rest, rfl, digit⟩ := first
  unfold splitSign
  split
  · rename_i minus
    cases minus
    cases digit
  · rename_i plus
    cases plus
    cases digit
  · rfl

theorem exponent?_digits {c : Char} {digits s : List Char} {negative : Bool} {n : Nat}
    (marks : c = 'e' ∨ c = 'E') (signed : splitSign s = (negative, digits))
    (spelled : Spells digits n) :
    exponent? (c :: s) = some (if negative then -(n : Int) else n) := by
  unfold exponent?
  dsimp only
  rw [if_pos marks, signed]
  dsimp only
  have digit : digits.all Char.isDigit = true := List.all_eq_true.mpr spelled.digit
  rw [if_neg (by simp [spelled.nonempty, digit]), spelled.value]

theorem tail_exponentText (e : Int) : Tail ('e' :: l.exponentText e) e where
  value := by
    have spelled := spells_toDigits e.natAbs
    unfold Layout.exponentText
    split
    · rw [exponent?_digits (s := '-' :: _) (.inl rfl) rfl spelled, if_pos rfl]
      congr 1
      omega
    · have same : (e.natAbs : Int) = e := by omega
      split
      · rw [exponent?_digits (s := '+' :: _) (.inl rfl) rfl spelled, if_neg Bool.false_ne_true,
          same]
      · rw [exponent?_digits (.inl rfl) (splitSign_of_digit spelled.leads) spelled,
          if_neg Bool.false_ne_true, same]
  ends := by
    rintro _ ⟨⟩
    decide
  solid := by
    have digits : ∀ c ∈ Nat.toDigits 10 e.natAbs, isBlank c = false := fun c member =>
      isBlank_of_isDigit ((spells_toDigits _).digit c member)
    refine List.forall_mem_cons.mpr ⟨by decide, ?_⟩
    unfold Layout.exponentText
    split
    · exact List.forall_mem_cons.mpr ⟨by decide, digits⟩
    · split
      · exact List.forall_mem_cons.mpr ⟨by decide, digits⟩
      · exact digits

variable {digits : List Char} {n : Nat}

theorem writes_positionalText (spelled : Spells digits n) (lead : Int) :
    Writes (l.positionalText digits lead) (decimal n (lead + 1 - digits.length)) := by
  unfold Layout.positionalText
  dsimp only
  split
  · -- zeros between the point and the digits
    rename_i small
    have written := writes_point ['0'] (List.replicate (-lead - 1).toNat '0' ++ digits)
      (List.cons_ne_nil _ _) (spelled.zeros_append ((-lead - 1).toNat + 1)) tail_nil
    rw [List.append_nil, List.length_append, List.length_replicate] at written
    have places : lead + 1 - digits.length = 0 - ((-lead - 1).toNat + digits.length : Nat) := by
      omega
    rw [places]
    exact written
  · split
    · -- the point between the digits
      rename_i inside
      have some : digits.take (lead.toNat + 1) ≠ [] := by simp [spelled.nonempty]
      have written := writes_point _ (digits.drop (lead.toNat + 1)) some
        (by rwa [List.take_append_drop]) tail_nil
      rw [List.append_nil, List.length_drop] at written
      have places : lead + 1 - digits.length = 0 - (digits.length - (lead.toNat + 1) : Nat) := by
        omega
      rw [places]
      exact written
    · -- zeros after the digits
      rename_i beyond
      have padded := spelled.append_zeros (lead.toNat + 1 - digits.length)
      have places : lead + 1 - digits.length = (lead.toNat + 1 - digits.length : Nat) := by omega
      rw [places]
      split
      · have written := writes_point _ _ padded.nonempty (padded.append_zeros 1) tail_nil
        rw [decimal_zeros, decimal_zeros] at written
        have last : 0 - ((List.replicate 1 '0').length : Int) + (1 : Nat) = 0 := rfl
        rwa [last, Int.zero_add] at written
      · have written := writes_whole padded tail_nil
        rwa [decimal_zeros, Int.zero_add] at written

theorem writes_scientificText (spelled : Spells digits n) (lead : Int) :
    Writes (l.scientificText digits lead) (decimal n (lead + 1 - digits.length)) := by
  obtain ⟨first, rest, rfl⟩ := List.exists_cons_of_ne_nil spelled.nonempty
  have ends := tail_exponentText l lead
  unfold Layout.scientificText
  split
  · rename_i single
    obtain rfl : rest = [] := by simpa using single
    have written := writes_whole spelled ends
    rw [show lead + 1 - [first].length = lead from Int.add_sub_cancel lead 1]
    exact written
  · have written := writes_point [first] rest (List.cons_ne_nil _ _) spelled ends
    have places : lead + 1 - (first :: rest).length = lead - rest.length := by
      rw [List.length_cons]
      omega
    rw [places]
    exact written

theorem writes_digitsText (d : Digits) :
    Writes (l.digitsText d) (decimal d.digits d.exponent) := by
  have spelled := spells_toDigits d.digits
  unfold Layout.digitsText
  dsimp only
  have places : d.exponent = d.exponent + (Nat.toDigits 10 d.digits).length - 1 + 1 -
      (Nat.toDigits 10 d.digits).length := by omega
  split
  · have written := writes_positionalText l spelled
      (d.exponent + (Nat.toDigits 10 d.digits).length - 1)
    rwa [← places] at written
  · have written := writes_scientificText l spelled
      (d.exponent + (Nat.toDigits 10 d.digits).length - 1)
    rwa [← places] at written

end

/-! ### Numbers -/

theorem ofList_lower_ne {c first : Char} {rest others : List Char} (digit : c.isDigit = true)
    (letter : first.isDigit = false) :
    String.ofList ((c :: rest).map Char.toLower) ≠ String.ofList (first :: others) := by
  intro same
  have lower : c.toLower = c := by
    have bounds := bounds_of_isDigit digit
    unfold Char.toLower
    rw [dif_neg]
    simp [UInt32.le_iff_toNat_le]
    omega
  rw [String.ofList_inj, List.map_cons, lower] at same
  obtain ⟨rfl, -⟩ := List.cons.inj same
  exact absurd digit (by simp [letter])

theorem unsigned?_of_digit {s : List Char} (first : LeadsWithDigit s) :
    unsigned? s = magnitude? s := by
  obtain ⟨c, rest, rfl, digit⟩ := first
  unfold unsigned?
  dsimp only
  have letters : 'n'.isDigit = false ∧ 'i'.isDigit = false := by decide
  rw [if_neg (ofList_lower_ne digit letters.1), if_neg]
  rintro (same | same)
  · exact ofList_lower_ne digit letters.2 same
  · exact ofList_lower_ne digit letters.2 same

section
variable (l : Layout) {x : Float} {b : Binary}

theorem toModel_nearest_shortest (fits : 0 < b.mantissa → b.Fits) {tie : Tie} {digits : Nat}
    {exponent : Int} (value : decimal digits exponent =
      decimal (b.shortest tie).digits (b.shortest tie).exponent) :
    (nearest digits exponent).toModel = Float.Model.pack (Parts.finite false b).unpacked := by
  rw [Parts.unpacked]
  by_cases positive : 0 < b.mantissa
  · rw [dif_pos positive]
    refine toModel_nearest (fits positive) ?_
    rw [value]
    exact Binary.attracts_shortest positive tie
  · rw [dif_neg positive]
    obtain rfl : digits = 0 := by
      have none : b.mantissa = 0 := by omega
      rw [Binary.shortest, if_pos none, decimal, decimal, Nat.cast_zero, zero_mul] at value
      exact_mod_cast (mul_eq_zero.mp value).resolve_right (by positivity)
    exact toModel_nearest_zero exponent

theorem read_magnitude (fits : 0 < b.mantissa → b.Fits) :
    ∃ y, unsigned? (l.digitsText (b.shortest l.tie)) = some y ∧
      y.toModel = Float.Model.pack (Parts.finite false b).unpacked := by
  have written := writes_digitsText l (b.shortest l.tie)
  obtain ⟨digits, exponent, read, value⟩ := written.read
  exact ⟨nearest digits exponent, (unsigned?_of_digit written.first).trans read,
    toModel_nearest_shortest fits value⟩

theorem read_infinite : ∀ negative : Bool, read? (Layout.text.signed negative ['i', 'n', 'f']) =
    some (Float.ofModel (Float.Model.pack (Parts.infinite negative).unpacked)) := by
  decide +kernel

/-- What a layout writes for a number is read as the number. -/
theorem read_text (number : x.isNaN = false) : read? (l.text x) = some x := by
  have packed := pack_parts (parts_number number)
  cases is : parts x with
  | notANumber => exact absurd is (parts_number number)
  | infinite negative =>
    rw [is] at packed
    have same := congrArg Float.ofModel packed
    unfold Layout.text
    rw [is]
    exact (read_infinite negative).trans (congrArg some same)
  | finite negative b =>
    rw [is] at packed
    obtain ⟨y, read, value⟩ := read_magnitude l (fits_of_parts is)
    unfold Layout.text
    rw [is]
    cases negative with
    | false =>
      have same : y = x := congrArg Float.ofModel (value.trans packed)
      have first := (writes_digitsText l (b.shortest l.tie)).first
      show read? (l.digitsText (b.shortest l.tie)) = some x
      unfold read?
      rw [splitSign_of_digit first]
      dsimp only
      rw [read, same]
      rfl
    | true =>
      have negated := toModel_neg (fits_of_parts is) value
      have same : -y = x := congrArg Float.ofModel (negated.trans packed)
      show (unsigned? (l.digitsText (b.shortest l.tie))).map (-·) = some x
      rw [read, Option.map_some, same]

/-- What is written is a word, and only a sign or a letter can stand before its digits. -/
theorem token_text (x : Float) : Token (l.text x) := by
  unfold Layout.text
  cases parts x with
  | notANumber => exact (by decide : Token ['N', 'a', 'N'])
  | infinite negative =>
    revert negative
    exact (by decide : ∀ negative, Token (Layout.text.signed negative ['i', 'n', 'f']))
  | finite negative b =>
    have written := writes_digitsText l (b.shortest l.tie)
    obtain ⟨c, rest, is, -⟩ := written.first
    cases negative with
    | false => exact ⟨fun none => List.cons_ne_nil c rest (is.symm.trans none), written.solid⟩
    | true => exact ⟨List.cons_ne_nil _ _, List.forall_mem_cons.mpr ⟨by decide, written.solid⟩⟩

theorem head?_text (x : Float) :
    ∀ c ∈ (l.text x).head?, c.isDigit = true ∨ c ∈ ['-', 'N', 'i'] := by
  unfold Layout.text
  cases parts x with
  | notANumber => simp
  | infinite negative => cases negative <;> simp [Layout.text.signed]
  | finite negative b =>
    obtain ⟨c, rest, is, digit⟩ := (writes_digitsText l (b.shortest l.tie)).first
    cases negative with
    | false => simp [Layout.text.signed, is, digit]
    | true => simp [Layout.text.signed]

end

end Multilevel.Decimal
