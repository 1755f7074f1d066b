import Multilevel.Text.Integer
import Multilevel.Proofs.Results

namespace Multilevel.Text

/-- Digits, at least one, that stand for a number in base ten. -/
structure Spells (digits : List Char) (n : Nat) : Prop where
  nonempty : digits ≠ []
  digit : ∀ c ∈ digits, c.isDigit = true
  value : Nat.ofDigitChars 10 digits 0 = n

def LeadsWithDigit (s : List Char) : Prop := ∃ c rest, s = c :: rest ∧ c.isDigit = true

inductive Natural : List Char → Nat → Prop
  | bare {digits : List Char} {n : Nat} (spelled : Spells digits n) (fits : n < 0x10000000000000000) :
    Natural digits n
  | plus {digits : List Char} {n : Nat} (spelled : Spells digits n) (fits : n < 0x10000000000000000) :
    Natural ('+' :: digits) n

theorem Spells.leads {digits : List Char} {n : Nat} (spelled : Spells digits n) :
    LeadsWithDigit digits := by
  obtain ⟨c, rest, rfl⟩ := List.exists_cons_of_ne_nil spelled.nonempty
  exact ⟨c, rest, rfl, spelled.digit c List.mem_cons_self⟩

theorem le_ofDigitChars (digits : List Char) (value : Nat) :
    value ≤ Nat.ofDigitChars 10 digits value := by
  rw [Nat.ofDigitChars_eq_ofDigitChars_zero]
  have shifted : value * 1 ≤ value * 10 ^ digits.length :=
    Nat.mul_le_mul_left value (Nat.pow_pos (by decide))
  rw [Nat.mul_comm (10 ^ _)]
  omega

theorem digitsBelow_ok {bound value n : Nat} {digits : List Char} (small : value < bound) :
    digitsBelow bound value digits = .ok n ↔
      (∀ c ∈ digits, c.isDigit = true) ∧ Nat.ofDigitChars 10 digits value = n ∧ n < bound := by
  induction digits generalizing value with
  | nil =>
    rw [digitsBelow, Nat.ofDigitChars_nil, Except.ok.injEq]
    constructor
    · rintro rfl
      exact ⟨by simp, rfl, small⟩
    · rintro ⟨-, same, -⟩
      exact same
  | cons c rest ih =>
    rw [digitsBelow, Nat.ofDigitChars_cons, Nat.mul_comm 10 value, List.forall_mem_cons]
    by_cases digit : c.isDigit = true
    · rw [if_pos digit]
      dsimp only
      split
      · rename_i next
        rw [ih next]
        simp [digit]
      · rename_i large
        -- further digits only make the number larger
        have grown := le_ofDigitChars rest (value * 10 + (c.toNat - '0'.toNat))
        constructor
        · intro refused
          cases refused
        · rintro ⟨-, same, fits⟩
          omega
    · rw [if_neg digit]
      constructor
      · intro refused
        cases refused
      · rintro ⟨⟨isDigit, -⟩, -⟩
        exact absurd isDigit digit

theorem magnitude_ok {bound n : Nat} {digits : List Char} (positive : 0 < bound) :
    magnitude bound digits = .ok n ↔ Spells digits n ∧ n < bound := by
  unfold magnitude
  split
  · rename_i none
    constructor
    · intro refused
      cases refused
    · rintro ⟨spelled, -⟩
      exact absurd (List.isEmpty_iff.mp none) spelled.nonempty
  · rename_i some
    rw [digitsBelow_ok positive]
    constructor
    · rintro ⟨digit, value, fits⟩
      exact ⟨⟨fun none => some (List.isEmpty_iff.mpr none), digit, value⟩, fits⟩
    · rintro ⟨spelled, fits⟩
      exact ⟨spelled.digit, spelled.value, fits⟩

theorem natural_ok {s : List Char} {n : Nat} : natural s = .ok n ↔ Natural s n := by
  unfold natural
  split
  · rename_i digits
    rw [magnitude_ok (by decide)]
    constructor
    · rintro ⟨spelled, fits⟩
      exact .plus spelled fits
    · intro written
      cases written with
      | bare spelled fits => exact absurd (spelled.digit '+' List.mem_cons_self) (by decide)
      | plus spelled fits => exact ⟨spelled, fits⟩
  · rename_i signed
    rw [magnitude_ok (by decide)]
    constructor
    · rintro ⟨spelled, fits⟩
      exact .bare spelled fits
    · intro written
      cases written with
      | bare spelled fits => exact ⟨spelled, fits⟩
      | plus spelled fits => exact absurd rfl (signed _)

theorem Spells.append_zeros {digits : List Char} {n : Nat} (spelled : Spells digits n)
    (count : Nat) :
    Spells (digits ++ List.replicate count '0') (n * Nat.pow 10 count) where
  nonempty := by simp [spelled.nonempty]
  digit := by
    refine List.forall_mem_append.mpr ⟨spelled.digit, fun c member => ?_⟩
    rw [List.eq_of_mem_replicate member]
    rfl
  value := by
    rw [Nat.ofDigitChars_append, spelled.value, Nat.ofDigitChars_replicate_zero, Nat.mul_comm,
      Nat.pow_eq]

theorem Spells.zeros_append {digits : List Char} {n : Nat} (spelled : Spells digits n)
    (count : Nat) :
    Spells (List.replicate count '0' ++ digits) n where
  nonempty := by simp [spelled.nonempty]
  digit := by
    refine List.forall_mem_append.mpr ⟨fun c member => ?_, spelled.digit⟩
    rw [List.eq_of_mem_replicate member]
    rfl
  value := by
    rw [Nat.ofDigitChars_append, Nat.ofDigitChars_replicate_zero, Nat.mul_zero, spelled.value]

theorem spells_toDigits (n : Nat) : Spells (Nat.toDigits 10 n) n where
  nonempty := Nat.toDigits_ne_nil
  digit _ member := Nat.isDigit_of_mem_toDigits (by decide) (by decide) member
  value := Nat.ofDigitChars_ten_toDigits

end Multilevel.Text
