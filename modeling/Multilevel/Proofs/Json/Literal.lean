import Multilevel.Json.Token
import Multilevel.Json.Writer
import Multilevel.Proofs.Decimal.Layout

/-!
# Literals of numbers

A JSON number is written in parts: whole digits, of which the first is a zero only if it stands
alone, a fraction and an exponent. The reader takes such a literal off the front of every text that
cannot carry it on. Naturals and the magnitudes of numbers are written as literals, and the literal
of a magnitude means the decimal that was chosen for it.
-/
namespace Multilevel.Json

open Text (LeadsWithDigit Spells spells_toDigits)
open Decimal (Digits decimal)

/-- A text that cannot carry on a number in front of it. -/
def Stops (rest : List Char) : Prop :=
  ∀ c ∈ rest.head?, c.isDigit = false ∧ c ≠ '.' ∧ c ≠ 'e' ∧ c ≠ 'E'

/-- A part of a literal with its mark; no mark stands alone. -/
def marked (mark : Char) : List Char → List Char
  | [] => []
  | c :: rest => mark :: c :: rest

/-- A decimal without sign, in the parts in which it is written. -/
structure Literal where
  whole : List Char
  fraction : List Char
  exponent : Option Int
  digit : ∀ c ∈ whole ++ fraction, c.isDigit = true
  nonempty : whole ≠ []
  leading : whole.head? = some '0' → whole.length = 1

namespace Literal

def exponentText (l : Literal) : List Char :=
  match l.exponent with
  | none => []
  | some e => 'e' :: Decimal.json.exponentText e

def text (l : Literal) : List Char := l.whole ++ (marked '.' l.fraction ++ l.exponentText)

/-- The number that the digits spell, the point passed over. -/
def significand (l : Literal) : Nat := Nat.ofDigitChars 10 (l.whole ++ l.fraction) 0

def scale (l : Literal) : Int := l.exponent.getD 0 - l.fraction.length

def value (l : Literal) : ℚ := decimal l.significand l.scale

theorem wholeDigit (l : Literal) : ∀ c ∈ l.whole, c.isDigit = true :=
  (List.forall_mem_append.mp l.digit).1

theorem fractionDigit (l : Literal) : ∀ c ∈ l.fraction, c.isDigit = true :=
  (List.forall_mem_append.mp l.digit).2

theorem leads (l : Literal) : LeadsWithDigit l.text := by
  obtain ⟨c, rest, is⟩ := List.exists_cons_of_ne_nil l.nonempty
  refine ⟨c, rest ++ (marked '.' l.fraction ++ l.exponentText), ?_, ?_⟩
  · rw [text, is, List.cons_append]
  · exact l.wholeDigit c (is ▸ List.mem_cons_self)

end Literal

/-! ### Reading -/

namespace Token

theorem digits?_append {digits rest : List Char} (nonempty : digits ≠ [])
    (digit : ∀ c ∈ digits, c.isDigit = true) (ends : ∀ c ∈ rest.head?, c.isDigit = false) :
    digits? (digits ++ rest) = some (digits, rest) := by
  obtain ⟨taken, left⟩ := Prod.mk.inj (Decimal.splitDigits_append digit ends)
  rw [digits?, taken, left]
  simp [nonempty]

theorem fraction?_append {digits rest : List Char} (digit : ∀ c ∈ digits, c.isDigit = true)
    (ends : ∀ c ∈ rest.head?, c.isDigit = false ∧ c ≠ '.') :
    fraction? (marked '.' digits ++ rest) = some (marked '.' digits, rest) := by
  cases digits with
  | nil =>
    show fraction? rest = some ([], rest)
    unfold fraction?
    split
    · exact absurd rfl (ends '.' rfl).2
    · rfl
  | cons c digits =>
    have taken := digits?_append (List.cons_ne_nil c digits) digit fun d first => (ends d first).1
    show fraction? ('.' :: (c :: digits ++ rest)) = _
    rw [fraction?, taken]
    rfl

theorem exponent?_signed {sign : Char} (is : sign = '-' ∨ sign = '+') (s : List Char) :
    exponent? ('e' :: sign :: s) =
      (digits? s).map fun read => ('e' :: sign :: read.1, read.2) := by
  rcases is with rfl | rfl
  all_goals
    show (digits? s).bind _ = _
    cases digits? s <;> rfl

theorem exponent?_append (l : Literal) {rest : List Char} (stops : Stops rest) :
    exponent? (l.exponentText ++ rest) = some (l.exponentText, rest) := by
  unfold Literal.exponentText
  cases l.exponent with
  | none =>
    cases rest with
    | nil => rfl
    | cons c rest =>
      obtain ⟨-, -, small, large⟩ := stops c rfl
      exact if_neg (by simp [small, large])
  | some e =>
    have spelled := spells_toDigits e.natAbs
    have taken := digits?_append spelled.nonempty spelled.digit fun c first => (stops c first).1
    dsimp only
    unfold Decimal.Layout.exponentText
    split
    · rw [List.cons_append, List.cons_append, exponent?_signed (.inl rfl), taken]
      rfl
    · rw [if_pos (by rfl), List.cons_append, List.cons_append,
        exponent?_signed (.inr rfl), taken]
      rfl

theorem whole?_append (l : Literal) {rest : List Char}
    (ends : ∀ c ∈ rest.head?, c.isDigit = false) :
    whole? (l.whole ++ rest) = some (l.whole, rest) := by
  have alone : ¬(l.whole.head? = some '0' ∧ l.whole.length ≠ 1) :=
    fun ⟨zero, long⟩ => long (l.leading zero)
  simp [whole?, digits?_append l.nonempty l.wholeDigit ends, alone]

theorem ends_exponentText (l : Literal) {rest : List Char} (stops : Stops rest) :
    ∀ c ∈ (l.exponentText ++ rest).head?, c.isDigit = false ∧ c ≠ '.' := by
  unfold Literal.exponentText
  cases l.exponent with
  | none => exact fun c first => ⟨(stops c first).1, (stops c first).2.1⟩
  | some e =>
    rintro _ ⟨⟩
    decide

theorem ends_fraction (digits : List Char) {rest : List Char}
    (ends : ∀ c ∈ rest.head?, c.isDigit = false) :
    ∀ c ∈ (marked '.' digits ++ rest).head?, c.isDigit = false := by
  cases digits with
  | nil => exact ends
  | cons d digits =>
    rintro _ ⟨⟩
    rfl

/-- A literal with or without a sign is taken off the front of a text that cannot carry it on. -/
theorem number?_append (l : Literal) (negative : Bool) {rest : List Char} (stops : Stops rest) :
    number? (Decimal.Layout.text.signed negative l.text ++ rest) =
      some (Decimal.Layout.text.signed negative l.text, rest) := by
  have ends := ends_exponentText l stops
  have whole := whole?_append l (ends_fraction l.fraction fun c first => (ends c first).1)
  have fraction := fraction?_append l.fractionDigit ends
  have exponent := exponent?_append l stops
  unfold number?
  split
  rename_i sign s split
  -- a literal without a sign begins with a digit, so none is split off
  have taken : sign = (if negative then ['-'] else []) ∧ s = l.text ++ rest := by
    cases negative with
    | true =>
      obtain ⟨rfl, rfl⟩ := Prod.mk.inj split
      exact ⟨rfl, rfl⟩
    | false =>
      split at split
      · rename_i minus
        obtain ⟨c, others, is, digit⟩ := l.leads
        rw [show Decimal.Layout.text.signed false l.text = c :: others from is] at minus
        obtain ⟨rfl, -⟩ := List.cons.inj minus
        cases digit
      · obtain ⟨rfl, rfl⟩ := Prod.mk.inj split
        exact ⟨rfl, rfl⟩
  obtain ⟨rfl, rfl⟩ := taken
  rw [Literal.text, List.append_assoc, List.append_assoc, whole]
  cases negative <;> simp [fraction, exponent, Decimal.Layout.text.signed]

end Token

/-! ### Writing -/

theorem head?_toDigits {n : Nat} (positive : 0 < n) : (Nat.toDigits 10 n).head? ≠ some '0' := by
  induction n using Nat.strong_induction_on with
  | _ n ih =>
    by_cases small : n < 10
    · rw [Nat.toDigits_of_lt_base small]
      revert positive
      exact (by decide : ∀ d < 10, 0 < d → [Nat.digitChar d].head? ≠ some '0') n small
    · have more : Nat.toDigits 10 (n / 10) ≠ [] := Nat.toDigits_ne_nil
      rw [Nat.toDigits_of_base_le (by decide) (by omega), List.head?_append_of_ne_nil _ more]
      exact ih (n / 10) (by omega) (by omega)

namespace Literal

def ofNat (n : Nat) : Literal where
  whole := Nat.toDigits 10 n
  fraction := []
  exponent := none
  digit := by
    rw [List.append_nil]
    exact (spells_toDigits n).digit
  nonempty := Nat.toDigits_ne_nil
  leading zero := by
    obtain rfl : n = 0 := by
      by_contra some
      exact head?_toDigits (Nat.pos_of_ne_zero some) zero
    rfl

theorem text_ofNat (n : Nat) : (ofNat n).text = Nat.toDigits 10 n := List.append_nil _

/-- The literal of a decimal: one that stands for it, and that is none of an integer. -/
structure Writes (l : Literal) (d : Digits) : Prop where
  text : l.text = Decimal.json.digitsText d
  real : l.fraction ≠ [] ∨ l.exponent ≠ none
  narrow : l.whole.length ≤ 16
  lead : ∀ e ∈ l.exponent, e = d.exponent + (Nat.toDigits 10 d.digits).length - 1
  /-- A whole number is written out, and shows a zero behind the point. -/
  places : l.significand = d.digits ∧ l.scale = d.exponent ∨
    0 ≤ d.exponent ∧ l.significand = d.digits * 10 ^ (d.exponent.toNat + 1) ∧ l.scale = -1

theorem Writes.value {l : Literal} {d : Digits} (writes : l.Writes d) :
    l.value = decimal d.digits d.exponent := by
  rcases writes.places with ⟨digits, scale⟩ | ⟨whole, digits, scale⟩
  · rw [Literal.value, digits, scale]
  · rw [Literal.value, digits, scale, ← Nat.pow_eq, Decimal.decimal_zeros]
    congr 1
    omega

theorem marked_of_ne_nil {mark : Char} {part : List Char} (some : part ≠ []) :
    marked mark part = mark :: part := by
  obtain ⟨c, rest, rfl⟩ := List.exists_cons_of_ne_nil some
  rfl

section
variable {digits : List Char} {n : Nat} (spelled : Spells digits n)
include spelled

theorem exists_below (zeros : Nat) : ∃ l : Literal,
    l.text = ['0', '.'] ++ List.replicate zeros '0' ++ digits ∧ l.exponent = none ∧
      l.fraction ≠ [] ∧ l.whole.length = 1 ∧ l.significand = n ∧
      l.scale = -(zeros + digits.length : Nat) := by
  have padded := spelled.zeros_append (zeros + 1)
  have some : List.replicate zeros '0' ++ digits ≠ [] := by simp [spelled.nonempty]
  let l : Literal := ⟨['0'], List.replicate zeros '0' ++ digits, none, padded.digit,
    List.cons_ne_nil _ _, fun _ => rfl⟩
  refine ⟨l, ?_, rfl, some, rfl, padded.value, ?_⟩
  · simp [text, exponentText, l, marked_of_ne_nil some]
  · simp [scale, l]

theorem exists_inside (leading : digits.head? ≠ some '0') {count : Nat} (positive : 0 < count)
    (inside : count < digits.length) : ∃ l : Literal,
    l.text = digits.take count ++ '.' :: digits.drop count ∧ l.exponent = none ∧
      l.fraction ≠ [] ∧ l.whole.length = count ∧ l.significand = n ∧
      l.scale = -(digits.length - count : Nat) := by
  have some : digits.drop count ≠ [] := by simp [inside]
  have whole : digits.take count ≠ [] := by simp [spelled.nonempty, positive.ne']
  have head : (digits.take count).head? = digits.head? := by
    rw [List.head?_take, if_neg positive.ne']
  let l : Literal := ⟨digits.take count, digits.drop count, none,
    by rw [List.take_append_drop]; exact spelled.digit, whole,
    fun zero => absurd (head ▸ zero) leading⟩
  refine ⟨l, ?_, rfl, some, by simp [l]; omega, ?_, ?_⟩
  · simp [text, exponentText, l, marked_of_ne_nil some]
  · rw [significand, List.take_append_drop, spelled.value]
  · simp [scale, l]

theorem exists_beyond (zeros : Nat)
    (leading : digits.head? = some '0' → digits.length + zeros = 1) :
    ∃ l : Literal, l.text = digits ++ List.replicate zeros '0' ++ ['.', '0'] ∧
      l.exponent = none ∧ l.fraction ≠ [] ∧ l.whole.length = digits.length + zeros ∧
      l.significand = n * 10 ^ (zeros + 1) ∧ l.scale = -1 := by
  have padded := spelled.append_zeros zeros
  have pointed := padded.append_zeros 1
  have head : (digits ++ List.replicate zeros '0').head? = digits.head? :=
    List.head?_append_of_ne_nil _ spelled.nonempty
  let l : Literal := ⟨digits ++ List.replicate zeros '0', ['0'], none, pointed.digit,
    padded.nonempty, fun zero => by simpa using leading (head ▸ zero)⟩
  have value : l.significand = n * Nat.pow 10 zeros * Nat.pow 10 1 := pointed.value
  refine ⟨l, ?_, rfl, List.cons_ne_nil _ _, by simp [l], ?_, rfl⟩
  · simp [text, exponentText, l, marked]
  · rw [value, Nat.pow_eq, Nat.pow_eq, Nat.mul_assoc, ← Nat.pow_add]

theorem exists_scientific (lead : Int) : ∃ l : Literal,
    l.text = Decimal.json.scientificText digits lead ∧ l.exponent = some lead ∧
      l.whole.length = 1 ∧ l.significand = n ∧ l.scale = lead + 1 - digits.length := by
  obtain ⟨c, rest, rfl⟩ := List.exists_cons_of_ne_nil spelled.nonempty
  let l : Literal := ⟨[c], rest, some lead, spelled.digit, List.cons_ne_nil _ _, fun _ => rfl⟩
  refine ⟨l, ?_, rfl, rfl, spelled.value, ?_⟩
  · cases rest <;> simp [text, exponentText, l, marked, Decimal.Layout.scientificText]
  · simp [scale, l]

theorem exists_positional {lead : Int} (small : lead < 16)
    (leading : digits.head? = some '0' → digits.length = 1 ∧ lead = 0) : ∃ l : Literal,
    l.text = Decimal.json.positionalText digits lead ∧ l.exponent = none ∧ l.fraction ≠ [] ∧
      l.whole.length ≤ 16 ∧
      (l.significand = n ∧ l.scale = lead + 1 - digits.length ∨
        0 ≤ lead + 1 - digits.length ∧
          l.significand = n * 10 ^ ((lead + 1 - digits.length).toNat + 1) ∧ l.scale = -1) := by
  have long := List.length_pos_iff.mpr spelled.nonempty
  unfold Decimal.Layout.positionalText
  dsimp only
  split
  · obtain ⟨l, text, plain, some, narrow, value, scale⟩ := exists_below spelled (-lead - 1).toNat
    exact ⟨l, text, plain, some, by omega, .inl ⟨value, by omega⟩⟩
  · split
    · rename_i inside
      have first : digits.head? ≠ some '0' := fun zero => by
        have := leading zero
        omega
      obtain ⟨l, text, plain, some, narrow, value, scale⟩ :=
        exists_inside spelled first (Nat.succ_pos lead.toNat) inside
      exact ⟨l, text, plain, some, by omega, .inl ⟨value, by omega⟩⟩
    · obtain ⟨l, text, plain, some, narrow, value, scale⟩ :=
        exists_beyond spelled (lead.toNat + 1 - digits.length) fun zero => by
          have := leading zero
          omega
      have zeros : lead.toNat + 1 - digits.length = (lead + 1 - digits.length).toNat := by omega
      exact ⟨l, text, plain, some, by omega, .inr ⟨by omega, zeros ▸ value, scale⟩⟩

end

/-- What is written for a decimal without zeros at its front is a literal. -/
theorem exists_writes (d : Digits) (normal : 0 < d.digits ∨ d.exponent = 0) :
    ∃ l : Literal, l.Writes d := by
  have spelled := spells_toDigits d.digits
  have places : d.exponent + (Nat.toDigits 10 d.digits).length - 1 + 1 -
      (Nat.toDigits 10 d.digits).length = d.exponent := by omega
  by_cases positional : Decimal.json.positional
      (d.exponent + (Nat.toDigits 10 d.digits).length - 1) = true
  · have bounds : -5 ≤ d.exponent + (Nat.toDigits 10 d.digits).length - 1 ∧
        d.exponent + (Nat.toDigits 10 d.digits).length - 1 < 16 := by
      simpa [Decimal.json] using positional
    have leading : (Nat.toDigits 10 d.digits).head? = some '0' →
        (Nat.toDigits 10 d.digits).length = 1 ∧
          d.exponent + (Nat.toDigits 10 d.digits).length - 1 = 0 := by
      intro zero
      have none : d.digits = 0 := by
        by_contra some
        exact head?_toDigits (Nat.pos_of_ne_zero some) zero
      have last : (Nat.toDigits 10 d.digits).length = 1 := by rw [none]; rfl
      omega
    obtain ⟨l, text, plain, some, narrow, value⟩ := exists_positional spelled bounds.2 leading
    refine ⟨l, ?_, .inl some, narrow, by simp [plain], ?_⟩
    · rw [text, Decimal.Layout.digitsText, if_pos positional]
    · rwa [places] at value
  · obtain ⟨l, text, some, narrow, value, scale⟩ := exists_scientific spelled
      (d.exponent + (Nat.toDigits 10 d.digits).length - 1)
    refine ⟨l, ?_, .inr (by simp [some]), by omega, by simp [some], .inl ⟨value, ?_⟩⟩
    · rw [text, Decimal.Layout.digitsText, if_neg positional]
    · rw [scale, places]

end Literal
end Multilevel.Json
