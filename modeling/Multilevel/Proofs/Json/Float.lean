import Multilevel.Proofs.Decimal.Addition
import Multilevel.Proofs.Json.Number
import Multilevel.Proofs.Json.Record

/-!
# Numbers that are written and read again

A finite number is written as a literal, and no such literal is refused. The reader is quick rather
than exact, so it need not give the number back (`reread`); it does where one operation on two exact
numbers makes the number from its digits.
-/
namespace Multilevel

open Decimal (Binary Digits decimal parts)
open Json (Literal)

/-! ### Literals of numbers -/

namespace Decimal

theorem exists_finite {x : Float} (finite : x.isFinite = true) :
    ∃ negative b, parts x = .finite negative b := by
  have is : x.toModel.unpack.isFinite = true := finite
  rw [unpack_toModel] at is
  cases made : parts x with
  | notANumber =>
    rw [made] at is
    cases is
  | infinite negative =>
    rw [made] at is
    cases is
  | finite negative b => exact ⟨negative, b, rfl⟩

variable {b : Binary}

theorem shortest_normal (b : Binary) (tie : Tie) :
    0 < (b.shortest tie).digits ∨ (b.shortest tie).exponent = 0 := by
  rcases Nat.eq_zero_or_pos b.mantissa with zero | positive
  · right
    rw [Binary.shortest, if_pos zero]
  · exact .inl ((Binary.attracts_shortest positive tie).digits_pos positive)

theorem lead_bounds (fits : b.Fits) {d : Digits} (near : b.Attracts (decimal d.digits d.exponent)) :
    -1076 ≤ d.exponent + (Nat.toDigits 10 d.digits).length - 1 ∧
      d.exponent + (Nat.toDigits 10 d.digits).length - 1 < 1024 := by
  have some := near.digits_pos fits.positive
  have least : -1074 ≤ b.exponent := fits.least
  have greatest := fits.greatest
  obtain ⟨places, is⟩ : ∃ places, (Nat.toDigits 10 d.digits).length = places + 1 :=
    Nat.exists_eq_add_of_le' (List.length_pos_iff.mpr Nat.toDigits_ne_nil)
  have below : d.digits < 10 ^ (places + 1) :=
    (Nat.length_toDigits_le_iff (by decide) (Nat.succ_pos _)).mp is.le
  have above : 10 ^ places ≤ d.digits := by
    rcases Nat.eq_zero_or_pos places with rfl | more
    · exact some
    · by_contra less
      have := (Nat.length_toDigits_le_iff (b := 10) (by decide) more).mpr (Nat.lt_of_not_le less)
      omega
  have below : (d.digits : ℚ) < 10 ^ (places + 1) := by exact_mod_cast below
  have above : (10 : ℚ) ^ places ≤ d.digits := by exact_mod_cast above
  have grid : (0 : ℚ) < 10 ^ d.exponent := zpow_pos (by norm_num) _
  rw [is]
  constructor
  · by_contra tiny
    have less : decimal d.digits d.exponent < 2 ^ (d.exponent + (places + 1 : Nat)) :=
      calc decimal d.digits d.exponent < 10 ^ (places + 1) * 10 ^ d.exponent :=
            mul_lt_mul_of_pos_right below grid
        _ = 10 ^ (d.exponent + (places + 1 : Nat)) := by
            rw [zpow_add₀ (by norm_num), zpow_natCast, mul_comm]
        _ ≤ 2 ^ (d.exponent + (places + 1 : Nat)) := ten_zpow_le (by omega)
    have := lt_of_two_zpow_lt ((near.ge fits.positive).trans_lt less)
    omega
  · by_contra large
    have more : 2 ^ (d.exponent + places) ≤ decimal d.digits d.exponent :=
      calc (2 : ℚ) ^ (d.exponent + places) ≤ 10 ^ (d.exponent + places) :=
            zpow_le_zpow_left₀ (by omega) (by norm_num) (by norm_num)
        _ = 10 ^ places * 10 ^ d.exponent := by
            rw [zpow_add₀ (by norm_num), zpow_natCast, mul_comm]
        _ ≤ decimal d.digits d.exponent := mul_le_mul_of_nonneg_right above grid.le
    have := lt_of_two_zpow_lt (more.trans_lt (near.lt fits.toCanonical))
    omega

end Decimal

namespace Json

theorem exists_literal (b : Binary) : ∃ l : Literal, l.Writes (b.shortest .even) :=
  Literal.exists_writes _ (Decimal.shortest_normal b .even)

theorem isLiteral_text {x : Float} (finite : x.isFinite = true) :
    Token.IsLiteral (Decimal.json.text x) := by
  obtain ⟨negative, b, is⟩ := Decimal.exists_finite finite
  obtain ⟨l, writes⟩ := exists_literal b
  refine ⟨l, negative, ?_⟩
  rw [writes.text, Decimal.Layout.text, is]
  rfl

theorem sound_ofFloat {x : Float} (finite : x.isFinite = true) : Sound (ofFloat x) := by
  rw [ofFloat, if_pos finite]
  exact isLiteral_text finite

/-! ### Reading literals -/

theorem unsigned?_literal {l : Literal} (real : l.fraction ≠ [] ∨ l.exponent ≠ none) :
    Number.unsigned? l.text =
      (Number.real? l.whole l.fraction (l.exponentText.drop 1)).map .real := by
  have ends : ∀ c ∈ l.exponentText.head?, c.isDigit = false ∧ c ≠ '.' := by
    have stops : Stops [] := nofun
    have ends := Token.ends_exponentText l stops
    rwa [List.append_nil] at ends
  obtain ⟨taken, left⟩ := Prod.mk.inj (Decimal.splitDigits_append l.wholeDigit
    (Token.ends_fraction l.fraction fun c first => (ends c first).1))
  have more : (marked '.' l.fraction ++ l.exponentText).isEmpty = false := by
    cases fraction : l.fraction with
    | cons c rest => rfl
    | nil =>
      unfold Literal.exponentText
      cases exponent : l.exponent with
      | some e => rfl
      | none => simp [fraction, exponent] at real
  unfold Number.unsigned?
  dsimp only
  rw [Literal.text, taken, left, more, Bool.false_and, if_neg Bool.false_ne_true]
  split
  · rename_i after begins
    cases fraction : l.fraction with
    | nil =>
      -- then the exponent would begin with a point
      rw [fraction] at begins
      have first : l.exponentText = '.' :: after := begins
      exact absurd rfl (ends '.' (by rw [first]; rfl)).2
    | cons c digits =>
      rw [fraction] at begins
      obtain rfl : c :: digits ++ l.exponentText = after := (List.cons.inj begins).2
      obtain ⟨taken, left⟩ := Prod.mk.inj (Decimal.splitDigits_append (fraction ▸ l.fractionDigit)
        fun c first => (ends c first).1)
      rw [taken, left]
  · rename_i other
    cases fraction : l.fraction with
    | nil => rfl
    | cons c digits =>
      rw [fraction] at other
      exact absurd rfl (other (c :: digits ++ l.exponentText))

theorem exists_unsigned {b : Binary} (fits : 0 < b.mantissa → b.Fits) {l : Literal}
    (writes : l.Writes (b.shortest .even)) : ∃ n ignored : Nat,
    Number.unsigned? (Decimal.json.digitsText (b.shortest .even)) =
        (Number.scaled? n (l.scale + ignored)).map .real ∧
      n < 0x10000000000000000 ∧ n * 10 ^ ignored ≤ l.significand ∧
      (l.significand < 0x10000000000000000 → n = l.significand ∧ ignored = 0) := by
  have bounded : (l.exponent.getD 0).natAbs < 0x80000000 := by
    cases exponent : l.exponent with
    | none => decide
    | some e =>
      rw [Option.getD_some, writes.lead e exponent]
      rcases Nat.eq_zero_or_pos b.mantissa with zero | positive
      · rw [Binary.shortest, if_pos zero]
        decide
      · have bounds := Decimal.lead_bounds (fits positive) (Binary.attracts_shortest positive .even)
        omega
  obtain ⟨n, ignored, read, others⟩ := Number.exists_scaled writes.narrow bounded
  exact ⟨n, ignored, by rw [← writes.text, unsigned?_literal writes.real, read], others⟩

/-- The three largest numbers are so close to the limit that only a computation shows that they are
not read as more. -/
theorem exists_unsigned_largest : ∀ below : Fin 3, (Number.unsigned? (Decimal.json.digitsText
    (Binary.shortest ⟨0x1fffffffffffff - below, 971⟩ .even))).isSome = true := by
  decide +kernel

/-- What any other number attracts leaves room for the roundings of the reader. -/
theorem le_bound {b : Binary} (fits : b.Fits)
    (smaller : ¬(b.exponent = 971 ∧ 0x1ffffffffffffd ≤ b.mantissa)) {v : ℚ} (near : b.Attracts v) :
    v ≤ Number.bound := by
  have greatest := fits.greatest
  have narrow : b.mantissa < 0x20000000000000 := fits.narrow
  have high : v ≤ (4 * b.mantissa + 2) * 2 ^ (b.exponent - 2) :=
    (div_le_iff₀ (Decimal.two_zpow_pos _)).mp near.high
  refine high.trans ?_
  rw [Number.bound_eq, show (970 : Int) = 968 + (2 : Nat) by rfl, Decimal.two_zpow_add]
  have unit := Decimal.two_zpow_pos 968
  by_cases top : b.exponent = 971
  · have below : (b.mantissa : ℚ) ≤ 2 ^ 53 - 4 := by
      have : b.mantissa + 4 ≤ 2 ^ 53 := by omega
      have : (b.mantissa : ℚ) + 4 ≤ 2 ^ 53 := by exact_mod_cast this
      linarith
    rw [top, show (971 - 2 : Int) = 968 + (1 : Nat) by rfl, Decimal.two_zpow_add, ← mul_assoc,
      ← mul_assoc]
    exact mul_le_mul_of_nonneg_right (by linarith) unit.le
  · have power : (2 : ℚ) ^ (b.exponent - 2) ≤ 2 ^ (968 : Int) :=
      zpow_le_zpow_right₀ (by norm_num) (by omega)
    have below : (b.mantissa : ℚ) < 2 ^ 53 := by exact_mod_cast narrow
    have some : (0 : ℚ) ≤ b.mantissa := Nat.cast_nonneg _
    refine (mul_le_mul_of_nonneg_left power (by linarith)).trans ?_
    rw [← mul_assoc]
    exact mul_le_mul_of_nonneg_right (by linarith) unit.le

theorem exists_read {b : Binary} (fits : 0 < b.mantissa → b.Fits) :
    ∃ y, Number.unsigned? (Decimal.json.digitsText (b.shortest .even)) = some y := by
  by_cases largest : b.exponent = 971 ∧ 0x1ffffffffffffd ≤ b.mantissa
  · obtain ⟨top, high⟩ := largest
    have narrow : b.mantissa < 0x20000000000000 := (fits (by omega)).narrow
    have read := exists_unsigned_largest ⟨0x1fffffffffffff - b.mantissa, by omega⟩
    have same : (⟨0x1fffffffffffff - (0x1fffffffffffff - b.mantissa), 971⟩ : Binary) = b := by
      rw [← top]
      congr 1
      omega
    dsimp only at read
    rw [same] at read
    exact Option.isSome_iff_exists.mp read
  · obtain ⟨l, writes⟩ := exists_literal b
    obtain ⟨n, ignored, read, small, below, -⟩ := exists_unsigned fits writes
    -- digits that are left out make the number smaller, never larger
    have bounded : decimal n (l.scale + ignored) ≤ Number.bound :=
      calc decimal n (l.scale + ignored) = decimal (n * 10 ^ ignored) l.scale :=
            (Decimal.decimal_zeros n l.scale ignored).symm
        _ ≤ l.value := by
            refine mul_le_mul_of_nonneg_right ?_ (zpow_pos (by norm_num) _).le
            exact_mod_cast below
        _ ≤ Number.bound := by
            rw [writes.value]
            rcases Nat.eq_zero_or_pos b.mantissa with zero | positive
            · rw [Binary.shortest, if_pos zero, decimal, Nat.cast_zero, zero_mul, Number.bound]
              exact Nat.cast_nonneg _
            · exact le_bound (fits positive) largest (Binary.attracts_shortest positive .even)
    obtain ⟨x, scaled⟩ := Number.exists_scaled_of_bounded small bounded
    exact ⟨.real x, by rw [read, scaled]; rfl⟩

/-! ### Reading numbers again -/

/-- What a number is read as from its text. One without a text stays as it is. -/
def reread (x : Float) : Float := (float? (ofFloat x)).getD x

theorem ofLiteral?_signed {s : List Char} (first : Text.LeadsWithDigit s) (negative : Bool) :
    Number.ofLiteral? (Decimal.Layout.text.signed negative s) =
      if negative then (Number.unsigned? s).map Number.opposite else Number.unsigned? s := by
  cases negative with
  | true => rfl
  | false => exact ofLiteral?_of_digit first

section
variable {x : Float} {negative : Bool} {b : Binary} (is : parts x = .finite negative b)
include is

theorem float?_of_parts (finite : x.isFinite = true) : float? (ofFloat x) =
    (if negative then (Number.unsigned? (Decimal.json.digitsText (b.shortest .even))).map
        Number.opposite
      else Number.unsigned? (Decimal.json.digitsText (b.shortest .even))).map Number.toFloat := by
  have first := (Decimal.writes_digitsText Decimal.json (b.shortest .even)).first
  rw [ofFloat, if_pos finite, float?, Decimal.Layout.text, is]
  exact congrArg _ (ofLiteral?_signed first negative)

end

theorem float?_ofFloat {x : Float} (finite : x.isFinite = true) :
    float? (ofFloat x) = some (reread x) := by
  obtain ⟨negative, b, is⟩ := Decimal.exists_finite finite
  obtain ⟨y, read⟩ := exists_read (Decimal.fits_of_parts is)
  have made : ∃ z, float? (ofFloat x) = some z := by
    rw [float?_of_parts is finite, read]
    cases negative <;> exact ⟨_, rfl⟩
  obtain ⟨z, made⟩ := made
  rw [reread, made]
  rfl

/-- Few digits: with one zero more they are a whole number that double precision has, and none of
them is more than 22 places behind the point. -/
structure Few (d : Digits) : Prop where
  digits : d.digits * 10 ^ (d.exponent.toNat + 1) < 2 ^ 53
  near : -22 ≤ d.exponent

instance (d : Digits) : Decidable (Few d) :=
  decidable_of_iff (d.digits * 10 ^ (d.exponent.toNat + 1) < 2 ^ 53 ∧ -22 ≤ d.exponent)
    ⟨fun ⟨digits, near⟩ => ⟨digits, near⟩, fun few => ⟨few.digits, few.near⟩⟩

def Short (x : Float) : Prop :=
  ∃ negative b, parts x = .finite negative b ∧ Few (b.shortest .even)

instance (x : Float) : Decidable (Short x) :=
  match is : parts x with
  | .finite negative b => decidable_of_iff (Few (b.shortest .even))
      ⟨fun few => ⟨negative, b, is, few⟩, fun ⟨_, _, other, few⟩ =>
        (Decimal.Parts.finite.inj (is.symm.trans other)).2 ▸ few⟩
  | .infinite _ => isFalse fun ⟨_, _, other, _⟩ => nomatch is.symm.trans other
  | .notANumber => isFalse fun ⟨_, _, other, _⟩ => nomatch is.symm.trans other

theorem Literal.Writes.short {l : Literal} {d : Digits} (writes : l.Writes d)
    (normal : 0 < d.digits ∨ d.exponent = 0) (few : Few d) :
    l.significand < 2 ^ 53 ∧ l.scale.natAbs ≤ 22 := by
  obtain ⟨few, near⟩ := few
  have fewer : d.digits ≤ d.digits * 10 ^ (d.exponent.toNat + 1) :=
    Nat.le_mul_of_pos_right _ (Nat.pow_pos (by decide))
  rcases writes.places with ⟨digits, scale⟩ | ⟨whole, digits, scale⟩
  · have small : d.exponent < 16 := by
      by_contra large
      rcases normal with some | none
      · have grown : 10 ^ 16 ≤ d.digits * 10 ^ (d.exponent.toNat + 1) :=
          Nat.le_trans (Nat.pow_le_pow_right (by decide) (by omega)) (Nat.le_mul_of_pos_left _ some)
        omega
      · omega
    omega
  · omega

theorem reread_of_short {x : Float} (finite : x.isFinite = true) (short : Short x) :
    reread x = x := by
  obtain ⟨negative, b, is, few⟩ := short
  have fits := Decimal.fits_of_parts is
  obtain ⟨l, writes⟩ := exists_literal b
  obtain ⟨digits, scale⟩ := writes.short (Decimal.shortest_normal b .even) few
  obtain ⟨n, ignored, read, -, -, all⟩ := exists_unsigned fits writes
  -- no digit is left out, and the one operation is that of the nearest number
  obtain ⟨rfl, rfl⟩ := all (by omega)
  have value : decimal l.significand l.scale = _ := writes.value
  have made := Decimal.toModel_nearest_shortest fits value
  rw [Nat.cast_zero, Int.add_zero,
    Number.scaled?_eq_nearest digits scale (Number.isInf_of_toModel fits made)] at read
  have packed := Decimal.pack_parts (Decimal.parts_number (Decimal.isNaN_of_isFinite finite))
  rw [is] at packed
  rw [reread, float?_of_parts is finite, read]
  cases negative with
  | false => exact congrArg Float.ofModel (made.trans packed)
  | true => exact congrArg Float.ofModel ((Decimal.toModel_neg fits made).trans packed)

end Json
end Multilevel
