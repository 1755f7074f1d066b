import Multilevel.Json.Number
import Multilevel.Proofs.Decimal.Nearest
import Multilevel.Proofs.Json.Literal

/-!
# Literals read as numbers

What the reader makes of a literal: it takes up digits as long as their number fits into 64 bits,
and scales the number it has with one operation or several. Digits beyond that only make the number
smaller than the literal means, so a literal is refused at most where it means a number beyond the
largest.
-/
namespace Multilevel.Json.Number

open Decimal (Normal Close decimal nearest limit)

/-! ### Digits -/

theorem absorb_bounds {s : Nat} (small : s < 0x10000000000000000) (digits : List Char) :
    (absorb s digits).1 < 0x10000000000000000 ∧ (absorb s digits).2 ≤ digits.length ∧
      (absorb s digits).1 * 10 ^ (absorb s digits).2 ≤ Nat.ofDigitChars 10 digits s := by
  induction digits generalizing s with
  | nil => exact ⟨small, Nat.le_refl _, by simp [absorb]⟩
  | cons d rest ih =>
    rw [absorb]
    split
    · rename_i next
      obtain ⟨fits, counted, below⟩ := ih next
      rw [Nat.ofDigitChars_cons, Nat.mul_comm 10]
      exact ⟨fits, Nat.le_trans counted (Nat.le_succ _), below⟩
    · refine ⟨small, Nat.le_refl _, ?_⟩
      rw [Nat.ofDigitChars_eq_ofDigitChars_zero, Nat.mul_comm s]
      exact Nat.le_add_right _ _

theorem absorb_of_fits {s : Nat} {digits : List Char}
    (fits : Nat.ofDigitChars 10 digits s < 0x10000000000000000) :
    absorb s digits = (Nat.ofDigitChars 10 digits s, 0) := by
  induction digits generalizing s with
  | nil => rfl
  | cons d rest ih =>
    rw [Nat.ofDigitChars_cons, Nat.mul_comm 10] at fits
    rw [absorb, if_pos (Nat.lt_of_le_of_lt (Text.le_ofDigitChars rest _) fits), ih fits,
      Nat.ofDigitChars_cons, Nat.mul_comm 10]

theorem ofDigitChars_lt {digits : List Char} (digit : ∀ c ∈ digits, c.isDigit = true) :
    Nat.ofDigitChars 10 digits 0 < 10 ^ digits.length := by
  induction digits with
  | nil => decide
  | cons d rest ih =>
    obtain ⟨first, others⟩ := List.forall_mem_cons.mp digit
    have bounds := Text.bounds_of_isDigit first
    have zero : '0'.toNat = 48 := rfl
    have later := ih others
    rw [Nat.ofDigitChars_cons, Nat.ofDigitChars_eq_ofDigitChars_zero, List.length_cons,
      Nat.pow_succ]
    have most : 10 ^ rest.length * (10 * 0 + (d.toNat - '0'.toNat)) ≤ 10 ^ rest.length * 9 :=
      Nat.mul_le_mul_left _ (by omega)
    omega

theorem exponentParts_exponentText (l : Literal) : exponentParts (l.exponentText.drop 1) =
    (decide (l.exponent.getD 0 < 0), (l.exponent.getD 0).natAbs) := by
  unfold Literal.exponentText
  cases l.exponent with
  | none => rfl
  | some e =>
    show exponentParts (Decimal.json.exponentText e) = _
    unfold Decimal.Layout.exponentText
    split
    · rename_i negative
      rw [exponentParts, Nat.ofDigitChars_ten_toDigits, Option.getD_some, decide_eq_true negative]
    · rename_i whole
      rw [if_pos (by rfl), exponentParts, Nat.ofDigitChars_ten_toDigits, Option.getD_some,
        decide_eq_false whole]

/-- A literal is read as its digits, scaled to their places, where some digits may be left out. -/
theorem exists_scaled {l : Literal} (narrow : l.whole.length ≤ 16)
    (bounded : (l.exponent.getD 0).natAbs < 0x80000000) : ∃ n ignored : Nat,
    real? l.whole l.fraction (l.exponentText.drop 1) = scaled? n (l.scale + ignored) ∧
      n < 0x10000000000000000 ∧ n * 10 ^ ignored ≤ l.significand ∧
      (l.significand < 0x10000000000000000 → n = l.significand ∧ ignored = 0) := by
  have whole : Nat.ofDigitChars 10 l.whole 0 < 0x10000000000000000 :=
    calc Nat.ofDigitChars 10 l.whole 0 < 10 ^ l.whole.length := ofDigitChars_lt l.wholeDigit
      _ ≤ 10 ^ 16 := Nat.pow_le_pow_right (by decide) narrow
      _ < 0x10000000000000000 := by decide
  have all : l.significand = Nat.ofDigitChars 10 l.fraction (Nat.ofDigitChars 10 l.whole 0) :=
    Nat.ofDigitChars_append 0
  obtain ⟨fits, counted, below⟩ := absorb_bounds whole l.fraction
  have exact (short : l.significand < 0x10000000000000000) := absorb_of_fits (all ▸ short)
  refine ⟨_, (absorb (Nat.ofDigitChars 10 l.whole 0) l.fraction).2, ?_, fits, all ▸ below,
    fun short => ?_⟩
  · unfold real?
    rw [absorb_of_fits whole]
    dsimp only
    rw [exponentParts_exponentText]
    dsimp only
    rw [if_pos bounded]
    congr 1
    unfold Literal.scale
    by_cases negative : l.exponent.getD 0 < 0
    · rw [if_pos (decide_eq_true negative)]
      omega
    · rw [if_neg (by simpa using negative)]
      omega
  · rw [exact short, all]
    exact ⟨rfl, rfl⟩

/-! ### Scaling -/

theorem power_eq (e : Nat) : power e = nearest 1 e := by
  have whole : ¬(e : Int) < 0 := by omega
  rw [nearest, decide_eq_false whole]
  rfl

theorem tiny_le_quarter : (2 : ℚ) ^ (-1022 : Int) ≤ 1 / 4 := by
  rw [show (1 / 4 : ℚ) = 2 ^ (-2 : Int) by norm_num]
  exact zpow_le_zpow_right₀ (by norm_num) (by decide)

theorem exists_normal_whole {digits exponent : Nat} (positive : 0 < digits)
    (small : digits * 10 ^ exponent < 0x3fffffffffffff * 2 ^ 970) :
    ∃ w, Normal (nearest digits exponent) w ∧ Close w (digits * 10 ^ exponent : Nat) := by
  rw [← Decimal.decimal_natCast]
  refine Decimal.exists_normal_nearest digits exponent ?_ ?_ <;> rw [Decimal.decimal_natCast]
  · have some : 1 ≤ digits * 10 ^ exponent := Nat.mul_pos positive (Nat.pow_pos (by decide))
    have some : (1 : ℚ) ≤ (digits * 10 ^ exponent : Nat) := by exact_mod_cast some
    exact tiny_le_quarter.trans (by linarith)
  · rw [limit]
    exact_mod_cast small

theorem exists_normal_ofNat {n : Nat} (positive : 0 < n) (small : n < 0x10000000000000000) :
    ∃ w, Normal (Float.ofNat n) w ∧ Close w n := by
  have small : n * 10 ^ 0 < 0x3fffffffffffff * 2 ^ 970 := by
    rw [Nat.pow_zero, Nat.mul_one]
    exact Nat.lt_trans small (by decide +kernel)
  have made := exists_normal_whole positive small
  rwa [Nat.pow_zero, Nat.mul_one] at made

theorem exists_normal_power {e : Nat} (listed : e ≤ topPower) :
    ∃ w, Normal (power e) w ∧ Close w (10 ^ e) := by
  have small : 1 * 10 ^ e < 0x3fffffffffffff * 2 ^ 970 := by
    rw [Nat.one_mul]
    exact Nat.lt_of_le_of_lt (Nat.pow_le_pow_right (by decide) listed) (by decide +kernel)
  have made := exists_normal_whole Nat.one_pos small
  rwa [Nat.one_mul, Nat.cast_pow, Nat.cast_ofNat, ← power_eq] at made

/-- A bound below the limit that leaves room for three roundings. -/
def bound : ℚ := (0x3ffffffffffff9 * 2 ^ 970 : Nat)

theorem bound_eq : bound = (2 ^ 54 - 7) * 2 ^ (970 : Int) := by
  rw [bound, Nat.cast_mul, Nat.cast_pow, zpow_ofNat]
  norm_num

theorem product_lt_limit {n p v w : ℚ} (left : Close v n) (right : Close w p) (first : 0 < v)
    (second : 0 < w) (small : n * p ≤ bound) : v * w < limit := by
  have whole : 0 ≤ n * 2 ^ 53 := (mul_pos first (by norm_num)).le.trans left.le
  have scaled : v * w * (2 ^ 53 - 1) ^ 2 ≤ n * p * 2 ^ 106 :=
    calc v * w * (2 ^ 53 - 1) ^ 2 = v * (2 ^ 53 - 1) * (w * (2 ^ 53 - 1)) := by ring
      _ ≤ n * 2 ^ 53 * (p * 2 ^ 53) :=
        mul_le_mul left.le right.le (mul_pos second (by norm_num)).le whole
      _ = n * p * 2 ^ 106 := by ring
  have gap : bound * 2 ^ 106 < limit * (2 ^ 53 - 1) ^ 2 := by
    have less : 0x3ffffffffffff9 * 2 ^ 970 * 2 ^ 106 <
        0x3fffffffffffff * 2 ^ 970 * 0x1fffffffffffff ^ 2 := by decide +kernel
    rw [bound, limit, show (2 ^ 53 - 1 : ℚ) = (0x1fffffffffffff : Nat) by norm_num]
    exact_mod_cast less
  have below : n * p * 2 ^ 106 ≤ bound * 2 ^ 106 := mul_le_mul_of_nonneg_right small (by norm_num)
  exact lt_of_mul_lt_mul_right (scaled.trans_lt (below.trans_lt gap)) (by norm_num)

theorem quarter_le_product {n p v w : ℚ} (left : Close v n) (right : Close w p) (first : 1 ≤ n)
    (second : 1 ≤ p) : 1 / 4 ≤ v * w := by
  have half : 1 / 2 ≤ v := by linarith [left.ge]
  have other : 1 / 2 ≤ w := by linarith [right.ge]
  nlinarith

theorem unpack_zero : (Float.ofNat 0).toModel.unpack = .zero .positive := by
  have parts : Decimal.parts (Float.ofNat 0) = .finite false ⟨0, Decimal.leastExponent⟩ := by
    decide +kernel
  rw [Decimal.unpack_toModel, parts]
  rfl

theorem isInf_pack_zero : (Float.Model.pack (.zero .positive)).unpack.isInf = false := by
  decide +kernel

theorem isInf_zero_mul {x : Float} {v : ℚ} (normal : Normal x v) :
    (Float.ofNat 0 * x).isInf = false := by
  obtain ⟨b, fits, -, is, -⟩ := normal.holds
  show (Float.Model.pack (Float.Model.UnpackedFloat.mul .binary64 _ _)).unpack.isInf = false
  rw [unpack_zero, is]
  exact isInf_pack_zero

theorem exists_scaled_of_bounded {n : Nat} {e : Int} (fits : n < 0x10000000000000000)
    (small : decimal n e ≤ bound) : ∃ x, scaled? n e = some x := by
  unfold scaled?
  dsimp only
  split
  · exact ⟨_, rfl⟩
  · rename_i whole
    obtain ⟨k, rfl⟩ := Int.eq_ofNat_of_zero_le (Int.not_lt.mp whole)
    rw [Int.natAbs_natCast]
    rcases Nat.eq_zero_or_pos n with rfl | positive
    · split
      · rename_i listed
        obtain ⟨w, normal, -⟩ := exists_normal_power listed
        rw [if_neg (by simp [isInf_zero_mul normal])]
        exact ⟨_, rfl⟩
      · rw [if_pos (by decide +kernel)]
        exact ⟨_, rfl⟩
    · have some : (1 : ℚ) ≤ n := by exact_mod_cast positive
      have value : decimal n k = n * 10 ^ k := by rw [decimal, zpow_natCast]
      rw [value] at small
      -- the next power of ten is beyond the bound, and so are its multiples
      have listed : k ≤ topPower := by
        by_contra beyond
        have large : 0x3ffffffffffff9 * 2 ^ 970 < 10 ^ k :=
          Nat.lt_of_lt_of_le (by decide +kernel)
            (Nat.pow_le_pow_right (by decide) (Nat.lt_of_not_le beyond))
        have large : bound < 10 ^ k := by
          rw [bound]
          exact_mod_cast large
        have : (10 : ℚ) ^ k ≤ n * 10 ^ k := le_mul_of_one_le_left (by positivity) some
        linarith
      obtain ⟨v, left, close⟩ := exists_normal_ofNat positive fits
      obtain ⟨w, right, near⟩ := exists_normal_power listed
      obtain ⟨z, product, -⟩ := Decimal.exists_normal_mul left right
        (tiny_le_quarter.trans (quarter_le_product close near some (one_le_pow₀ (by norm_num))))
        (product_lt_limit close near left.positive right.positive small)
      rw [if_pos listed, if_neg (by simp [product.finite])]
      exact ⟨_, rfl⟩

/-! ### One exact operation -/

section
open Decimal (Whole whole)
variable {n : Nat} {e : Int}

theorem whole_unique {x y : Float} (left : Whole x n) (right : Whole y n) : x = y := by
  have same : x.toModel = y.toModel := by
    rw [← Decimal.pack_unpack x, ← Decimal.pack_unpack y, left.unpack, right.unpack]
  exact congrArg Float.ofModel same

theorem whole_nearest {digits : Nat} {exponent : Int} {x : Float} (known : Whole x n)
    (value : decimal digits exponent = n) : Whole (nearest digits exponent) n := by
  have near : (whole n).Attracts (decimal digits exponent) := by
    have self := (whole n).attracts_self
    rwa [known.value, ← value] at self
  refine ⟨known.positive, known.fits, ?_, known.value⟩
  rw [Decimal.toModel_nearest known.fits near]
  exact Decimal.unpack_pack known.fits false

theorem ofNat_eq (short : n < 2 ^ 53) : Float.ofNat n = n.toUInt64.toFloat := by
  rcases Nat.eq_zero_or_pos n with rfl | positive
  · decide +kernel
  · have known := Decimal.whole_toFloat positive short
    have value : decimal n 0 = n := by rw [decimal, zpow_zero, mul_one]
    exact whole_unique (whole_nearest known value) known

theorem power_eq_listed {k : Nat} (listed : k < Float.exactlyRepresentablePowersOfTen.size) :
    power k = Float.exactlyRepresentablePowersOfTen[k] := by
  have known := Decimal.whole_power k listed
  have value : decimal 1 k = (10 ^ k : Nat) := by
    rw [decimal, zpow_natCast, Nat.cast_one, one_mul, Nat.cast_pow, Nat.cast_ofNat]
  rw [power_eq]
  exact whole_unique (whole_nearest known value) known

/-- Few digits near the point are scaled by one operation on exact numbers, as they are for the
nearest number. -/
theorem scaled?_eq_nearest (short : n < 2 ^ 53) (close : e.natAbs ≤ 22)
    (finite : (nearest n e).isInf = false) : scaled? n e = some (nearest n e) := by
  have listed := power_eq_listed (Nat.lt_succ_of_le close)
  have near : e.natAbs ≤ topPower := Nat.le_trans close (by decide)
  have once : nearest n e = if e < 0 then Float.ofNat n / power e.natAbs
      else Float.ofNat n * power e.natAbs := by
    rw [ofNat_eq short, listed, nearest]
    unfold Float.ofScientific
    rw [dif_pos ⟨short, close⟩]
    by_cases negative : e < 0
    · exact (if_pos (decide_eq_true negative)).trans (if_pos negative).symm
    · exact (if_neg (by simpa using negative)).trans (if_neg negative).symm
  rw [once] at finite ⊢
  unfold scaled?
  dsimp only
  split
  · rw [divideBy, if_pos near]
  · rename_i whole
    rw [if_neg whole] at finite
    rw [if_neg (by simp [finite])]

theorem isInf_of_toModel {x : Float} {b : Decimal.Binary} (fits : 0 < b.mantissa → b.Fits)
    (is : x.toModel = Float.Model.pack (Decimal.Parts.finite false b).unpacked) :
    x.isInf = false := by
  show x.toModel.unpack.isInf = false
  rw [is, Decimal.Parts.unpacked]
  split
  · rename_i positive
    exact (congrArg _ (Decimal.unpack_pack (fits positive) false)).trans rfl
  · exact isInf_pack_zero

end

end Multilevel.Json.Number
