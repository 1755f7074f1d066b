import Multilevel.Proofs.Decimal.Parts
import Multilevel.Decimal.Reader

namespace Multilevel.Decimal

open Float.Model Float.Model.UnpackedFloat

/-! ### Products and quotients -/

section
variable {b : Binary} {s₁ s₂ : Sign} {m₁ m₂ : Nat} {e₁ e₂ : Int} {p₁ : 0 < m₁} {p₂ : 0 < m₂} {v : ℚ}

theorem mul_eq (canonical : b.Canonical) (value : v = m₁ * 2 ^ e₁ * (m₂ * 2 ^ e₂))
    (enough : e₁ + e₂ ≤ -1074 ∨ 2 ^ 52 ≤ m₁ * m₂) (near : b.Attracts v) :
    mul .binary64 (.finite s₁ m₁ e₁ p₁) (.finite s₂ m₂ e₂ p₂) =
      .finite (s₁ * s₂) b.mantissa b.exponent canonical.positive := by
  refine roundWithAccuracy_eq canonical _ ?_ enough near
  have whole : v / 2 ^ (e₁ + e₂) = (m₁ * m₂ : Nat) := by
    rw [value, zpow_add₀ (by norm_num), div_eq_iff (by positivity)]
    push_cast
    ring
  rw [whole]
  exact truncates_exact _

theorem div_eq (canonical : b.Canonical) (value : v = m₁ * 2 ^ e₁ / (m₂ * 2 ^ e₂))
    (near : b.Attracts v) :
    div .binary64 (.finite s₁ m₁ e₁ p₁) (.finite s₂ m₂ e₂ p₂) =
      .finite (s₁ / s₂) b.mantissa b.exponent canonical.positive := by
  unfold UnpackedFloat.div divCore
  dsimp only
  rw [targetExponent_binary64]
  unfold totalExponent
  generalize target : min (e₁ - e₂) (max (m₁.log2 + 1 + e₁ - (m₂.log2 + 1 + e₂) - 53) (-1074)) = t
  obtain ⟨n, shift⟩ : ∃ n : Nat, e₁ - e₂ - t = n := Int.eq_ofNat_of_zero_le (by omega)
  rw [shift, Int.toNat_natCast]
  refine roundWithAccuracy_eq canonical _ ?_ ?_ near
  · have scaled : v / 2 ^ t = (m₁ <<< n : Nat) / (m₂ : ℚ) := by
      have nonzero : (m₂ : ℚ) ≠ 0 := by exact_mod_cast p₂.ne'
      rw [value, show e₁ = e₂ + t + n by omega, two_zpow_add, zpow_add₀ (by norm_num),
        Nat.shiftLeft_eq]
      push_cast
      field_simp
    rw [scaled]
    exact truncates_div p₂
  · -- enough digits of the quotient are kept unless it is tiny
    by_cases tiny : t ≤ -1074
    · exact .inl tiny
    · refine .inr ((Nat.le_div_iff_mul_le p₂).mpr ?_)
      calc 2 ^ 52 * m₂ ≤ 2 ^ 52 * 2 ^ (m₂.log2 + 1) := Nat.mul_le_mul_left _ Nat.lt_log2_self.le
        _ = 2 ^ (52 + (m₂.log2 + 1)) := (Nat.pow_add _ _ _).symm
        _ ≤ 2 ^ (m₁.log2 + n) := Nat.pow_le_pow_right (by decide) (by omega)
        _ = 2 ^ m₁.log2 * 2 ^ n := Nat.pow_add _ _ _
        _ ≤ m₁ * 2 ^ n := Nat.mul_le_mul_right _ (Nat.log2_self_le p₁.ne')
        _ = m₁ <<< n := (Nat.shiftLeft_eq _ _).symm

end

/-! ### Decimals -/

def decimal (digits : Nat) (exponent : Int) : ℚ := digits * 10 ^ exponent

theorem decimal_zeros (n : Nat) (exponent : Int) (count : Nat) :
    decimal (n * Nat.pow 10 count) exponent = decimal n (exponent + count) := by
  rw [decimal, decimal, zpow_add₀ (by norm_num), zpow_natCast, Nat.pow_eq]
  push_cast
  ring

theorem decimal_natCast (digits exponent : Nat) :
    decimal digits exponent = (digits * 10 ^ exponent : Nat) := by
  rw [decimal, zpow_natCast, Nat.cast_mul, Nat.cast_pow, Nat.cast_ofNat]

theorem ten_zpow_le {e : Int} (small : e ≤ 0) : (10 : ℚ) ^ e ≤ 2 ^ e := by
  obtain ⟨n, rfl⟩ : ∃ n : Nat, e = -n := ⟨(-e).toNat, by omega⟩
  rw [zpow_neg, zpow_neg, zpow_natCast, zpow_natCast]
  exact inv_anti₀ (by positivity) (pow_le_pow_left₀ (by norm_num) (by norm_num) n)

theorem decimal_lt {digits : Nat} {exponent : Int} (negative : exponent < 0) :
    decimal digits exponent < 2 ^ (exponent + (digits.log2 + 1 : Nat)) := by
  rw [two_zpow_add, decimal]
  refine (mul_le_mul_of_nonneg_left (ten_zpow_le negative.le) (Nat.cast_nonneg _)).trans_lt ?_
  refine mul_lt_mul_of_pos_right ?_ (two_zpow_pos _)
  exact_mod_cast Nat.lt_log2_self

theorem le_decimal {digits : Nat} {exponent : Int} (positive : 0 < digits) (whole : 0 ≤ exponent) :
    2 ^ exponent ≤ decimal digits exponent := by
  have larger : (2 : ℚ) ^ exponent ≤ 10 ^ exponent :=
    zpow_le_zpow_left₀ whole (by norm_num) (by norm_num)
  refine larger.trans (le_mul_of_one_le_left (by positivity) ?_)
  exact_mod_cast positive

theorem Binary.Attracts.digits_pos {b : Binary} (positive : 0 < b.mantissa) {digits : Nat}
    {exponent : Int} (near : b.Attracts (decimal digits exponent)) : 0 < digits := by
  apply Nat.pos_of_ne_zero
  rintro rfl
  have above := near.ge positive
  rw [decimal, Nat.cast_zero, zero_mul] at above
  exact absurd above (not_le.mpr (two_zpow_pos _))

theorem ofScientific_eq {b : Binary} (fits : b.Fits) {digits : Nat} {exponent : Int}
    (near : b.Attracts (decimal digits exponent)) :
    UnpackedFloat.ofScientific .binary64 digits exponent =
      .finite .positive b.mantissa b.exponent fits.positive := by
  have least : -1074 ≤ b.exponent := fits.least
  have greatest := fits.greatest
  have some := near.digits_pos fits.positive
  have low : ¬ exponent > 2 ^ 11 := by
    intro large
    have := lt_of_two_zpow_lt ((le_decimal some (by omega)).trans_lt (near.lt fits.toCanonical))
    omega
  have high : ¬ exponent < -(2 ^ 11 + digits.log2) := by
    intro small
    have := lt_of_two_zpow_lt ((near.ge fits.positive).trans_lt (decimal_lt (by omega)))
    omega
  unfold UnpackedFloat.ofScientific
  rw [dif_neg some.ne', if_neg low, if_neg high]
  split
  · rename_i whole
    obtain ⟨n, rfl⟩ := Int.eq_ofNat_of_zero_le whole
    have enough : 2 ^ 52 ≤ digits <<< Format.binary64.mantissaBits * 10 ^ n := by
      have wide : 1 ≤ digits * 10 ^ n := Nat.mul_pos some (Nat.pow_pos (by decide))
      have size : Format.binary64.mantissaBits = 53 := rfl
      rw [Nat.shiftLeft_eq, size, Nat.mul_right_comm]
      omega
    refine mul_eq fits.toCanonical ?_ (.inr enough) near
    rw [decimal, Int.toNat_natCast, Nat.shiftLeft_eq, zpow_natCast, zpow_neg, zpow_natCast]
    push_cast
    field_simp
  · rename_i fraction
    obtain ⟨n, rfl⟩ : ∃ n : Nat, exponent = -n := ⟨(-exponent).toNat, by omega⟩
    refine div_eq fits.toCanonical ?_ near
    rw [neg_neg, Int.toNat_natCast, decimal, zpow_neg, zpow_natCast, zpow_zero, mul_one, mul_one]
    push_cast
    exact (div_eq_mul_inv _ _).symm

/-! ### Whole numbers -/

/-- A whole number with as many digits as double precision has. -/
def whole (n : Nat) : Binary := ⟨n * fullMantissa / 2 ^ n.log2, n.log2 - 52⟩

theorem full_whole {n : Nat} (positive : 0 < n) : fullMantissa ≤ (whole n).mantissa := by
  refine (Nat.le_div_iff_mul_le (Nat.two_pow_pos _)).mpr ?_
  rw [Nat.mul_comm]
  exact Nat.mul_le_mul_right _ (Nat.log2_self_le positive.ne')

theorem fits_whole {n : Nat} (positive : 0 < n) (small : n.log2 ≤ 1023) : (whole n).Fits := by
  have full := full_whole positive
  have narrow : (whole n).mantissa < 2 * fullMantissa := by
    refine (Nat.div_lt_iff_lt_mul (Nat.two_pow_pos _)).mpr ?_
    have below : n < 2 ^ n.log2 * 2 := Nat.lt_log2_self
    calc n * fullMantissa < 2 ^ n.log2 * 2 * fullMantissa :=
          Nat.mul_lt_mul_of_pos_right below (by decide)
      _ = 2 * fullMantissa * 2 ^ n.log2 := by ring
  have least : leastExponent ≤ (whole n).exponent := by
    dsimp only [whole, leastExponent]
    omega
  refine ⟨⟨Nat.lt_of_lt_of_le (by decide) full, narrow, least, .inl full⟩, ?_⟩
  dsimp only [whole]
  omega

structure Whole (x : Float) (n : Nat) : Prop where
  positive : 0 < n
  fits : (whole n).Fits
  unpack : x.toModel.unpack =
    .finite .positive (whole n).mantissa (whole n).exponent fits.positive
  value : ((whole n).mantissa : ℚ) * 2 ^ (whole n).exponent = n

theorem value_whole {n : Nat} (exact : 2 ^ n.log2 ∣ n * fullMantissa) :
    ((whole n).mantissa : ℚ) * 2 ^ (whole n).exponent = n := by
  obtain ⟨q, scaled⟩ := exact
  have mantissa : (whole n).mantissa = q := by
    rw [whole, scaled]
    exact Nat.mul_div_cancel_left q (Nat.two_pow_pos _)
  have scaled : (n : ℚ) * 2 ^ 52 = 2 ^ n.log2 * q := by exact_mod_cast scaled
  rw [mantissa, whole, zpow_sub₀ (by norm_num), zpow_natCast, mul_div_assoc', mul_comm, ← scaled]
  norm_num

section
variable {n : Nat} (positive : 0 < n) (small : n < 2 ^ 53)
include positive small

theorem log2_le_of_small : n.log2 ≤ 52 :=
  Nat.lt_succ_iff.mp ((Nat.log2_lt positive.ne').mpr small)

theorem value_whole_of_small : ((whole n).mantissa : ℚ) * 2 ^ (whole n).exponent = n :=
  value_whole (Dvd.dvd.mul_left (Nat.pow_dvd_pow 2 (log2_le_of_small positive small)) n)

theorem round_whole (fits : (whole n).Fits) : round .binary64 .positive n 0 =
    .finite .positive (whole n).mantissa (whole n).exponent fits.positive := by
  have digits := log2_le_of_small positive small
  obtain ⟨shift, full⟩ : ∃ shift, n.log2 + shift = 52 := ⟨52 - n.log2, by omega⟩
  have places : (0 - Format.binary64.targetExponent (totalExponent n 0)).toNat = shift := by
    rw [targetExponent_binary64, totalExponent]
    omega
  unfold UnpackedFloat.round decreaseExponent
  dsimp only
  rw [places]
  have scaled : (n : ℚ) / 2 ^ (0 - shift : Int) = (n <<< shift : Nat) := by
    rw [zero_sub, zpow_neg, div_inv_eq_mul, zpow_natCast, Nat.shiftLeft_eq]
    push_cast
    rfl
  refine roundWithAccuracy_eq fits.toCanonical (v := n) .positive ?_ (.inr ?_) ?_
  · rw [scaled]
    exact truncates_exact _
  · calc 2 ^ 52 = 2 ^ n.log2 * 2 ^ shift := by rw [← Nat.pow_add, full]
      _ ≤ n * 2 ^ shift := Nat.mul_le_mul_right _ (Nat.log2_self_le positive.ne')
      _ = n <<< shift := (Nat.shiftLeft_eq _ _).symm
  · have near := (whole n).attracts_self
    rwa [value_whole_of_small positive small] at near

theorem whole_toFloat : Whole n.toUInt64.toFloat n := by
  have fits := fits_whole positive (Nat.le_trans (log2_le_of_small positive small) (by decide))
  refine ⟨positive, fits, ?_, value_whole_of_small positive small⟩
  have same : n.toUInt64.toNat = n := Nat.mod_eq_of_lt (by omega)
  have greater : compare (n : Int) 0 = .gt := compare_gt_iff_gt.mpr (by omega)
  have converted : UnpackedFloat.ofNat .binary64 n =
      .finite .positive (whole n).mantissa (whole n).exponent fits.positive := by
    unfold UnpackedFloat.ofNat UnpackedFloat.ofInt UnpackedFloat.normalize
    rw [greater]
    exact round_whole positive small fits
  show (Float.Model.pack (UnpackedFloat.ofNat .binary64 n.toUInt64.toNat)).unpack = _
  rw [same, converted]
  exact unpack_pack fits false

end

theorem parts_power : ∀ e : Fin Float.exactlyRepresentablePowersOfTen.size,
    (10 ^ e.val).log2 ≤ 1023 ∧ 2 ^ (10 ^ e.val).log2 ∣ 10 ^ e.val * fullMantissa ∧
      parts Float.exactlyRepresentablePowersOfTen[e] = .finite false (whole (10 ^ e.val)) := by
  decide +kernel

/-- The powers of ten in the table are exact. -/
theorem whole_power (e : Nat) (listed : e < Float.exactlyRepresentablePowersOfTen.size) :
    Whole Float.exactlyRepresentablePowersOfTen[e] (10 ^ e) := by
  obtain ⟨bound, exact, is⟩ := parts_power ⟨e, listed⟩
  have positive : 0 < 10 ^ e := Nat.pow_pos (by decide)
  have fits := fits_whole positive bound
  refine ⟨positive, fits, ?_, value_whole exact⟩
  rw [unpack_toModel]
  refine (congrArg Parts.unpacked is).trans ?_
  rw [Parts.unpacked, dif_pos fits.positive]
  rfl

section
variable {x y : Float} {m n : Nat} {b : Binary}

theorem toModel_mul (left : Whole x m) (right : Whole y n) (fits : b.Fits)
    (near : b.Attracts (m * n)) : (x * y).toModel =
      Float.Model.pack (.finite .positive b.mantissa b.exponent fits.positive) := by
  have enough : 2 ^ 52 ≤ (whole m).mantissa * (whole n).mantissa :=
    Nat.le_trans (full_whole left.positive) (Nat.le_mul_of_pos_right _ right.fits.positive)
  show Float.Model.pack (UnpackedFloat.mul .binary64 x.toModel.unpack y.toModel.unpack) = _
  rw [left.unpack, right.unpack, mul_eq fits.toCanonical ?_ (.inr enough) near]
  · rfl
  · rw [left.value, right.value]

theorem toModel_div (left : Whole x m) (right : Whole y n) (fits : b.Fits)
    (near : b.Attracts (m / n)) : (x / y).toModel =
      Float.Model.pack (.finite .positive b.mantissa b.exponent fits.positive) := by
  show Float.Model.pack (UnpackedFloat.div .binary64 x.toModel.unpack y.toModel.unpack) = _
  rw [left.unpack, right.unpack, div_eq fits.toCanonical ?_ near]
  · rfl
  · rw [left.value, right.value]

end

/-! ### The nearest number -/

theorem toModel_nearest {b : Binary} (fits : b.Fits) {digits : Nat} {exponent : Int}
    (near : b.Attracts (decimal digits exponent)) : (nearest digits exponent).toModel =
      Float.Model.pack (.finite .positive b.mantissa b.exponent fits.positive) := by
  unfold nearest Float.ofScientific
  split
  · -- one operation on two whole numbers is rounded once
    rename_i quick
    have factor := whole_toFloat (near.digits_pos fits.positive) quick.1
    have power := whole_power exponent.natAbs (Nat.lt_succ_of_le quick.2)
    by_cases negative : exponent < 0
    · have value : decimal digits exponent = digits / (10 ^ exponent.natAbs : Nat) := by
        nth_rewrite 1 [show exponent = -exponent.natAbs by omega]
        rw [decimal, zpow_neg, zpow_natCast, Nat.cast_pow, Nat.cast_ofNat, div_eq_mul_inv]
      rw [if_pos (decide_eq_true negative)]
      exact toModel_div factor power fits (value ▸ near)
    · have value : decimal digits exponent = digits * (10 ^ exponent.natAbs : Nat) := by
        nth_rewrite 1 [show exponent = exponent.natAbs by omega]
        rw [decimal, zpow_natCast, Nat.cast_pow, Nat.cast_ofNat]
      rw [if_neg (by simpa using negative)]
      exact toModel_mul factor power fits (value ▸ near)
  · rename_i slow
    have signed : (if decide (exponent < 0) then Int.negOfNat exponent.natAbs
        else Int.ofNat exponent.natAbs) = exponent := by
      split
      · rename_i negative
        have negative := of_decide_eq_true negative
        rw [Int.negOfNat_eq, Int.ofNat_eq_natCast]
        omega
      · rename_i whole
        have whole := of_decide_eq_false (Bool.not_eq_true _ ▸ whole)
        rw [Int.ofNat_eq_natCast]
        omega
    dsimp only
    rw [signed]
    show Float.Model.pack (UnpackedFloat.ofScientific .binary64 digits exponent) = _
    rw [ofScientific_eq fits near]

/-! ### Zero -/

section
variable {x y : Float} {n : Nat} (zero : x.toModel.unpack = .zero .positive) (factor : Whole y n)
include zero factor

theorem toModel_zero_mul : (x * y).toModel = Float.Model.pack (.zero .positive) := by
  show Float.Model.pack (UnpackedFloat.mul .binary64 x.toModel.unpack y.toModel.unpack) = _
  rw [zero, factor.unpack]
  rfl

theorem toModel_zero_div : (x / y).toModel = Float.Model.pack (.zero .positive) := by
  show Float.Model.pack (UnpackedFloat.div .binary64 x.toModel.unpack y.toModel.unpack) = _
  rw [zero, factor.unpack]
  rfl

end

theorem toModel_nearest_zero (exponent : Int) :
    (nearest 0 exponent).toModel = Float.Model.pack (.zero .positive) := by
  unfold nearest Float.ofScientific
  split
  · rename_i quick
    have power := whole_power exponent.natAbs (Nat.lt_succ_of_le quick.2)
    have is : parts (Nat.toUInt64 0).toFloat = .finite false ⟨0, leastExponent⟩ := by
      decide +kernel
    have zero := unpack_toModel (Nat.toUInt64 0).toFloat
    rw [is] at zero
    dsimp only
    split
    · exact toModel_zero_div zero power
    · exact toModel_zero_mul zero power
  · show Float.Model.pack (UnpackedFloat.ofScientific .binary64 0 _) = _
    rw [UnpackedFloat.ofScientific, dif_pos rfl]

end Multilevel.Decimal
