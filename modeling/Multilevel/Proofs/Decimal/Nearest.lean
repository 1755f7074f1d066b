import Mathlib.Data.Int.Log
import Multilevel.Proofs.Decimal.Scientific

/-!
# The nearest number

Between the numbers with a short mantissa and the midpoint behind the greatest number, everything
has a number that attracts it, and that differs from it by a small part of it only. So decimals in
this range are read as such a number, and a product in this range is one.
-/
namespace Multilevel.Decimal

open Float.Model Float.Model.UnpackedFloat

/-! ### Existence -/

/-- A whole number nearest to a number, the even one of two. -/
structure RoundsTo (q : ℚ) (m : Nat) : Prop where
  low : 2 * m - 1 ≤ 2 * q
  high : 2 * q ≤ 2 * m + 1
  strict : m % 2 = 1 → 2 * m - 1 < 2 * q ∧ 2 * q < 2 * m + 1

theorem exists_roundsTo {q : ℚ} (nonneg : 0 ≤ q) : ∃ m, RoundsTo q m := by
  have below := Nat.floor_le nonneg
  have above := Nat.lt_floor_add_one q
  generalize ⌊q⌋₊ = n at below above
  rcases lt_trichotomy (2 * q) (2 * n + 1) with less | half | more
  · exact ⟨n, by linarith, less.le, fun _ => ⟨by linarith, less⟩⟩
  · -- a tie goes to the even neighbour
    rcases Nat.mod_two_eq_zero_or_one n with even | odd
    · exact ⟨n, by linarith, half.le, fun odd => absurd odd (by omega)⟩
    · refine ⟨n + 1, ?_, ?_, fun odd => absurd odd (by omega)⟩ <;> push_cast <;> linarith
  · refine ⟨n + 1, ?_, ?_, fun _ => ⟨?_, ?_⟩⟩ <;> push_cast <;> linarith

theorem quarters_mul (b : Binary) (q : ℚ) : b.quarters (q * 2 ^ b.exponent) = 4 * q := by
  rw [quarters_eq b _ 2, show b.exponent - 2 + (2 : Nat) = b.exponent by omega,
    mul_div_cancel_right₀ _ (two_zpow_pos _).ne']
  norm_num

section
variable {q : ℚ} {m : Nat} (rounds : RoundsTo q m)
include rounds

theorem RoundsTo.attracts (wide : 2 ^ 52 ≤ q) (e : Int) : Binary.Attracts ⟨m, e⟩ (q * 2 ^ e) := by
  have quarters : Binary.quarters ⟨m, e⟩ (q * 2 ^ e) = 4 * q := quarters_mul ⟨m, e⟩ q
  have low : 4 * m - (Binary.reachBelow ⟨m, e⟩ : ℚ) ≤ 4 * q ∧
      (m % 2 = 1 → 4 * m - (Binary.reachBelow ⟨m, e⟩ : ℚ) < 4 * q) := by
    unfold Binary.reachBelow
    split
    · -- nothing below a power of two rounds to it with this exponent
      rename_i edge
      have edge : m = 2 ^ 52 := edge.1
      have edge : (m : ℚ) = 2 ^ 52 := by exact_mod_cast edge
      rw [edge]
      refine ⟨?_, fun _ => ?_⟩ <;> push_cast <;> linarith
    · push_cast
      exact ⟨by linarith [rounds.low], fun odd => by linarith [(rounds.strict odd).1]⟩
  refine ⟨?_, ?_, fun odd => ⟨?_, ?_⟩⟩ <;> rw [quarters]
  · exact low.1
  · dsimp only
    linarith [rounds.high]
  · exact low.2 odd
  · dsimp only
    linarith [(rounds.strict odd).2]

/-- The mantissa has grown too wide, and the exponent takes up what it has too much. -/
theorem RoundsTo.attracts_carry (is : m = 2 * fullMantissa) (narrow : q < 2 ^ 53) (e : Int) :
    Binary.Attracts ⟨fullMantissa, e + 1⟩ (q * 2 ^ e) := by
  have quarters : Binary.quarters ⟨fullMantissa, e + 1⟩ (q * 2 ^ e) = 2 * q := by
    have same := quarters_mul ⟨fullMantissa, e + 1⟩ (q / 2)
    dsimp only at same
    rw [zpow_add_one₀ (by norm_num), mul_comm (2 ^ e : ℚ), ← mul_assoc,
      div_mul_cancel₀ _ (by norm_num)] at same
    rw [same]
    ring
  have whole : (m : ℚ) = 2 ^ 53 := by
    have is : m = 2 ^ 53 := is
    exact_mod_cast is
  have full : ((fullMantissa : Nat) : ℚ) = 2 ^ 52 := by
    have is : fullMantissa = 2 ^ 52 := rfl
    exact_mod_cast is
  have low := rounds.low
  rw [whole] at low
  have reach : (1 : ℚ) ≤ (Binary.reachBelow ⟨fullMantissa, e + 1⟩ : ℚ) := by
    unfold Binary.reachBelow
    split <;> norm_num
  have even : ¬fullMantissa % 2 = 1 := by decide
  refine ⟨?_, ?_, fun odd => absurd odd even⟩ <;> rw [quarters] <;> dsimp only <;> rw [full] <;>
    linarith

end

/-- The midpoint between the greatest number and the one that would follow it. -/
def limit : ℚ := (0x3fffffffffffff * 2 ^ 970 : Nat)

theorem limit_eq : limit = (2 ^ 54 - 1) * 2 ^ (970 : Int) := by
  rw [limit, Nat.cast_mul, Nat.cast_pow, zpow_ofNat]
  norm_num

theorem exists_scaled {v : ℚ} (positive : 0 < v) :
    ∃ (e : Int) (q : ℚ), v = q * 2 ^ e ∧ 2 ^ 52 ≤ q ∧ q < 2 ^ 53 := by
  have low : (2 : ℚ) ^ Int.log 2 v ≤ v := by
    exact_mod_cast Int.zpow_log_le_self (b := 2) (by decide) positive
  have high : v < (2 : ℚ) ^ (Int.log 2 v + 1) := by
    exact_mod_cast Int.lt_zpow_succ_log_self (b := 2) (by decide) v
  have scale := two_zpow_pos (Int.log 2 v - 52)
  refine ⟨Int.log 2 v - 52, v / 2 ^ (Int.log 2 v - 52), (div_mul_cancel₀ _ scale.ne').symm, ?_, ?_⟩
  · rwa [le_div_iff₀ scale, ← two_zpow_add, Nat.cast_ofNat, Int.sub_add_cancel]
  · rwa [div_lt_iff₀ scale, ← two_zpow_add, Nat.cast_ofNat,
      show Int.log 2 v - 52 + 53 = Int.log 2 v + 1 by omega]

theorem exists_attracts {v : ℚ} (low : 2 ^ (-1022 : Int) ≤ v) (high : v < limit) :
    ∃ b : Binary, b.Fits ∧ fullMantissa ≤ b.mantissa ∧ b.Attracts v := by
  obtain ⟨e, q, rfl, wide, narrow⟩ := exists_scaled ((two_zpow_pos _).trans_le low)
  have power := two_zpow_pos e
  obtain ⟨m, rounds⟩ := exists_roundsTo (q := q) (by linarith)
  have full : 2 ^ 52 ≤ m := by
    have : (2 ^ 53 : ℚ) ≤ 2 * m + 1 := by linarith [rounds.high]
    have : 2 ^ 53 ≤ 2 * m + 1 := by exact_mod_cast this
    omega
  have carry : m ≤ 2 ^ 53 := by
    have : (2 * m : ℚ) < 2 ^ 54 + 1 := by linarith [rounds.low]
    have : 2 * m < 2 ^ 54 + 1 := by exact_mod_cast this
    omega
  have least : -1074 ≤ e := by
    have above : q * 2 ^ e < 2 ^ (e + (53 : Nat)) := by
      rw [two_zpow_add]
      exact mul_lt_mul_of_pos_right narrow power
    have := lt_of_two_zpow_lt (low.trans_lt above)
    omega
  have top : q * 2 ^ e < (2 ^ 54 - 1) * 2 ^ (970 : Int) := limit_eq ▸ high
  have greatest : e ≤ 971 := by
    have below : (2 : ℚ) ^ (e + (52 : Nat)) < 2 ^ ((970 : Int) + (54 : Nat)) := by
      rw [two_zpow_add, two_zpow_add]
      refine (mul_le_mul_of_nonneg_right wide power.le).trans_lt (top.trans ?_)
      exact mul_lt_mul_of_pos_right (by norm_num) (two_zpow_pos _)
    have := lt_of_two_zpow_lt below
    omega
  -- rounding up may have led to the next power of two
  rcases Nat.lt_or_eq_of_le carry with short | is
  · exact ⟨⟨m, e⟩, ⟨⟨Nat.lt_of_lt_of_le (by decide) full, short, least, .inl full⟩, greatest⟩, full,
      rounds.attracts wide e⟩
  · have room : e ≠ 971 := by
      rintro rfl
      have whole : (m : ℚ) = 2 ^ 53 := by exact_mod_cast is
      have low := rounds.low
      rw [whole] at low
      rw [show (971 : Int) = 970 + 1 by rfl, zpow_add_one₀ (by norm_num),
        mul_comm (2 ^ (970 : Int) : ℚ), ← mul_assoc] at top
      have below := lt_of_mul_lt_mul_right top (two_zpow_pos _).le
      linarith only [low, below]
    have some : 0 < fullMantissa ∧ fullMantissa < 2 * fullMantissa := by decide
    refine ⟨⟨fullMantissa, e + 1⟩, ⟨⟨some.1, some.2, ?_, .inl (Nat.le_refl _)⟩, ?_⟩,
      Nat.le_refl _, rounds.attracts_carry is narrow e⟩
    · show -1074 ≤ e + 1
      omega
    · show e + 1 ≤ 971
      omega

/-! ### Normal numbers -/

/-- A positive number with a full mantissa, and its value. -/
structure Normal (x : Float) (v : ℚ) : Prop where
  holds : ∃ (b : Binary) (fits : b.Fits), fullMantissa ≤ b.mantissa ∧
    x.toModel.unpack = .finite .positive b.mantissa b.exponent fits.positive ∧
    b.mantissa * 2 ^ b.exponent = v

/-- Two numbers that differ by one rounding at most. -/
structure Close (w v : ℚ) : Prop where
  le : w * (2 ^ 53 - 1) ≤ v * 2 ^ 53
  ge : v * 2 ^ 53 ≤ w * (2 ^ 53 + 1)

theorem Binary.Attracts.close {b : Binary} (full : fullMantissa ≤ b.mantissa) {v : ℚ}
    (near : b.Attracts v) : Close (b.mantissa * 2 ^ b.exponent) v := by
  have wide : (2 : ℚ) ^ 52 ≤ b.mantissa := by
    have bound : 2 ^ 52 ≤ b.mantissa := full
    exact_mod_cast bound
  have low := near.reached
  have high : v ≤ (4 * b.mantissa + 2) * 2 ^ (b.exponent - 2) :=
    (div_le_iff₀ (two_zpow_pos _)).mp near.high
  have unit := two_zpow_pos (b.exponent - 2)
  rw [show b.exponent = b.exponent - 2 + (2 : Nat) by omega, two_zpow_add]
  generalize (2 : ℚ) ^ (b.exponent - 2) = u at low high unit
  have scaled := mul_le_mul_of_nonneg_right wide unit.le
  constructor
  · linarith
  · linarith

theorem Normal.finite {x : Float} {v : ℚ} (normal : Normal x v) : x.isInf = false := by
  obtain ⟨b, fits, -, is, -⟩ := normal.holds
  show x.toModel.unpack.isInf = false
  rw [is]
  rfl

theorem Normal.positive {x : Float} {v : ℚ} (normal : Normal x v) : 0 < v := by
  obtain ⟨b, fits, -, -, rfl⟩ := normal.holds
  have some : (0 : ℚ) < b.mantissa := by exact_mod_cast fits.positive
  exact mul_pos some (two_zpow_pos _)

/-- A decimal of the range is read as a number next to it. -/
theorem exists_normal_nearest (digits : Nat) (exponent : Int)
    (low : 2 ^ (-1022 : Int) ≤ decimal digits exponent) (high : decimal digits exponent < limit) :
    ∃ w, Normal (nearest digits exponent) w ∧ Close w (decimal digits exponent) := by
  obtain ⟨b, fits, full, near⟩ := exists_attracts low high
  refine ⟨b.mantissa * 2 ^ b.exponent, ⟨b, fits, full, ?_, rfl⟩, near.close full⟩
  rw [toModel_nearest fits near]
  exact unpack_pack fits false

theorem exists_normal_mul {x y : Float} {v w : ℚ} (left : Normal x v) (right : Normal y w)
    (low : 2 ^ (-1022 : Int) ≤ v * w) (high : v * w < limit) :
    ∃ z, Normal (x * y) z ∧ Close z (v * w) := by
  obtain ⟨b, fits, full, near⟩ := exists_attracts low high
  obtain ⟨c, first, wide, is, rfl⟩ := left.holds
  obtain ⟨d, second, -, is', rfl⟩ := right.holds
  have enough : 2 ^ 52 ≤ c.mantissa * d.mantissa :=
    Nat.le_trans wide (Nat.le_mul_of_pos_right _ second.positive)
  refine ⟨b.mantissa * 2 ^ b.exponent, ⟨b, fits, full, ?_, rfl⟩, near.close full⟩
  show (Float.Model.pack (UnpackedFloat.mul .binary64 x.toModel.unpack y.toModel.unpack)).unpack = _
  rw [is, is', mul_eq fits.toCanonical rfl (.inr enough) near]
  exact unpack_pack fits false

end Multilevel.Decimal
