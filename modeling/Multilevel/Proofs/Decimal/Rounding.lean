import Mathlib
import Multilevel.Decimal.Shortest

/-!
# Rounding to double precision

A mantissa that is cut off keeps two bits of what is lost, enough to round it to the nearest. A
number between the midpoints around a double precision number is rounded to that number, whatever
the mantissa and the exponent it is handed over with, if there are enough of its digits.
-/
namespace Multilevel.Decimal

open Float.Model Float.Model.UnpackedFloat

variable {em : ExtendedMantissa} {x : ℚ}

/-! ### Mantissas cut off -/

/-- The mantissa is the whole part of a number, the first bit its first binary digit after the
point, and the second bit tells whether any more follow. -/
structure Truncates (em : ExtendedMantissa) (x : ℚ) : Prop where
  low : 2 * em.mantissa + em.roundBit.toNat ≤ 2 * x
  high : 2 * x < 2 * em.mantissa + em.roundBit.toNat + 1
  exact : em.stickyBit = false ↔ 2 * x = 2 * em.mantissa + em.roundBit.toNat

theorem Truncates.shiftRightOne (cut : Truncates em x) : Truncates em.shiftRightOne (x / 2) := by
  obtain ⟨m, roundBit, stickyBit⟩ := em
  obtain ⟨low, high, exact⟩ := cut
  have whole : (m : ℚ) = 2 * (m / 2 : Nat) + (m % 2 != 0).toNat := by
    have bit : (m % 2 != 0).toNat = m % 2 := by
      rcases Nat.mod_two_eq_zero_or_one m with h | h <;> simp [h]
    rw [bit]
    exact_mod_cast (Nat.div_add_mod m 2).symm
  have halved : 2 * (x / 2) = x := by ring
  have bounds : (m : ℚ) ≤ x ∧ x < m + 1 := by
    cases roundBit <;> simp at low high <;> constructor <;> linarith
  refine ⟨?_, ?_, ?_⟩
  · rw [halved]
    exact whole ▸ bounds.1
  · rw [halved]
    exact whole ▸ bounds.2
  · rw [halved]
    simp only [ExtendedMantissa.shiftRightOne, Bool.or_eq_false_iff]
    rw [exact, ← whole]
    cases roundBit
    · simp
    · simp at low ⊢
      linarith

theorem Truncates.shiftRight (cut : Truncates em x) (n : Nat) : Truncates (em >>> n) (x / 2 ^ n) := by
  induction n with
  | zero =>
    rw [pow_zero, div_one]
    exact cut
  | succ n ih =>
    rw [pow_succ, ← div_div]
    exact ih.shiftRightOne

/-- A number no further from a whole one than a half is rounded to it, midpoints to the even one. -/
theorem Truncates.roundedMantissa (cut : Truncates em x) {n : Nat} (low : 2 * n - 1 ≤ 2 * x)
    (high : 2 * x ≤ 2 * n + 1) (tie : 2 * x = 2 * n - 1 ∨ 2 * x = 2 * n + 1 → n % 2 = 0) :
    em.roundedMantissa = n := by
  obtain ⟨m, roundBit, stickyBit⟩ := em
  obtain ⟨below, above, exact⟩ := cut
  cases roundBit <;> cases stickyBit <;> simp at below above exact
  · -- the number is the mantissa
    have left : 2 * n ≤ 2 * m + 1 := by exact_mod_cast (by linarith : (2 * n : ℚ) ≤ 2 * m + 1)
    have right : 2 * m ≤ 2 * n + 1 := by exact_mod_cast (by linarith : (2 * m : ℚ) ≤ 2 * n + 1)
    show m = n
    omega
  · -- it lies between the mantissa and the midpoint above
    have left : 2 * n < 2 * m + 2 := by exact_mod_cast (by linarith : (2 * n : ℚ) < 2 * m + 2)
    have right : 2 * m ≤ 2 * n + 1 := by exact_mod_cast (by linarith : (2 * m : ℚ) ≤ 2 * n + 1)
    show m = n
    omega
  · -- it is the midpoint
    have left : 2 * n ≤ 2 * m + 2 := by exact_mod_cast (by linarith : (2 * n : ℚ) ≤ 2 * m + 2)
    have right : 2 * m ≤ 2 * n := by exact_mod_cast (by linarith : (2 * m : ℚ) ≤ 2 * n)
    show m + m % 2 = n
    rcases Nat.lt_or_ge m n with above | below
    · have even := tie (.inl (by rw [exact, (by omega : n = m + 1)]; push_cast; ring))
      omega
    · have even := tie (.inr (by rw [exact, (by omega : n = m)]))
      omega
  · -- it lies between the midpoint and the next mantissa
    have left : 2 * n < 2 * m + 3 := by exact_mod_cast (by linarith : (2 * n : ℚ) < 2 * m + 3)
    have right : 2 * m < 2 * n := by
      have strict : 2 * (m : ℚ) + 1 < 2 * x := lt_of_le_of_ne below (Ne.symm exact)
      exact_mod_cast (by linarith : (2 * m : ℚ) < 2 * n)
    show m + 1 = n
    omega

theorem Truncates.bounds (cut : Truncates em x) : em.mantissa ≤ x ∧ x < em.mantissa + 1 := by
  obtain ⟨m, roundBit, stickyBit⟩ := em
  obtain ⟨low, high, -⟩ := cut
  cases roundBit <;> simp at low high <;> constructor <;> linarith

@[simp] theorem mantissa_ofMantissaAndAccuracy (m : Nat) (accuracy : Accuracy) :
    (ExtendedMantissa.ofMantissaAndAccuracy m accuracy).mantissa = m := by
  cases accuracy with
  | exact => rfl
  | inexact half => cases half <;> rfl

theorem truncates_exact (m : Nat) :
    Truncates (ExtendedMantissa.ofMantissaAndAccuracy m .exact) m := by
  refine ⟨?_, ?_, ?_⟩ <;> simp [ExtendedMantissa.ofMantissaAndAccuracy]

theorem truncates_div {n d : Nat} (positive : 0 < d) :
    Truncates (ExtendedMantissa.ofMantissaAndAccuracy (n / d) (accuracyOfFraction (n % d) d))
      (n / d : ℚ) := by
  have nonzero : (d : ℚ) ≠ 0 := by exact_mod_cast positive.ne'
  obtain ⟨part, rest⟩ : ∃ f : ℚ, f * d = (n % d : Nat) := ⟨_, div_mul_cancel₀ _ nonzero⟩
  have whole : (n : ℚ) / d = (n / d : Nat) + part := by
    have split : (n : ℚ) = d * (n / d : Nat) + (n % d : Nat) := by
      exact_mod_cast (Nat.div_add_mod n d).symm
    rw [div_eq_iff nonzero]
    linarith
  have scale (a b : ℚ) : a < b ↔ a * d < b * d :=
    (mul_lt_mul_iff_left₀ (by exact_mod_cast positive)).symm
  have small : (n % d : Nat) < (d : ℚ) := by exact_mod_cast Nat.mod_lt n positive
  have below : part < 1 := by
    rw [scale, rest, one_mul]
    exact small
  rw [whole]
  unfold accuracyOfFraction
  split
  · rename_i none
    have zero : part = 0 := by
      rw [none, Nat.cast_zero] at rest
      exact (mul_eq_zero.mp rest).resolve_right nonzero
    rw [zero, add_zero]
    exact truncates_exact _
  · rename_i some
    have above : 0 < part := by
      rw [scale, rest, zero_mul]
      exact_mod_cast Nat.pos_of_ne_zero some
    have twice : 2 * part * d = (2 * (n % d) : Nat) := by
      rw [mul_assoc, rest]
      push_cast
      rfl
    cases half : compare (2 * (n % d)) d with
    | lt =>
      have less : 2 * part < 1 := by
        rw [scale, twice, one_mul]
        exact_mod_cast Nat.compare_eq_lt.mp half
      refine ⟨?_, ?_, ?_⟩ <;> simp [ExtendedMantissa.ofMantissaAndAccuracy] <;> linarith
    | eq =>
      have same : 2 * part = 1 := by
        rw [← mul_left_inj' nonzero, twice, one_mul]
        exact_mod_cast Nat.compare_eq_eq.mp half
      refine ⟨?_, ?_, ?_⟩ <;> simp [ExtendedMantissa.ofMantissaAndAccuracy] <;> linarith
    | gt =>
      have more : 1 < 2 * part := by
        rw [scale, twice, one_mul]
        exact_mod_cast Nat.compare_eq_gt.mp half
      refine ⟨?_, ?_, ?_⟩ <;> simp [ExtendedMantissa.ofMantissaAndAccuracy] <;> linarith

/-! ### Double precision numbers -/

/-- A positive number that double precision has: its mantissa is full unless its exponent is the
least. -/
structure Binary.Canonical (b : Binary) : Prop where
  positive : 0 < b.mantissa
  narrow : b.mantissa < 2 * fullMantissa
  least : leastExponent ≤ b.exponent
  full : fullMantissa ≤ b.mantissa ∨ b.exponent = leastExponent

def Binary.quarters (b : Binary) (v : ℚ) : ℚ := v / 2 ^ (b.exponent - 2)

/-- The numbers between the midpoints to the neighbours. The midpoints belong to those with an even
mantissa. -/
structure Binary.Attracts (b : Binary) (v : ℚ) : Prop where
  low : 4 * b.mantissa - b.reachBelow ≤ b.quarters v
  high : b.quarters v ≤ 4 * b.mantissa + 2
  strict : b.mantissa % 2 = 1 → 4 * b.mantissa - b.reachBelow < b.quarters v ∧
    b.quarters v < 4 * b.mantissa + 2

theorem reachBelow_le (b : Binary) : b.reachBelow ≤ 2 := by
  unfold Binary.reachBelow
  split <;> decide

/-! ### Rounding -/

theorem targetExponent_binary64 (t : Int) : Format.binary64.targetExponent t = max (t - 53) (-1074) :=
  rfl

theorem two_zpow_pos (e : Int) : (0 : ℚ) < 2 ^ e := zpow_pos (by norm_num) e

theorem two_zpow_add (e : Int) (n : Nat) : (2 : ℚ) ^ (e + n) = 2 ^ n * 2 ^ e := by
  rw [zpow_add₀ (by norm_num), zpow_natCast, mul_comm]

theorem lt_of_two_zpow_lt {a b : Int} (below : (2 : ℚ) ^ a < 2 ^ b) : a < b :=
  (zpow_lt_zpow_iff_right₀ (by norm_num)).mp below

theorem shiftToExponent_eq {m : Nat} {e t : Int} {accuracy : Accuracy} (le : e ≤ t) {v : ℚ}
    (cut : Truncates (ExtendedMantissa.ofMantissaAndAccuracy m accuracy) (v / 2 ^ e)) :
    ∃ em, shiftToExponent m e accuracy t = (em, t) ∧ Truncates em (v / 2 ^ t) := by
  obtain ⟨n, rfl⟩ := Int.le.dest le
  refine ⟨ExtendedMantissa.ofMantissaAndAccuracy m accuracy >>> n, ?_, ?_⟩
  · have steps : (e + n - e).toNat = n := by omega
    rw [shiftToExponent, steps]
  · rw [zpow_add₀ (by norm_num), zpow_natCast, ← div_div]
    exact cut.shiftRight n

theorem Binary.Attracts.lt {b : Binary} (canonical : b.Canonical) {v : ℚ} (near : b.Attracts v) :
    v < 2 ^ (b.exponent + 53) := by
  have narrow : (b.mantissa : ℚ) + 1 ≤ 2 ^ 53 := by
    have bound : b.mantissa + 1 ≤ 2 ^ 53 := canonical.narrow
    exact_mod_cast bound
  have high : v ≤ (4 * b.mantissa + 2) * 2 ^ (b.exponent - 2) :=
    (div_le_iff₀ (two_zpow_pos _)).mp near.high
  rw [show b.exponent + 53 = b.exponent - 2 + (55 : Nat) by omega, two_zpow_add]
  refine lt_of_le_of_lt high (mul_lt_mul_of_pos_right ?_ (two_zpow_pos _))
  linarith

theorem Binary.Attracts.reached {b : Binary} {v : ℚ} (near : b.Attracts v) :
    (4 * b.mantissa - 2) * 2 ^ (b.exponent - 2) ≤ v := by
  have reach : (b.reachBelow : ℚ) ≤ 2 := by exact_mod_cast reachBelow_le b
  have low : (4 * b.mantissa - b.reachBelow) * 2 ^ (b.exponent - 2) ≤ v :=
    (le_div_iff₀ (two_zpow_pos _)).mp near.low
  refine le_trans (mul_le_mul_of_nonneg_right ?_ (two_zpow_pos _).le) low
  linarith

theorem Binary.Attracts.ge {b : Binary} (positive : 0 < b.mantissa) {v : ℚ} (near : b.Attracts v) :
    2 ^ (b.exponent - 1) ≤ v := by
  have wide : (1 : ℚ) ≤ b.mantissa := by exact_mod_cast positive
  rw [show b.exponent - 1 = b.exponent - 2 + (1 : Nat) by omega, two_zpow_add]
  refine le_trans (mul_le_mul_of_nonneg_right ?_ (two_zpow_pos _).le) near.reached
  linarith

theorem Binary.Attracts.le {b : Binary} (full : fullMantissa ≤ b.mantissa) {v : ℚ}
    (near : b.Attracts v) : 2 ^ (b.exponent + 51) ≤ v := by
  have wide : (2 : ℚ) ^ 52 ≤ b.mantissa := by
    have bound : 2 ^ 52 ≤ b.mantissa := full
    exact_mod_cast bound
  rw [show b.exponent + 51 = b.exponent - 2 + (53 : Nat) by omega, two_zpow_add]
  refine le_trans (mul_le_mul_of_nonneg_right ?_ (two_zpow_pos _).le) near.reached
  linarith

theorem Truncates.between_powers {m : Nat} {e : Int} {accuracy : Accuracy} {v : ℚ}
    (cut : Truncates (ExtendedMantissa.ofMantissaAndAccuracy m accuracy) (v / 2 ^ e))
    (positive : 0 < m) : 2 ^ (e + m.log2) ≤ v ∧ v < 2 ^ (e + (m.log2 + 1 : Nat)) := by
  obtain ⟨low, high⟩ := cut.bounds
  rw [mantissa_ofMantissaAndAccuracy, le_div_iff₀ (two_zpow_pos e)] at low
  rw [mantissa_ofMantissaAndAccuracy, div_lt_iff₀ (two_zpow_pos e)] at high
  constructor
  · rw [two_zpow_add]
    refine le_trans (mul_le_mul_of_nonneg_right ?_ (two_zpow_pos e).le) low
    exact_mod_cast Nat.log2_self_le positive.ne'
  · rw [two_zpow_add]
    refine lt_of_lt_of_le high (mul_le_mul_of_nonneg_right ?_ (two_zpow_pos e).le)
    exact_mod_cast Nat.lt_log2_self

/-- Where the digits of a number that is attracted are cut off: at the exponent of the number it is
attracted to, or one place further when that one is a power of two and attracts it from below. -/
theorem target_eq {b : Binary} (canonical : b.Canonical) {m : Nat} {e : Int} {accuracy : Accuracy}
    {v : ℚ} (cut : Truncates (ExtendedMantissa.ofMantissaAndAccuracy m accuracy) (v / 2 ^ e))
    (enough : e ≤ -1074 ∨ 2 ^ 52 ≤ m) (near : b.Attracts v) :
    e ≤ max (totalExponent m e - 53) (-1074) ∧
      (max (totalExponent m e - 53) (-1074) = b.exponent ∨
        max (totalExponent m e - 53) (-1074) = b.exponent - 1 ∧ -1074 < b.exponent ∧
          v < 2 ^ (b.exponent + 52)) := by
  have upper := near.lt canonical
  have least : -1074 ≤ b.exponent := canonical.least
  have full : b.exponent = -1074 ∨ (2 : ℚ) ^ (b.exponent + 51) ≤ v := by
    rcases canonical.full with full | least
    · exact .inr (near.le full)
    · exact .inl least
  unfold totalExponent
  rcases Nat.eq_zero_or_pos m with rfl | positive
  · -- then the number is below the least one there is
    have tiny : e ≤ -1074 := by omega
    have below : v < 2 ^ (-1074 : Int) := by
      have high := cut.bounds.2
      rw [mantissa_ofMantissaAndAccuracy, div_lt_iff₀ (two_zpow_pos e), Nat.cast_zero, zero_add,
        one_mul] at high
      exact high.trans_le (zpow_le_zpow_right₀ (by norm_num) tiny)
    have bottom : b.exponent = -1074 := by
      rcases full with bottom | above
      · exact bottom
      · have := lt_of_two_zpow_lt (lt_of_le_of_lt above below)
        omega
    rw [Nat.log2_zero]
    omega
  · obtain ⟨first, last⟩ := cut.between_powers positive
    have top := lt_of_two_zpow_lt (lt_of_le_of_lt first upper)
    have digits : 2 ^ 52 ≤ m → 52 ≤ m.log2 := fun large =>
      (Nat.le_log2 positive.ne').mpr large
    -- the target is the exponent unless the number lies below the next power of two
    by_cases reached : e + m.log2 = b.exponent + 51
    · by_cases bottom : b.exponent = -1074
      · omega
      · refine ⟨by omega, .inr ⟨by omega, by omega, ?_⟩⟩
        rw [show b.exponent + 52 = e + (m.log2 + 1 : Nat) by omega]
        exact last
    · have above : b.exponent = -1074 ∨ b.exponent + 51 ≤ e + m.log2 := by
        rcases full with bottom | above
        · exact .inl bottom
        · have := lt_of_two_zpow_lt (lt_of_le_of_lt above last)
          exact .inr (by omega)
      omega

theorem shiftToTargetExponent_canonical {b : Binary} (canonical : b.Canonical) :
    shiftToTargetExponent .binary64 b.mantissa b.exponent .exact =
      (.ofMantissaAndAccuracy b.mantissa .exact, b.exponent) := by
  have positive := canonical.positive.ne'
  have digits : b.mantissa.log2 ≤ 52 :=
    Nat.lt_succ_iff.mp ((Nat.log2_lt positive).mpr canonical.narrow)
  have least : -1074 ≤ b.exponent := canonical.least
  have target : Format.binary64.targetExponent (totalExponent b.mantissa b.exponent) =
      b.exponent := by
    rw [targetExponent_binary64, totalExponent]
    rcases canonical.full with full | bottom
    · have wide : 52 ≤ b.mantissa.log2 := (Nat.le_log2 positive).mpr full
      omega
    · have bottom : b.exponent = -1074 := bottom
      omega
  rw [shiftToTargetExponent, target, shiftToExponent, Int.sub_self]
  simp only [Int.toNat_zero, Int.natCast_zero, Int.add_zero]
  rfl

/-- A mantissa rounded up to a power of two takes one digit less. -/
theorem shiftToTargetExponent_carry {e : Int} (least : -1074 ≤ e) :
    shiftToTargetExponent .binary64 (2 * fullMantissa) e .exact =
      (.ofMantissaAndAccuracy fullMantissa .exact, e + 1) := by
  have digits : (2 * fullMantissa).log2 = 53 := by decide +kernel
  have target : Format.binary64.targetExponent (totalExponent (2 * fullMantissa) e) = e + 1 := by
    rw [targetExponent_binary64, totalExponent, digits]
    omega
  have step : (e + 1 - e).toNat = 1 := by omega
  rw [shiftToTargetExponent, target, shiftToExponent, step]
  rfl

theorem quarters_eq (b : Binary) (v : ℚ) (n : Nat) :
    b.quarters v = 2 ^ n * (v / 2 ^ (b.exponent - 2 + n)) := by
  rw [two_zpow_add, Binary.quarters]
  field_simp

theorem Binary.attracts_self (b : Binary) : b.Attracts (b.mantissa * 2 ^ b.exponent) := by
  have quarters : b.quarters (b.mantissa * 2 ^ b.exponent) = 4 * b.mantissa := by
    rw [quarters_eq b _ 2, show b.exponent - 2 + (2 : Nat) = b.exponent by omega,
      mul_div_cancel_right₀ _ (two_zpow_pos _).ne']
    norm_num
  have reach : (1 : ℚ) ≤ b.reachBelow := by
    unfold Binary.reachBelow
    split <;> norm_num
  refine ⟨?_, ?_, fun _ => ⟨?_, ?_⟩⟩ <;> rw [quarters] <;> linarith

theorem Truncates.roundedMantissa_eq {b : Binary} {v : ℚ} (cut : Truncates em (v / 2 ^ b.exponent))
    (near : b.Attracts v) : em.roundedMantissa = b.mantissa := by
  have reach : (b.reachBelow : ℚ) ≤ 2 := by exact_mod_cast reachBelow_le b
  obtain ⟨low, high, strict⟩ := near
  have quarters : b.quarters v = 2 ^ 2 * (v / 2 ^ b.exponent) := by
    rw [quarters_eq b v 2, show b.exponent - 2 + (2 : Nat) = b.exponent by omega]
  rw [quarters] at low high strict
  refine cut.roundedMantissa (by linarith) (by linarith) fun tie => ?_
  by_contra odd
  obtain ⟨left, right⟩ := strict (by omega)
  rcases tie with tie | tie <;> linarith

/-- Only a power of two attracts numbers below the power itself, and it is met by rounding up. -/
theorem Truncates.roundedMantissa_carry {b : Binary} (canonical : b.Canonical) {v : ℚ}
    (cut : Truncates em (v / 2 ^ (b.exponent - 1))) (near : b.Attracts v)
    (above : -1074 < b.exponent) (below : v < 2 ^ (b.exponent + 52)) :
    b.mantissa = fullMantissa ∧ em.roundedMantissa = 2 * fullMantissa := by
  have low := near.low
  have small : b.quarters v < 2 ^ 54 := by
    rw [Binary.quarters, div_lt_iff₀ (two_zpow_pos _), ← two_zpow_add]
    rwa [show b.exponent - 2 + (54 : Nat) = b.exponent + 52 by omega]
  have power : b.mantissa = fullMantissa := by
    have reach : (b.reachBelow : ℚ) ≤ 2 := by exact_mod_cast reachBelow_le b
    have narrow : b.mantissa < 2 ^ 52 + 1 := by
      exact_mod_cast (by linarith : (b.mantissa : ℚ) < 2 ^ 52 + 1)
    rcases canonical.full with full | bottom
    · exact Nat.le_antisymm (Nat.lt_succ_iff.mp narrow) full
    · exact absurd bottom (Int.ne_of_gt above)
  refine ⟨power, ?_⟩
  have reach : b.reachBelow = 1 := if_pos ⟨power, above⟩
  have quarters : b.quarters v = 2 ^ 1 * (v / 2 ^ (b.exponent - 1)) := by
    rw [quarters_eq b v 1, show b.exponent - 2 + (1 : Nat) = b.exponent - 1 by omega]
  have size : (fullMantissa : ℚ) = 2 ^ 52 := by norm_num [fullMantissa]
  rw [reach, power, size, quarters] at low
  rw [quarters] at small
  push_cast at low
  refine cut.roundedMantissa ?_ ?_ fun _ => rfl
  · push_cast
    rw [size]
    linarith
  · push_cast
    rw [size]
    linarith

/-- A number is rounded to the double precision number that attracts it. -/
theorem roundWithAccuracy_eq {b : Binary} (canonical : b.Canonical) {m : Nat} {e : Int}
    {accuracy : Accuracy} {v : ℚ} (sign : Sign)
    (cut : Truncates (ExtendedMantissa.ofMantissaAndAccuracy m accuracy) (v / 2 ^ e))
    (enough : e ≤ -1074 ∨ 2 ^ 52 ≤ m) (near : b.Attracts v) :
    roundWithAccuracy .binary64 sign m e accuracy =
      .finite sign b.mantissa b.exponent canonical.positive := by
  obtain ⟨le, target⟩ := target_eq canonical cut enough near
  obtain ⟨em, shifted, cut⟩ := shiftToExponent_eq le cut
  have first : shiftToTargetExponent .binary64 m e accuracy =
      (em, max (totalExponent m e - 53) (-1074)) := shifted
  rw [roundWithAccuracy, first]
  dsimp only
  rcases target with same | ⟨before, above, below⟩
  · rw [same] at cut
    rw [cut.roundedMantissa_eq near, same, shiftToTargetExponent_canonical canonical]
    dsimp only
    rw [dif_neg]
    · rfl
    · exact canonical.positive.ne'
  · rw [before] at cut
    obtain ⟨power, rounded⟩ := cut.roundedMantissa_carry canonical near above below
    rw [rounded, before, shiftToTargetExponent_carry (by omega)]
    dsimp only
    rw [dif_neg]
    · rw [UnpackedFloat.finite.injEq]
      exact ⟨rfl, power.symm, by omega⟩
    · decide

end Multilevel.Decimal
