import Multilevel.Proofs.Decimal.Scientific

namespace Multilevel.Decimal

theorem zpow_mul_toNat {a : ℚ} (nonzero : a ≠ 0) (e : Int) :
    a ^ e * a ^ (-e).toNat = a ^ e.toNat := by
  rw [← zpow_natCast a (-e).toNat, ← zpow_natCast a e.toNat, ← zpow_add₀ nonzero]
  congr 1
  omega

namespace Binary

variable {b : Binary}

theorem quarters_decimal (b : Binary) (d : Nat) (k : Int) :
    b.quarters (decimal d k) * b.binaryScale k = d * b.decimalScale k := by
  have binary := zpow_mul_toNat (two_ne_zero (α := ℚ)) (b.exponent - 2)
  have grid := zpow_mul_toNat (a := 10) (by norm_num) k
  rw [neg_sub] at binary
  have nonzero : (2 : ℚ) ^ (b.exponent - 2) ≠ 0 := (two_zpow_pos _).ne'
  simp only [quarters, decimal, binaryScale, decimalScale, Nat.pow_eq]
  push_cast
  rw [← binary, ← grid]
  field_simp

theorem attracts_of_reads (positive : 0 < b.mantissa) {d : Nat} {k : Int}
    (reads : b.reads d k = true) : b.Attracts (decimal d k) := by
  have scale : (0 : ℚ) < b.binaryScale k := by
    have : 0 < b.binaryScale k :=
      Nat.mul_pos (Nat.pow_pos (by decide)) (Nat.pow_pos (by decide))
    exact_mod_cast this
  have reach := reachBelow_le b
  have low : ((4 * b.mantissa - b.reachBelow : Nat) : ℚ) = 4 * b.mantissa - b.reachBelow := by
    rw [Nat.cast_sub (by omega)]
    push_cast
    rfl
  have below (bound : Nat) : (bound : ℚ) ≤ b.quarters (decimal d k) ↔
      bound * b.binaryScale k ≤ d * b.decimalScale k := by
    rw [← mul_le_mul_iff_left₀ scale, quarters_decimal]
    exact_mod_cast Iff.rfl
  have above (bound : Nat) : b.quarters (decimal d k) ≤ bound ↔
      d * b.decimalScale k ≤ bound * b.binaryScale k := by
    rw [← mul_le_mul_iff_left₀ scale, quarters_decimal]
    exact_mod_cast Iff.rfl
  have high : ((4 * b.mantissa + 2 : Nat) : ℚ) = 4 * b.mantissa + 2 := by
    push_cast
    rfl
  unfold Binary.reads at reads
  dsimp only at reads
  split at reads
  · rename_i even
    obtain ⟨left, right⟩ := Bool.and_eq_true_iff.mp reads
    refine ⟨?_, ?_, fun odd => absurd odd (by omega)⟩
    · exact low ▸ (below _).mpr (of_decide_eq_true left)
    · exact high ▸ (above _).mpr (of_decide_eq_true right)
  · obtain ⟨left, right⟩ := Bool.and_eq_true_iff.mp reads
    have left := lt_of_not_ge (mt (above _).mp (Nat.not_le.mpr (of_decide_eq_true left)))
    have right := lt_of_not_ge (mt (below _).mp (Nat.not_le.mpr (of_decide_eq_true right)))
    rw [low] at left
    rw [high] at right
    exact ⟨left.le, right.le, fun _ => ⟨left, right⟩⟩

theorem attracts_exact (b : Binary) : b.Attracts (decimal b.exact.digits b.exact.exponent) := by
  have value : decimal b.exact.digits b.exact.exponent = b.mantissa * 2 ^ b.exponent := by
    unfold exact decimal
    split
    · rename_i whole
      obtain ⟨n, is⟩ := Int.eq_ofNat_of_zero_le whole
      rw [is]
      simp [Nat.pow_eq]
    · rename_i fraction
      obtain ⟨n, is⟩ : ∃ n : Nat, b.exponent = -n := ⟨(-b.exponent).toNat, by omega⟩
      have power : (10 : ℚ) ^ n = 5 ^ n * 2 ^ n := by rw [← mul_pow]; norm_num
      rw [is, neg_neg, Int.toNat_natCast, Nat.pow_eq, zpow_neg, zpow_natCast, zpow_neg, zpow_natCast,
        power]
      push_cast
      field_simp
  exact value ▸ b.attracts_self

theorem nearer_eq (b : Binary) (tie : Tie) (d : Nat) (k : Int) :
    b.nearer tie d k = d ∨ b.nearer tie d k = d + 1 := by
  unfold nearer
  split
  · exact .inl rfl
  · exact .inr rfl
  · split
    · exact .inr rfl
    · split
      · exact .inl rfl
      · exact .inr rfl

theorem attracts_shortestFrom (positive : 0 < b.mantissa) (tie : Tie) (grids : Nat) (k : Int) :
    b.Attracts (decimal (b.shortestFrom tie grids k).digits
      (b.shortestFrom tie grids k).exponent) := by
  induction grids generalizing k with
  | zero => exact b.attracts_exact
  | succ grids ih =>
    unfold shortestFrom
    dsimp only
    split
    · rename_i here next
      rcases nearer_eq b tie (b.below k) k with is | is <;> rw [is]
      · exact attracts_of_reads positive here
      · exact attracts_of_reads positive next
    · rename_i here next
      exact attracts_of_reads positive here
    · rename_i here next
      exact attracts_of_reads positive next
    · exact ih (k - 1)

theorem attracts_shortest (positive : 0 < b.mantissa) (tie : Tie) :
    b.Attracts (decimal (b.shortest tie).digits (b.shortest tie).exponent) := by
  rw [shortest, if_neg positive.ne']
  exact attracts_shortestFrom positive tie _ _

end Binary
end Multilevel.Decimal
