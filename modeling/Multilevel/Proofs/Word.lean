import Mathlib.Algebra.Group.Nat.Defs

/-!
# Computing with words

A word is a number below a power of two. Here the sum or the product of two words is a step that may
have no word for its result, and so is a conversion between words and coordinates. As long as every
result fits, words compute what numbers without a bound do.
-/
namespace Multilevel.Word

/-- A number that is no word of the width it is needed in. -/
structure Misfit where
  value : Int
  width : Nat

variable {w m n : Nat}

def ofNat (w n : Nat) : Except Misfit (BitVec w) :=
  if n < 2 ^ w then .ok (.ofNat w n) else .error ⟨n, w⟩

def add (a b : BitVec w) : Except Misfit (BitVec w) := ofNat w (a.toNat + b.toNat)

def mul (a b : BitVec w) : Except Misfit (BitVec w) := ofNat w (a.toNat * b.toNat)

def ofCoordinate (a : Int32) : Except Misfit (BitVec 64) :=
  if a < 0 then .error ⟨a.toInt, 64⟩ else ofNat 64 a.toInt.toNat

def toCoordinate (a : BitVec 64) : Except Misfit Int32 :=
  if a.toNat < 2 ^ 31 then .ok (.ofNat a.toNat) else .error ⟨a.toNat, 31⟩

theorem ofNat_ok (small : n < 2 ^ w) : ofNat w n = .ok (.ofNat w n) := if_pos small

theorem toNat_ofNat (small : n < 2 ^ w) : (BitVec.ofNat w n).toNat = n := by
  rw [BitVec.toNat_ofNat, Nat.mod_eq_of_lt small]

theorem add_ofNat (small : m + n < 2 ^ w) :
    add (.ofNat w m) (.ofNat w n) = .ok (.ofNat w (m + n)) := by
  have left : m < 2 ^ w := Nat.lt_of_le_of_lt (Nat.le_add_right m n) small
  have right : n < 2 ^ w := Nat.lt_of_le_of_lt (Nat.le_add_left n m) small
  rw [add, toNat_ofNat left, toNat_ofNat right, ofNat_ok small]

theorem mul_ofNat (left : m < 2 ^ w) (right : n < 2 ^ w) (small : m * n < 2 ^ w) :
    mul (.ofNat w m) (.ofNat w n) = .ok (.ofNat w (m * n)) := by
  rw [mul, toNat_ofNat left, toNat_ofNat right, ofNat_ok small]

theorem ofCoordinate_ofNat (small : n < 2 ^ 31) :
    ofCoordinate (.ofNat n) = .ok (.ofNat 64 n) := by
  have value : (Int32.ofNat n).toInt = n := Int32.toInt_ofNat_of_lt small
  have sign : ¬ Int32.ofNat n < 0 := by
    rw [Int32.lt_iff_toInt_lt, value, Int32.toInt_zero]
    omega
  rw [ofCoordinate, if_neg sign, value, Int.toNat_natCast]
  exact ofNat_ok (Nat.lt_trans small (by decide))

end Multilevel.Word
