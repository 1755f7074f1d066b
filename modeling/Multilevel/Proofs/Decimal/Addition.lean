import Multilevel.Proofs.Decimal.Parts
import Multilevel.Proofs.Weight

namespace Multilevel.Decimal

open Float.Model Float.Model.UnpackedFloat

section
variable (sign : Sign) (exponent : BitVec 11) (mantissa : BitVec 52)

theorem unpackExponent_packComponents :
    unpackExponent (packComponents .binary64 sign exponent mantissa) = exponent := by
  have low := mantissa.isLt
  have high := exponent.isLt
  refine BitVec.eq_of_toNat_eq ?_
  rw [toNat_unpackExponent, toNat_packComponents, fullMantissa]
  omega

theorem unpackMantissa_packComponents :
    unpackMantissa (packComponents .binary64 sign exponent mantissa) = mantissa := by
  have low := mantissa.isLt
  refine BitVec.eq_of_toNat_eq ?_
  rw [toNat_unpackMantissa, toNat_packComponents, fullMantissa]
  omega

end

theorem isNaN_unpack {b : BitVec Format.binary64.numBits}
    (number : unpackExponent b = -1#11 → unpackMantissa b = 0#52) :
    (UnpackedFloat.unpack .binary64 b).isNaN = false := by
  unfold UnpackedFloat.unpack
  dsimp only
  split
  · rename_i special
    rw [if_pos (number special)]
    rfl
  · split
    · split <;> rfl
    · rfl

theorem isNaN_pack {u : UnpackedFloat} (number : u.isNaN = false) :
    (Float.Model.pack u).isNaN = false := by
  refine isNaN_unpack (b := UnpackedFloat.pack .binary64 u) fun special => ?_
  cases u with
  | notANumber => cases number
  | infinity sign => exact unpackMantissa_packComponents sign (-1#11) 0
  | zero sign => exact unpackMantissa_packComponents sign 0 0
  | finite sign mantissa exponent positive =>
    unfold UnpackedFloat.pack at special ⊢
    dsimp only at special ⊢
    generalize (exponent + Format.binary64.exponentBias +
      Format.binary64.mantissaBitsWithoutImplicit).toNat = biased at special ⊢
    split at special
    · rw [if_pos ‹_›]
      exact unpackMantissa_packComponents sign (-1#11) 0
    · rename_i small
      have bound : ¬ 2 ^ 11 ≤ biased + 1 := small
      split at special
      · have field := (unpackExponent_packComponents sign _ _).symm.trans special
        have value := congrArg BitVec.toNat field
        rw [BitVec.toNat_ofNat, show (-1#11 : BitVec 11).toNat = 0x7ff from rfl] at value
        omega
      · have field := (unpackExponent_packComponents sign _ _).symm.trans special
        cases field

theorem isNaN_normalize (spec : Format) (mantissa exponent : Int) (sign : Sign) :
    (UnpackedFloat.normalize spec mantissa exponent sign).isNaN = false := by
  have rounded (sign : Sign) (mantissa : Nat) :
      (UnpackedFloat.round spec sign mantissa exponent).isNaN = false := by
    unfold UnpackedFloat.round UnpackedFloat.roundWithAccuracy
    dsimp only
    split <;> rfl
  unfold UnpackedFloat.normalize
  split
  · exact rounded _ _
  · rfl
  · exact rounded _ _

theorem isNaN_add_unpacked (spec : Format) {u v : UnpackedFloat} (number : u.isNaN = false)
    (finite : v.isFinite = true) : (UnpackedFloat.add spec u v).isNaN = false := by
  cases u with
  | notANumber => cases number
  | infinity sign =>
    cases v with
    | zero => rfl
    | finite => rfl
    | _ => cases finite
  | zero sign =>
    cases v with
    | zero other =>
      unfold UnpackedFloat.add
      dsimp only
      split <;> rfl
    | finite => rfl
    | _ => cases finite
  | finite sign mantissa exponent positive =>
    cases v with
    | zero => rfl
    | finite => exact isNaN_normalize spec _ _ _
    | _ => cases finite

theorem isNaN_add {x y : Float} (number : x.isNaN = false) (finite : y.isFinite = true) :
    (x + y).isNaN = false :=
  isNaN_pack (isNaN_add_unpacked .binary64 number finite)

theorem isNaN_addAll {start : List Float} {vectors : List (List Float)}
    (number : ∀ x ∈ start, x.isNaN = false) (finite : ∀ v ∈ vectors, ∀ y ∈ v, y.isFinite = true) :
    ∀ x ∈ Weight.addAll start vectors, x.isNaN = false := by
  induction vectors generalizing start with
  | nil => exact number
  | cons v vectors ih =>
    obtain ⟨first, others⟩ := List.forall_mem_cons.mp finite
    refine ih (fun x member => ?_) others
    obtain ⟨i, bound, rfl⟩ := List.mem_iff_getElem.mp member
    rw [List.getElem_zipWith]
    exact isNaN_add (number _ (List.getElem_mem _)) (first _ (List.getElem_mem _))

theorem isNaN_sumOf {dim : Nat} {vectors : List (List Float)}
    (finite : ∀ v ∈ vectors, ∀ y ∈ v, y.isFinite = true) :
    ∀ x ∈ Weight.sumOf dim vectors, x.isNaN = false := by
  refine isNaN_addAll (fun x member => ?_) finite
  rw [List.eq_of_mem_replicate member]
  decide +kernel

theorem isNaN_of_isFinite {x : Float} (finite : x.isFinite = true) : x.isNaN = false := by
  have is : x.toModel.unpack.isFinite = true := finite
  show x.toModel.unpack.isNaN = false
  cases u : x.toModel.unpack with
  | notANumber => rw [u] at is; cases is
  | _ => rfl

end Multilevel.Decimal
