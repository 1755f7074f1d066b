import Multilevel.Proofs.Decimal.Rounding

namespace Multilevel.Decimal

open Float.Model Float.Model.UnpackedFloat

/-! ### Bits -/

theorem toNat_packComponents (sign : Sign) (exponent : BitVec 11) (mantissa : BitVec 52) :
    (packComponents .binary64 sign exponent mantissa).toNat =
      sign.toBitVec.toNat * 2 ^ 63 + exponent.toNat * 2 ^ 52 + mantissa.toNat := by
  have head : (sign.toBitVec ++ exponent).toNat = sign.toBitVec.toNat * 2 ^ 11 + exponent.toNat := by
    rw [BitVec.toNat_append, ← Nat.shiftLeft_add_eq_or_of_lt exponent.isLt, Nat.shiftLeft_eq]
  show (sign.toBitVec ++ exponent ++ mantissa).toNat = _
  rw [BitVec.toNat_append, ← Nat.shiftLeft_add_eq_or_of_lt mantissa.isLt, head, Nat.shiftLeft_eq]
  omega

section
variable (b : BitVec Format.binary64.numBits)

theorem toNat_unpackMantissa : (unpackMantissa b).toNat = b.toNat % fullMantissa := by
  simp [unpackMantissa, fullMantissa]

theorem toNat_unpackExponent :
    (unpackExponent b).toNat = b.toNat / fullMantissa % 0x800 := by
  simp [unpackExponent, Nat.shiftRight_eq_div_pow, fullMantissa]

theorem toNat_unpackSign : (unpackSign b).toNat = b.toNat / 0x8000000000000000 := by
  have bound : b.toNat < 2 ^ 64 := b.isLt
  simp [unpackSign, Nat.shiftRight_eq_div_pow]
  omega

end

/-! ### Numbers as their parts -/

def sign (negative : Bool) : Sign := if negative then .negative else .positive

def Parts.unpacked : Parts → UnpackedFloat
  | .notANumber => .notANumber
  | .infinite negative => .infinity (sign negative)
  | .finite negative b =>
    if h : 0 < b.mantissa then .finite (sign negative) b.mantissa b.exponent h
    else .zero (sign negative)

/-- A magnitude that double precision has. -/
structure Binary.Fits (b : Binary) : Prop extends b.Canonical where
  greatest : b.exponent ≤ 971

theorem fits_of_parts {x : Float} {negative : Bool} {b : Binary}
    (is : parts x = .finite negative b) (positive : 0 < b.mantissa) : b.Fits := by
  unfold parts at is
  dsimp only at is
  have fraction : x.toBits.toNat % fullMantissa < fullMantissa := Nat.mod_lt _ (by decide)
  have selector : x.toBits.toNat / fullMantissa % 0x800 < 0x800 := Nat.mod_lt _ (by decide)
  have least : leastExponent = -1074 := rfl
  split at is
  · split at is <;> cases is
  · split at is
    · obtain ⟨-, rfl⟩ := Parts.finite.inj is
      exact ⟨⟨positive, by dsimp only; omega, Int.le_refl _, .inr rfl⟩, by dsimp only; omega⟩
    · obtain ⟨-, rfl⟩ := Parts.finite.inj is
      refine ⟨⟨positive, ?_, ?_, .inl ?_⟩, ?_⟩ <;> dsimp only <;> omega

theorem ofBitVec_eq (b : BitVec 1) : Sign.ofBitVec b = sign (decide (b.toNat = 1)) := by
  have cases : b = 0#1 ∨ b = 1#1 := by
    have := b.isLt
    rcases (by omega : b.toNat = 0 ∨ b.toNat = 1) with zero | one
    · exact .inl (BitVec.eq_of_toNat_eq zero)
    · exact .inr (BitVec.eq_of_toNat_eq one)
  rcases cases with rfl | rfl <;> rfl

theorem unpack_toModel (x : Float) : x.toModel.unpack = (parts x).unpacked := by
  let b : BitVec Format.binary64.numBits := x.toModel.toBits.toBitVec
  have exponent := toNat_unpackExponent b
  have mantissa := toNat_unpackMantissa b
  have signed := toNat_unpackSign b
  have bits : x.toBits.toNat = b.toNat := rfl
  show UnpackedFloat.unpack .binary64 b = _
  unfold UnpackedFloat.unpack parts
  rw [bits]
  dsimp only
  rw [← exponent, ← mantissa, ← signed, ofBitVec_eq]
  generalize decide ((unpackSign b).toNat = 1) = negative
  have zero : unpackMantissa b = 0#_ ↔ (unpackMantissa b).toNat = 0 :=
    ⟨congrArg BitVec.toNat, fun h => BitVec.eq_of_toNat_eq h⟩
  have low : unpackExponent b = 0#_ ↔ (unpackExponent b).toNat = 0 :=
    ⟨congrArg BitVec.toNat, fun h => BitVec.eq_of_toNat_eq h⟩
  have high : unpackExponent b = -1#_ ↔ (unpackExponent b).toNat = 0x7ff :=
    ⟨congrArg BitVec.toNat, fun h => BitVec.eq_of_toNat_eq h⟩
  have bias : (Format.binary64.exponentBias : Int) = 1023 := rfl
  by_cases special : (unpackExponent b).toNat = 0x7ff
  · rw [if_pos special, if_pos (high.mpr special)]
    by_cases none : (unpackMantissa b).toNat = 0
    · rw [if_pos none, if_pos (zero.mpr none)]
      rfl
    · rw [if_neg none, if_neg (mt zero.mp none)]
      rfl
  · rw [if_neg special, if_neg (mt high.mp special)]
    by_cases least : (unpackExponent b).toNat = 0
    · rw [if_pos least, if_pos (low.mpr least), Parts.unpacked]
      by_cases none : (unpackMantissa b).toNat = 0
      · rw [dif_pos (zero.mpr none), dif_neg (by dsimp only; omega)]
      · rw [dif_neg (mt zero.mp none), dif_pos (Nat.pos_of_ne_zero none),
          UnpackedFloat.finite.injEq]
        refine ⟨rfl, rfl, ?_⟩
        rw [bias, least]
        rfl
    · have whole : (1#1 ++ unpackMantissa b).toNat = fullMantissa + (unpackMantissa b).toNat := by
        rw [BitVec.toNat_append, ← Nat.shiftLeft_add_eq_or_of_lt (unpackMantissa b).isLt]
        rfl
      rw [if_neg least, if_neg (mt low.mp least), Parts.unpacked,
        dif_pos (Nat.add_pos_left (by decide) _), UnpackedFloat.finite.injEq]
      refine ⟨rfl, whole, ?_⟩
      rw [bias]
      dsimp only [leastExponent]
      omega

theorem model_ext {f g : Float.Model} (same : f.toBits.toNat = g.toBits.toNat) : f = g := by
  obtain ⟨bits, _⟩ := f
  obtain ⟨others, _⟩ := g
  obtain rfl : bits = others := UInt64.toNat_inj.mp same
  rfl

theorem pack_finite {b : Binary} (fits : b.Fits) (sign : Sign) :
    UnpackedFloat.pack .binary64 (.finite sign b.mantissa b.exponent fits.positive) =
      packComponents .binary64 sign
        (if fullMantissa ≤ b.mantissa then BitVec.ofNat 11 (b.exponent + 1075).toNat else 0)
        (BitVec.ofNat 52 b.mantissa) := by
  have least : -1074 ≤ b.exponent := fits.least
  have greatest := fits.greatest
  have positive := fits.positive.ne'
  have biased : (b.exponent + Format.binary64.exponentBias +
      Format.binary64.mantissaBitsWithoutImplicit).toNat = (b.exponent + 1075).toNat := by
    have bias : (Format.binary64.exponentBias : Int) = 1023 := rfl
    rw [bias]
    dsimp only
    omega
  have digits : b.mantissa.log2 + 1 = Format.binary64.mantissaBits ↔ fullMantissa ≤ b.mantissa := by
    have narrow : b.mantissa.log2 < 53 := (Nat.log2_lt positive).mpr fits.narrow
    have full : 52 ≤ b.mantissa.log2 ↔ fullMantissa ≤ b.mantissa := Nat.le_log2 positive
    show b.mantissa.log2 + 1 = 53 ↔ _
    omega
  unfold UnpackedFloat.pack
  dsimp only
  rw [biased, if_neg (by omega)]
  split
  · rename_i full
    rw [if_pos (digits.mp full)]
  · rename_i short
    rw [if_neg (mt digits.mpr short)]
    rfl

theorem toNat_sign (bits : Nat) (bound : bits < 2 ^ 64) :
    (sign (decide (bits / 0x8000000000000000 = 1))).toBitVec.toNat = bits / 0x8000000000000000 := by
  rcases (by omega : bits / 0x8000000000000000 = 0 ∨ bits / 0x8000000000000000 = 1) with h | h <;>
    rw [h] <;> rfl

theorem bits_infinite {x : Float} {negative : Bool} (is : parts x = .infinite negative) :
    x.toBits.toNat = (sign negative).toBitVec.toNat * 2 ^ 63 + 0x7ff * 2 ^ 52 := by
  have bound : x.toBits.toNat < 2 ^ 64 := x.toBits.toNat_lt
  unfold parts fullMantissa at is
  dsimp only at is
  split at is
  · split at is
    · obtain rfl := Parts.infinite.inj is
      rw [toNat_sign _ bound]
      omega
    · cases is
  · split at is <;> cases is

def bitsOf (negative : Bool) (b : Binary) : Nat :=
  (sign negative).toBitVec.toNat * 2 ^ 63 +
    (if fullMantissa ≤ b.mantissa then (b.exponent + 1075).toNat else 0) * 2 ^ 52 +
      b.mantissa % 2 ^ 52

theorem bits_finite {x : Float} {negative : Bool} {b : Binary} (is : parts x = .finite negative b) :
    x.toBits.toNat = bitsOf negative b := by
  have bound : x.toBits.toNat < 2 ^ 64 := x.toBits.toNat_lt
  unfold parts leastExponent fullMantissa at is
  unfold bitsOf fullMantissa
  dsimp only at is
  split at is
  · split at is <;> cases is
  · split at is
    · obtain ⟨rfl, rfl⟩ := Parts.finite.inj is
      rw [toNat_sign _ bound]
      dsimp only
      rw [if_neg (by omega)]
      omega
    · obtain ⟨rfl, rfl⟩ := Parts.finite.inj is
      rw [toNat_sign _ bound]
      dsimp only
      rw [if_pos (by omega)]
      omega

theorem parts_eq {x : Float} {negative : Bool} {b : Binary} (fits : b.Fits)
    (bits : x.toBits.toNat = bitsOf negative b) : parts x = .finite negative b := by
  obtain ⟨mantissa, exponent⟩ := b
  obtain ⟨⟨positive, narrow, least, full⟩, greatest⟩ := fits
  have signBit : (sign negative).toBitVec.toNat = negative.toNat := by cases negative <;> rfl
  unfold bitsOf at bits
  unfold leastExponent at least full
  unfold fullMantissa at narrow full bits
  dsimp only at *
  rw [signBit] at bits
  have bit : negative.toNat < 2 := Bool.toNat_lt negative
  unfold parts leastExponent fullMantissa
  dsimp only
  have signed : decide (x.toBits.toNat / 0x8000000000000000 = 1) = negative := by
    split at bits <;> cases negative <;> simp at bits ⊢ <;> omega
  rw [signed]
  split at bits
  · rw [if_neg (by omega), if_neg (by omega), Parts.finite.injEq, Binary.mk.injEq]
    refine ⟨rfl, ?_, ?_⟩ <;> omega
  · rw [if_neg (by omega), if_pos (by omega), Parts.finite.injEq, Binary.mk.injEq]
    refine ⟨rfl, ?_, ?_⟩ <;> omega

theorem toNat_pack {b : Binary} (fits : b.Fits) (negative : Bool) :
    (UnpackedFloat.pack .binary64
      (.finite (sign negative) b.mantissa b.exponent fits.positive)).toNat = bitsOf negative b := by
  have least : -1074 ≤ b.exponent := fits.least
  have greatest := fits.greatest
  rw [pack_finite fits, toNat_packComponents, BitVec.toNat_ofNat, bitsOf]
  split
  · rw [BitVec.toNat_ofNat, Nat.mod_eq_of_lt (by omega)]
  · rfl

theorem pack_parts {x : Float} (number : parts x ≠ .notANumber) :
    Float.Model.pack (parts x).unpacked = x.toModel := by
  apply model_ext
  show (UnpackedFloat.pack .binary64 (parts x).unpacked).toNat = x.toBits.toNat
  cases is : parts x with
  | notANumber => exact absurd is number
  | infinite negative =>
    have packed := toNat_packComponents (sign negative) (-1#11) 0
    rw [show (-1#11 : BitVec 11).toNat = 0x7ff from rfl, show BitVec.toNat 0 = 0 from rfl,
      Nat.add_zero] at packed
    rw [bits_infinite is]
    exact packed
  | finite negative b =>
    rw [bits_finite is, Parts.unpacked]
    split
    · rename_i positive
      exact toNat_pack (fits_of_parts is positive) negative
    · rename_i zero
      obtain none : b.mantissa = 0 := by omega
      have packed := toNat_packComponents (sign negative) 0 0
      rw [bitsOf, none, if_neg (by decide)]
      exact packed

theorem unpack_pack {b : Binary} (fits : b.Fits) (negative : Bool) :
    (Float.Model.pack (.finite (sign negative) b.mantissa b.exponent fits.positive)).unpack =
      .finite (sign negative) b.mantissa b.exponent fits.positive := by
  have is := parts_eq (x := .ofModel (.pack (.finite (sign negative) b.mantissa b.exponent
    fits.positive))) fits (toNat_pack fits negative)
  have read := unpack_toModel (.ofModel (.pack (.finite (sign negative) b.mantissa b.exponent
    fits.positive)))
  rw [is, Parts.unpacked, dif_pos fits.positive] at read
  exact read

theorem parts_number {x : Float} (number : x.isNaN = false) : parts x ≠ .notANumber := by
  intro is
  have nan : x.toModel.unpack.isNaN = false := number
  rw [unpack_toModel, is] at nan
  cases nan

theorem toModel_neg {x : Float} {b : Binary} (fits : 0 < b.mantissa → b.Fits)
    (is : x.toModel = Float.Model.pack (Parts.finite false b).unpacked) :
    (-x).toModel = Float.Model.pack (Parts.finite true b).unpacked := by
  show Float.Model.pack x.toModel.unpack.neg = _
  rw [is, Parts.unpacked, Parts.unpacked]
  by_cases positive : 0 < b.mantissa
  · rw [dif_pos positive, dif_pos positive, unpack_pack (fits positive)]
    rfl
  · rw [dif_neg positive, dif_neg positive]
    rfl

/-! ### Numbers as their bits -/

theorem bits_notANumber {x : Float} (is : parts x = .notANumber) :
    x.toModel.toBits.toBitVec = packedNaN .binary64 := by
  let b : BitVec Format.binary64.numBits := x.toModel.toBits.toBitVec
  have exponent := toNat_unpackExponent b
  have mantissa := toNat_unpackMantissa b
  have bits : x.toBits.toNat = b.toNat := rfl
  unfold parts at is
  rw [bits] at is
  dsimp only at is
  rw [← exponent, ← mantissa] at is
  split at is
  · rename_i special
    split at is
    · cases is
    · rename_i payload
      refine x.toModel.valid.eq_packedNaN (BitVec.eq_of_toNat_eq special) fun zero => payload ?_
      exact congrArg BitVec.toNat zero
  · split at is <;> cases is

theorem pack_unpack (x : Float) : Float.Model.pack x.toModel.unpack = x.toModel := by
  rw [unpack_toModel]
  by_cases is : parts x = .notANumber
  · rw [is]
    apply model_ext
    exact congrArg BitVec.toNat (bits_notANumber is).symm
  · exact pack_parts is

theorem ofBits_toBits (x : Float) : Float.ofBits x.toBits = x :=
  congrArg Float.ofModel (pack_unpack x)

end Multilevel.Decimal
