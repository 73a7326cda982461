import Mathlib
import Reckon.Proofs.Number.Sign
/-!
# Bit patterns of doubles

The only double whose magnitude is above the infinite one is NaN, and every other bit pattern is that of a double. So
a double that is made from a sign and a magnitude has them, unless the magnitude is too large.
-/

namespace Reckon.Number

open Float.Model (Format UnpackedFloat)
open Float.Model.UnpackedFloat

/-! ## Fields of a bit pattern -/

theorem toNat_unpackExponent (b : BitVec Format.binary64.numBits) :
    (unpackExponent b).toNat = b.toNat / 2 ^ 52 % 2 ^ 11 := by
  rw [unpackExponent_def, BitVec.extractLsb'_toNat, Nat.shiftRight_eq_div_pow]

theorem toNat_unpackMantissa (b : BitVec Format.binary64.numBits) : (unpackMantissa b).toNat = b.toNat % 2 ^ 52 := by
  rw [unpackMantissa_def, BitVec.extractLsb'_toNat, Nat.shiftRight_zero]

theorem unpackExponent_eq_iff (b : BitVec Format.binary64.numBits) :
    unpackExponent b = -1#_ ↔ infinite ≤ b.toNat % 2 ^ 63 := by
  rw [← BitVec.toNat_inj, toNat_unpackExponent]
  show _ = 2047 ↔ 0x7FF0000000000000 ≤ _
  omega

theorem unpackMantissa_eq_iff (b : BitVec Format.binary64.numBits) : unpackMantissa b = 0#_ ↔ b.toNat % 2 ^ 52 = 0 := by
  rw [← BitVec.toNat_inj, toNat_unpackMantissa]
  rfl

/-! ## NaN -/

variable {x y : Float}

theorem isNaN_iff : x.isNaN = true ↔ infinite < magnitude x := by
  have hiff : x.isNaN = true ↔ x.toBits.toBitVec = packedNaN .binary64 := isNaN_unpack_iff_of_valid x.toModel.valid
  rw [hiff, magnitude_eq]
  constructor
  · intro h
    have hnat : x.toBits.toNat = 0x7FF8000000000000 := congrArg BitVec.toNat h
    rw [hnat]
    decide
  · intro h
    have hexponent := (unpackExponent_eq_iff x.toBits.toBitVec).2 (Nat.le_of_lt h)
    refine x.toModel.valid.eq_packedNaN hexponent fun hmantissa => ?_
    have hzero : x.toBits.toNat % 2 ^ 52 = 0 := (unpackMantissa_eq_iff x.toBits.toBitVec).1 hmantissa
    have hmod : x.toBits.toNat % 2 ^ 63 < 2 ^ 63 := Nat.mod_lt _ (by decide)
    unfold infinite at h
    omega

theorem magnitude_le_of_isNaN (h : x.isNaN = false) : magnitude x ≤ infinite := by
  by_contra hlt
  rw [isNaN_iff.2 (Nat.not_le.1 hlt)] at h
  cases h

/-! ## Signs and magnitudes put together -/

theorem toBits_ofBits {n : Nat} (hn : n < 2 ^ 64) (h : n % 2 ^ 63 ≤ infinite) :
    (Float.ofBits (UInt64.ofNat n)).toBits.toNat = n := by
  have hbits : (UInt64.ofNat n).toBitVec.toNat = n := Nat.mod_eq_of_lt hn
  have hvalid : Format.binary64.Valid (UInt64.ofNat n).toBitVec := by
    refine ⟨fun hexponent hmantissa => absurd ((unpackMantissa_eq_iff _).2 ?_) hmantissa⟩
    rw [unpackExponent_eq_iff, hbits] at hexponent
    rw [hbits]
    unfold infinite at h hexponent
    omega
  have hpack : (Float.ofBits (UInt64.ofNat n)).toBits.toBitVec = (UInt64.ofNat n).toBitVec := pack_unpack_of_valid hvalid
  exact (congrArg BitVec.toNat hpack).trans hbits

theorem toBits_ofMagnitude (s : Bool) {b : Nat} (h : b ≤ infinite) :
    (ofMagnitude s b).toBits.toNat = (if s then 2 ^ 63 else 0) + b := by
  have hb : b < 2 ^ 63 := Nat.lt_of_le_of_lt h (by decide)
  unfold ofMagnitude
  cases s with
  | false =>
    rw [if_neg Bool.false_ne_true, toBits_ofBits (by omega) (by rwa [Nat.mod_eq_of_lt hb])]
    simp
  | true =>
    have hmod : (2 ^ 63 + b) % 2 ^ 63 = b := by omega
    rw [if_pos rfl, if_pos rfl, Nat.pow_eq, toBits_ofBits (by omega) (by rwa [hmod])]

theorem isNegative_ofMagnitude (s : Bool) {b : Nat} (h : b ≤ infinite) : isNegative (ofMagnitude s b) = s := by
  have hb : b < 2 ^ 63 := Nat.lt_of_le_of_lt h (by decide)
  rw [isNegative_eq, toBits_ofMagnitude s h]
  cases s with
  | false => simpa using hb
  | true => simp

theorem magnitude_ofMagnitude (s : Bool) {b : Nat} (h : b ≤ infinite) : magnitude (ofMagnitude s b) = b := by
  have hb : b < 2 ^ 63 := Nat.lt_of_le_of_lt h (by decide)
  rw [magnitude_eq, toBits_ofMagnitude s h]
  cases s with
  | false => simpa using Nat.mod_eq_of_lt hb
  | true => rw [if_pos rfl]; omega

end Reckon.Number
