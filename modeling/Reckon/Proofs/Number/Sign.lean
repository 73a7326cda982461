import Mathlib
import Reckon.Number.Magnitude
/-!
# Signs of doubles

A double is its sign and its magnitude. Negation flips the sign and keeps the magnitude, so it undoes itself; NaN, the
only double of its magnitude, is left as it is.
-/

namespace Reckon.Number

open Float.Model (Format UnpackedFloat)
open Float.Model.UnpackedFloat (packComponents)

/-! ## Packed bits -/

/-- Negation flips the sign of what is packed, unless it is not a number. -/
theorem exists_packComponents (spec : Format) {u : UnpackedFloat} (h : u ≠ .notANumber) : ∃ s e m,
    u.pack spec = packComponents spec s e m ∧ u.neg.pack spec = packComponents spec (-s) e m := by
  cases u with
  | notANumber => exact absurd rfl h
  | infinity s | zero s => exact ⟨s, _, _, rfl, rfl⟩
  | finite s m e hm =>
    unfold UnpackedFloat.neg UnpackedFloat.pack
    dsimp only
    split
    · exact ⟨s, _, _, rfl, rfl⟩
    · split
      · exact ⟨s, _, _, rfl, rfl⟩
      · exact ⟨s, _, _, rfl, rfl⟩

theorem toNat_append_eq_add {m n : Nat} (x : BitVec m) (y : BitVec n) :
    (x ++ y).toNat = x.toNat * 2 ^ n + y.toNat := by
  rw [BitVec.toNat_append, ← Nat.shiftLeft_add_eq_or_of_lt y.isLt, Nat.shiftLeft_eq]

theorem toNat_packComponents (s : UnpackedFloat.Sign) (e m) : (packComponents Format.binary64 s e m).toNat =
    s.toBitVec.toNat * 2 ^ 63 + (e ++ m).toNat := by
  unfold packComponents
  rw [toNat_append_eq_add, toNat_append_eq_add, toNat_append_eq_add]
  show (_ * 2 ^ 11 + _) * 2 ^ 52 + _ = _ * 2 ^ 63 + (_ * 2 ^ 52 + _)
  omega

theorem unpack_ne_notANumber {x : Float} (h : isFinite x = true) : x.toModel.unpack ≠ .notANumber := by
  intro hu
  have hbits : x.toBits.toBitVec = UnpackedFloat.packedNaN .binary64 :=
    (UnpackedFloat.unpack_eq_notANumber_iff_of_valid x.toModel.valid).1 hu
  have hnat : x.toBits.toNat = 0x7FF8000000000000 := congrArg BitVec.toNat hbits
  unfold isFinite magnitude infinite at h
  rw [hnat] at h
  cases h

/-! ## Sign and magnitude -/

variable {x y : Float}

theorem magnitude_eq (x : Float) : magnitude x = x.toBits.toNat % 2 ^ 63 := rfl

theorem isNegative_eq (x : Float) : isNegative x = decide (2 ^ 63 ≤ x.toBits.toNat) := rfl

theorem toBits_of_isNegative : x.toBits.toNat = (if isNegative x then 2 ^ 63 else 0) + magnitude x := by
  have hlt := x.toBits.toNat_lt
  rw [isNegative_eq, magnitude_eq]
  by_cases h : 2 ^ 63 ≤ x.toBits.toNat
  · rw [if_pos (decide_eq_true h)]
    omega
  · rw [if_neg (by simpa using h)]
    omega

theorem eq_of_magnitude (hs : isNegative x = isNegative y) (hm : magnitude x = magnitude y) : x = y := by
  refine Float.toBits_inj.1 (UInt64.toNat_inj.1 ?_)
  rw [toBits_of_isNegative, toBits_of_isNegative (x := y), hs, hm]

theorem ofMagnitude_magnitude (x : Float) : ofMagnitude (isNegative x) (magnitude x) = x := by
  have hbits : (if isNegative x then Nat.pow 2 63 + magnitude x else magnitude x) = x.toBits.toNat := by
    rw [toBits_of_isNegative, Nat.pow_eq]
    split <;> omega
  unfold ofMagnitude
  rw [hbits, UInt64.ofNat_toNat, Float.ofBits_toBits]

/-- Negation flips the sign and keeps the magnitude. -/
theorem sign_neg (h : isFinite x = true) : isNegative (-x) = !isNegative x ∧ magnitude (-x) = magnitude x := by
  obtain ⟨s, e, m, hx, hneg⟩ := exists_packComponents .binary64 (unpack_ne_notANumber h)
  have hbits : x.toBits.toNat = s.toBitVec.toNat * 2 ^ 63 + (e ++ m).toNat := by
    rw [← toNat_packComponents, ← hx]
    exact congrArg BitVec.toNat (UnpackedFloat.pack_unpack_of_valid x.toModel.valid).symm
  have hbitsNeg : (-x).toBits.toNat = (-s).toBitVec.toNat * 2 ^ 63 + (e ++ m).toNat := by
    rw [← toNat_packComponents, ← hneg]
    rfl
  have hlt : (e ++ m).toNat < 2 ^ 63 := (e ++ m).isLt
  -- Behind their signs the two have the same bits.
  have hflip : s.toBitVec.toNat + (-s).toBitVec.toNat = 1 := by cases s <;> rfl
  rw [isNegative_eq, isNegative_eq, magnitude_eq, magnitude_eq, hbits, hbitsNeg, ← decide_not, decide_eq_decide]
  omega

theorem neg_neg_of_isFinite (h : isFinite x = true) : - -x = x := by
  obtain ⟨hs, hm⟩ := sign_neg h
  have hfinite : isFinite (-x) = true := by
    unfold isFinite at h ⊢
    rwa [hm]
  obtain ⟨hs', hm'⟩ := sign_neg hfinite
  refine eq_of_magnitude ?_ (hm'.trans hm)
  rw [hs', hs, Bool.not_not]

end Reckon.Number
