import Mathlib
import Reckon.Proofs.Number.Bits
import Reckon.Proofs.Number.Plain
/-!
# Whole numbers are written without a point

The double nearest to a whole number is whole again, since rounding to 53 binary digits leaves no more digits behind
the point than there were. The search for the shortest decimal of such a double begins on a grid of whole numbers, and
when it comes to the grid of ones it finds the double itself there; so it ends before there is a place behind the
point.
-/

namespace Reckon.Number

/-! ## Magnitudes of whole numbers -/

/-- A magnitude that is put together from an exponent and 53 digits, of which a carry makes one more. -/
theorem units_scaled {scale digits : Nat} (hlow : 2 ^ 52 ≤ digits) (hhigh : digits ≤ 2 ^ 53) :
    units (scale * 2 ^ 52 + digits) = digits * 2 ^ scale := by
  rw [units_eq, if_neg (by omega)]
  rcases Nat.lt_or_eq_of_le hhigh with hlt | rfl
  · have hdiv : (scale * 2 ^ 52 + digits) / 2 ^ 52 - 1 = scale := by omega
    have hmod : 2 ^ 52 + (scale * 2 ^ 52 + digits) % 2 ^ 52 = digits := by omega
    rw [hdiv, hmod]
  · have hdiv : (scale * 2 ^ 52 + 2 ^ 53) / 2 ^ 52 - 1 = scale + 1 := by omega
    have hmod : 2 ^ 52 + (scale * 2 ^ 52 + 2 ^ 53) % 2 ^ 52 = 2 ^ 52 := by omega
    rw [hdiv, hmod, Nat.pow_succ 2 scale, Nat.mul_comm (2 ^ scale), ← Nat.mul_assoc, ← Nat.pow_succ]

theorem log2_mul_two_pow {n : Nat} (h : n ≠ 0) (k : Nat) : (n * 2 ^ k).log2 = n.log2 + k := by
  rw [Nat.log2_eq_iff (Nat.mul_ne_zero h (Nat.ne_of_gt (Nat.two_pow_pos k))), Nat.pow_add, Nat.add_right_comm, Nat.pow_add]
  exact ⟨Nat.mul_le_mul_right _ (Nat.log2_self_le h), Nat.mul_lt_mul_of_pos_right Nat.lt_log2_self (Nat.two_pow_pos k)⟩

theorem log2_mul_unitsInOne {n : Nat} (h : n ≠ 0) : (n * unitsInOne).log2 = n.log2 + 1074 := by
  unfold unitsInOne
  generalize 1074 = k
  exact log2_mul_two_pow h k

/-- Rounding to 53 digits gives no less than the least number that has so many, and at most one above the greatest. -/
theorem roundDiv_mem {n scale : Nat} (hlow : 2 ^ (scale + 52) ≤ n) (hhigh : n < 2 ^ (scale + 53)) :
    2 ^ 52 ≤ roundDiv n (2 ^ scale) ∧ roundDiv n (2 ^ scale) ≤ 2 ^ 53 := by
  have hpos := Nat.two_pow_pos scale
  have hdivLow : 2 ^ 52 ≤ n / 2 ^ scale := by
    rw [Nat.le_div_iff_mul_le hpos, ← Nat.pow_add, Nat.add_comm]
    exact hlow
  have hdivHigh : n / 2 ^ scale < 2 ^ 53 := by
    rw [Nat.div_lt_iff_lt_mul hpos, ← Nat.pow_add, Nat.add_comm]
    exact hhigh
  unfold roundDiv
  dsimp only
  split <;> omega

/-- What is rounded keeps the zeros that it ends in, unless it becomes a multiple of a higher power anyway. -/
theorem dvd_roundDiv (n k scale : Nat) : 2 ^ k ∣ roundDiv (n * 2 ^ k) (2 ^ scale) * 2 ^ scale := by
  rcases Nat.le_total k scale with hle | hle
  · exact Nat.dvd_mul_left_of_dvd (Nat.pow_dvd_pow 2 hle) _
  · have hexact : n * 2 ^ k = n * 2 ^ (k - scale) * 2 ^ scale := by
      rw [Nat.mul_assoc, ← Nat.pow_add, Nat.sub_add_cancel hle]
    rw [hexact, roundDiv_mul _ (Nat.two_pow_pos scale), ← hexact]
    exact Nat.dvd_mul_left ..

theorem unitsInOne_dvd_roundDiv (n scale : Nat) : unitsInOne ∣ roundDiv (n * unitsInOne) (2 ^ scale) * 2 ^ scale := by
  unfold unitsInOne
  generalize 1074 = k
  exact dvd_roundDiv n k scale

/-- The double nearest to a whole number is whole. -/
theorem dvd_units_nearest {n : Nat} (h : nearest n 1 < infinite) : unitsInOne ∣ units (nearest n 1) := by
  by_cases hn : n = 0
  · subst hn
    have hzero : units (nearest 0 1) = 0 := by
      unfold nearest roundDiv
      simp only [Nat.zero_mul, Nat.zero_div, Nat.zero_mod]
      rfl
    rw [hzero]
    exact Nat.dvd_zero _
  · unfold nearest at h ⊢
    simp only [Nat.div_one, Nat.one_mul] at h ⊢
    have hlog := log2_mul_unitsInOne hn
    obtain ⟨scale, hscale⟩ : ∃ scale, n.log2 + 1074 = scale + 52 := ⟨n.log2 + 1022, by omega⟩
    have hne : n * unitsInOne ≠ 0 := Nat.mul_ne_zero hn (Nat.ne_of_gt unitsInOne_pos)
    have hlow := Nat.log2_self_le hne
    have hhigh := @Nat.lt_log2_self (n * unitsInOne)
    rw [hlog, hscale] at hlow hhigh
    obtain ⟨hmin, hmax⟩ := roundDiv_mem hlow hhigh
    rw [hlog, hscale, Nat.add_sub_cancel, Nat.pow_eq, Nat.pow_eq] at h ⊢
    rw [Nat.min_eq_left (by omega), units_scaled hmin hmax]
    exact unitsInOne_dvd_roundDiv n scale

namespace Decimal

variable {tie : Tie} {b exact shift : Nat}

theorem shift_of_neighbour? {d : Decimal} (h : neighbour? tie b exact shift = some d) : d.shift = shift := by
  unfold neighbour? at h
  dsimp only at h
  split at h
  · split at h
    · cases h
      split
      · rfl
      · split <;> rfl
    · cases h
      rfl
  · split at h
    · cases h
      rfl
    · cases h

/-- On a grid that has the exact value it is found. -/
theorem exists_neighbour? (tie : Tie) (hdvd : 10 ^ shift ∣ exact) (h : nearest exact inOne = b) :
    ∃ d, neighbour? tie b exact shift = some d := by
  have hlow : reading ⟨exact / Nat.pow 10 shift, shift⟩ = b := by
    unfold reading
    rw [Nat.pow_eq, Nat.div_mul_cancel hdvd, h]
  unfold neighbour?
  dsimp only
  rw [if_pos hlow]
  split
  · exact ⟨_, rfl⟩
  · exact ⟨_, rfl⟩

/-- From coarse grids the search comes no further than to one that has the exact value. -/
theorem le_shift_search {grid : Nat} (hpos : 0 < grid) (hdvd : 10 ^ grid ∣ exact) (h : nearest exact inOne = b)
    (hle : grid ≤ shift) : grid ≤ (search tie b exact shift).shift := by
  induction shift, hle using Nat.le_induction with
  | base =>
    obtain ⟨d, hd⟩ := exists_neighbour? tie hdvd h
    cases grid with
    | zero => cases hpos
    | succ grid => rw [search, hd, Option.getD_some, shift_of_neighbour? hd]
  | succ shift hle ih =>
    rw [search]
    cases hd : neighbour? tie b exact (shift + 1) with
    | none => exact ih
    | some d =>
      rw [Option.getD_some, shift_of_neighbour? hd]
      omega

theorem le_shift_search_of_whole (hdvd : inOne ∣ exact) (h : nearest exact inOne = b) (hle : 1074 ≤ shift) :
    1074 ≤ (search tie b exact shift).shift := by
  have hpos : 0 < 1074 := by decide
  unfold inOne at hdvd
  generalize 1074 = grid at hpos hdvd hle ⊢
  exact le_shift_search hpos hdvd h hle

/-- Three binary digits and some more for each decimal one. -/
theorem two_pow_le_ten_pow {n m : Nat} (h : n * 28 ≤ 93 * m) : 2 ^ n ≤ 10 ^ m := by
  refine (Nat.pow_le_pow_iff_left (show 28 ≠ 0 by decide)).1 ?_
  calc (2 ^ n) ^ 28 = 2 ^ (n * 28) := (Nat.pow_mul ..).symm
    _ ≤ 2 ^ (93 * m) := Nat.pow_le_pow_right (by decide) h
    _ = (2 ^ 93) ^ m := Nat.pow_mul ..
    _ ≤ (10 ^ 28) ^ m := Nat.pow_le_pow_left (by decide) m
    _ = (10 ^ m) ^ 28 := Nat.pow_right_comm ..

theorem two_pow_le_inOne {n : Nat} (h : n * 28 ≤ 93 * 1074) : 2 ^ n ≤ inOne := by
  unfold inOne
  generalize 1074 = m at h ⊢
  exact two_pow_le_ten_pow h

/-- The search begins on a grid of whole numbers. -/
theorem le_coarsest (hne : exact ≠ 0) (hdvd : inOne ∣ exact) : 1074 ≤ coarsest exact := by
  have hle : inOne ≤ exact := Nat.le_of_dvd (Nat.pos_of_ne_zero hne) hdvd
  have hlog : ∀ n, n * 28 ≤ 93 * 1074 → n ≤ exact.log2 :=
    fun n hn => (Nat.le_log2 hne).2 (Nat.le_trans (two_pow_le_inOne hn) hle)
  have hmany := hlog 3567 (by decide)
  unfold coarsest
  omega

/-- The shortest decimal of a whole number is whole. -/
theorem le_shift_shortest (h : b < infinite) (hdvd : unitsInOne ∣ units b) : 1074 ≤ (shortest tie b).shift := by
  unfold shortest
  by_cases hb : b = 0
  · rw [if_pos hb]
  · have hexact : inOne ∣ units b * inUnit := by
      rw [inOne_eq]
      exact Nat.mul_dvd_mul_right hdvd inUnit
    have hunits : units b ≠ 0 := by
      intro hzero
      have hnearest := nearest_units h
      have hnearestZero : nearest 0 unitsInOne = 0 := nearest_units (b := 0) (by decide)
      rw [hzero, hnearestZero] at hnearest
      exact hb hnearest.symm
    have hcoarsest := le_coarsest (Nat.mul_ne_zero hunits (Nat.ne_of_gt inUnit_pos)) hexact
    rw [if_neg hb]
    exact le_shift_search_of_whole hexact (nearest_exact h) hcoarsest

end Decimal

/-! ## Plain texts of whole numbers -/

theorem nearest_le (num den : Nat) : nearest num den ≤ infinite := Nat.min_le_right ..

/-- A literal has no sign. -/
theorem isNegative_ofLiteral (text : List Char) : isNegative (ofLiteral text) = false :=
  isNegative_ofMagnitude false (nearest_le ..)

variable {text : List Char}

theorem not_mem_point {d : Decimal} (h : 1074 ≤ d.shift) : '.' ∉ (Layout.plain.point d).toList := by
  intro hdot
  unfold Layout.point at hdot
  rw [if_pos h, Layout.plain, String.append_empty] at hdot
  cases isDigit_of_mem_repr hdot

/-- The value of digits without a point is written without a point. -/
theorem not_mem_plain_of_digits (hne : text ≠ []) (h : ∀ c ∈ text, c.isDigit) (hf : isFinite (ofLiteral text) = true) :
    '.' ∉ (plain (ofLiteral text)).toList := by
  have hvalue := (literal_integer hne h).value
  rw [hvalue] at hf ⊢
  unfold ofDigits at hf ⊢
  generalize Nat.ofDigitChars 10 text 0 = n at hf ⊢
  have hle := nearest_le n 1
  have hlt : nearest n 1 < infinite := by
    have hlt := of_decide_eq_true hf
    rwa [Nat.pow_eq, Nat.pow_zero, magnitude_ofMagnitude false hle] at hlt
  rw [Nat.pow_eq, Nat.pow_zero] at hf ⊢
  rw [plain_of_isFinite hf, isNegative_ofMagnitude false hle, magnitude_ofMagnitude false hle, if_neg Bool.false_ne_true]
  unfold Layout.decimal
  rw [if_pos (.inr rfl)]
  exact not_mem_point (Decimal.le_shift_shortest hlt (dvd_units_nearest hlt))

end Reckon.Number
