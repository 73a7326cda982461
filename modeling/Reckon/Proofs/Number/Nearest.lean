import Mathlib.Algebra.Group.Nat.Defs
import Reckon.Number.Decimal
/-!
# Rounding to a magnitude

The magnitude nearest to a fraction depends on the fraction only, not on how it is expanded, and what a finite magnitude
stands for is rounded to that magnitude. So the shortest decimal of a magnitude, and any other that the search tries and
takes, reads back.
-/

namespace Reckon.Number

/-! ## Rounding to a whole number -/

theorem roundDiv_mul (k : Nat) {den : Nat} (h : 0 < den) : roundDiv (k * den) den = k := by
  unfold roundDiv
  simp only [Nat.mul_div_cancel _ h, Nat.mul_mod_left, Nat.mul_zero]
  rw [if_pos (.inl h)]

theorem roundDiv_scale (num den : Nat) {k : Nat} (hk : 0 < k) : roundDiv (num * k) (den * k) = roundDiv num den := by
  have hrest : 2 * (num * k % (den * k)) = 2 * (num % den) * k := by
    rw [Nat.mul_mod_mul_right, Nat.mul_assoc]
  unfold roundDiv
  simp only [hrest, Nat.mul_div_mul_right _ _ hk, Nat.mul_lt_mul_right hk, Nat.mul_left_inj (Nat.ne_of_gt hk)]

/-! ## Rounding to a magnitude -/

theorem unitsInOne_pos : 0 < unitsInOne := by
  unfold unitsInOne
  generalize 1074 = n
  exact Nat.two_pow_pos n

theorem nearest_scale (num den : Nat) {k : Nat} (hk : 0 < k) : nearest (num * k) (den * k) = nearest num den := by
  have hnum : num * k * unitsInOne = num * unitsInOne * k := Nat.mul_right_comm ..
  unfold nearest
  simp only [hnum, Nat.mul_div_mul_right _ _ hk]
  rw [Nat.mul_right_comm den k, roundDiv_scale _ _ hk]

/-- A fraction of units rounds as the units do. -/
theorem nearest_unitsInOne (n : Nat) :
    nearest n unitsInOne = min ((n.log2 - 52) * 2 ^ 52 + roundDiv n (2 ^ (n.log2 - 52))) infinite := by
  unfold nearest
  simp only [Nat.mul_div_cancel _ unitsInOne_pos]
  rw [Nat.mul_comm unitsInOne, roundDiv_scale _ _ unitsInOne_pos, Nat.pow_eq, Nat.pow_eq]

theorem units_eq (b : Nat) :
    units b = if b < 2 ^ 52 then b else (2 ^ 52 + b % 2 ^ 52) * 2 ^ (b / 2 ^ 52 - 1) := rfl

/-- Rounding gives a finite magnitude back. -/
theorem nearest_units {b : Nat} (h : b < infinite) : nearest (units b) unitsInOne = b := by
  rw [nearest_unitsInOne]
  by_cases hb : b < 2 ^ 52
  · have hlog : b.log2 - 52 = 0 := by
      by_cases h0 : b = 0
      · subst h0
        rfl
      · have := (Nat.log2_lt h0).2 hb
        omega
    have hround : roundDiv b 1 = b := by simpa using roundDiv_mul b Nat.one_pos
    rw [units_eq, if_pos hb, hlog, Nat.pow_zero, hround]
    omega
  · -- the exponent, and the 53 digits behind it
    have hdiv := Nat.div_add_mod b (2 ^ 52)
    have hpos : 0 < b / 2 ^ 52 := Nat.div_pos (Nat.not_lt.1 hb) (Nat.two_pow_pos _)
    have hmod := Nat.mod_lt b (Nat.two_pow_pos 52)
    generalize hs : b / 2 ^ 52 - 1 = shift
    generalize hm : 2 ^ 52 + b % 2 ^ 52 = digits
    have hlog : (digits * 2 ^ shift).log2 = 52 + shift := by
      have hne : digits * 2 ^ shift ≠ 0 := Nat.ne_of_gt (Nat.mul_pos (by omega) (Nat.two_pow_pos _))
      rw [Nat.log2_eq_iff hne, Nat.pow_add, Nat.add_right_comm, Nat.pow_add 2 (52 + 1)]
      exact ⟨Nat.mul_le_mul_right _ (by omega), Nat.mul_lt_mul_of_pos_right (by omega) (Nat.two_pow_pos _)⟩
    have hunits : units b = digits * 2 ^ shift := by
      rw [units_eq, if_neg hb, hs, hm]
    rw [hunits, hlog, Nat.add_sub_cancel_left, roundDiv_mul _ (Nat.two_pow_pos _)]
    omega

/-! ## Decimals that read back -/

namespace Decimal

theorem inUnit_pos : 0 < inUnit := by
  unfold inUnit
  generalize 1074 = n
  exact Nat.pow_pos (by decide)

theorem inOne_eq : inOne = unitsInOne * inUnit := by
  unfold inOne unitsInOne inUnit
  generalize 1074 = n
  exact Nat.mul_pow 2 5 n

/-- The exact value of a finite magnitude reads back. -/
theorem nearest_exact {b : Nat} (h : b < infinite) : nearest (units b * inUnit) inOne = b := by
  rw [inOne_eq, nearest_scale _ _ inUnit_pos, nearest_units h]

variable {tie : Tie} {b exact shift : Nat}

theorem reading_of_neighbour? {d : Decimal} (h : neighbour? tie b exact shift = some d) : d.reading = b := by
  -- A neighbour is taken only if it reads back, so it does not matter which of the two is nearer.
  unfold neighbour? at h
  by_cases hlow : reading ⟨exact / Nat.pow 10 shift, shift⟩ = b
  · by_cases hhigh : reading ⟨exact / Nat.pow 10 shift + 1, shift⟩ = b
    · simp only [if_pos hlow, if_pos hhigh, Option.some.injEq] at h
      subst h
      split
      · exact hlow
      · split
        · exact hlow
        · exact hhigh
    · simp only [if_pos hlow, if_neg hhigh, Option.some.injEq] at h
      exact h ▸ hlow
  · by_cases hhigh : reading ⟨exact / Nat.pow 10 shift + 1, shift⟩ = b
    · simp only [if_neg hlow, if_pos hhigh, Option.some.injEq] at h
      exact h ▸ hhigh
    · simp only [if_neg hlow, if_neg hhigh, reduceCtorEq] at h

/-- The search keeps to decimals that read back. -/
theorem reading_search (h : nearest exact inOne = b) : ∀ shift, (search tie b exact shift).reading = b
  | 0 => by
    unfold search reading
    rw [Nat.pow_eq, Nat.pow_zero, Nat.mul_one, h]
  | shift + 1 => by
    unfold search
    cases hd : neighbour? tie b exact (shift + 1) with
    | none => exact reading_search h shift
    | some d => exact reading_of_neighbour? hd

theorem reading_zero (shift : Nat) : reading ⟨0, shift⟩ = nearest 0 inOne := by
  unfold reading
  rw [Nat.zero_mul]

theorem reading_shortest (tie : Tie) {b : Nat} (h : b < infinite) : (shortest tie b).reading = b := by
  unfold shortest
  by_cases hb : b = 0
  · subst hb
    have hunits : units 0 = 0 := rfl
    have hzero := nearest_exact h
    rw [hunits, Nat.zero_mul] at hzero
    rw [if_pos rfl, reading_zero, hzero]
  · rw [if_neg hb]
    exact reading_search (nearest_exact h) _

end Decimal

end Reckon.Number
