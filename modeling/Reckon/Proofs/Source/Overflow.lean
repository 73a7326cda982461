import Reckon.Source.Span
/-!
# Counters that run over

Lines and columns are counted in 32 bits. What becomes of a counter that runs over depends on how the program is
built: with overflow checks it panics, and without them it goes on from zero. `Overflow.hold?` is the counter in
either build, and `hold?_add` lets a count that is made step by step be seen as one that is made at once.
-/

namespace Reckon

/-- What a counter does that runs over. -/
inductive Overflow where
  | panics
  | wraps
  deriving DecidableEq, Repr

namespace Overflow

/-- What 32 bits hold of a number. -/
def low (n : Nat) : Nat := n % (Span.maxOffset + 1)

/-- The number as a counter holds it, unless the counter panics. -/
def hold? (o : Overflow) (n : Nat) : Option Nat :=
  if n ≤ Span.maxOffset then some n
  else
    match o with
    | panics => none
    | wraps => some (low n)

variable {o : Overflow} {n m : Nat}

theorem low_of_le (h : n ≤ Span.maxOffset) : low n = n := Nat.mod_eq_of_lt (Nat.lt_succ_of_le h)

theorem hold?_of_le (o : Overflow) (h : n ≤ Span.maxOffset) : o.hold? n = some n := if_pos h

theorem hold?_wraps (n : Nat) : wraps.hold? n = some (low n) := by
  by_cases h : n ≤ Span.maxOffset
  · rw [hold?_of_le wraps h, low_of_le h]
  · exact if_neg h

theorem hold?_panics (n : Nat) : panics.hold? n = if n ≤ Span.maxOffset then some n else none := rfl

theorem hold?_panics_eq_some_iff : panics.hold? n = some m ↔ n ≤ Span.maxOffset ∧ n = m := by
  rw [hold?_panics, Option.ite_none_right_eq_some, Option.some.injEq]

/-- A counter gives nothing just when it is checked and has run over. -/
theorem hold?_eq_none_iff : o.hold? n = none ↔ o = .panics ∧ Span.maxOffset < n := by
  cases o with
  | panics => simp [hold?_panics]
  | wraps => simp [hold?_wraps]

theorem eq_low_of_hold? (h : o.hold? n = some m) : m = low n := by
  cases o with
  | panics =>
    obtain ⟨hle, rfl⟩ := hold?_panics_eq_some_iff.1 h
    exact (low_of_le hle).symm
  | wraps =>
    rw [hold?_wraps] at h
    exact (Option.some.inj h).symm

/-- Counting on from what is held is counting on from the number itself. -/
theorem hold?_add (h : o.hold? n = some m) (k : Nat) : o.hold? (m + k) = o.hold? (n + k) := by
  cases o with
  | panics =>
    obtain ⟨-, rfl⟩ := hold?_panics_eq_some_iff.1 h
    rfl
  | wraps =>
    rw [hold?_wraps, hold?_wraps, eq_low_of_hold? h, low, low, low, Nat.mod_add_mod]

/-- A counter that has not panicked had not before. -/
theorem exists_hold?_of_le (h : o.hold? n = some m) {k : Nat} (hk : k ≤ n) : ∃ i, o.hold? k = some i := by
  cases o with
  | panics =>
    obtain ⟨hle, -⟩ := hold?_panics_eq_some_iff.1 h
    exact ⟨k, hold?_of_le _ (Nat.le_trans hk hle)⟩
  | wraps => exact ⟨_, hold?_wraps k⟩

/-- A walk that counts one more and goes on gives what it gives with the final count. Where the counter panics at
once, it would panic at the final count as well. -/
theorem bind_hold?_succ {α : Type} {walk : Nat → Option α} {f : Nat → α} {final : Nat} (h : o.hold? n = some m)
    (hle : n + 1 ≤ final) (hwalk : ∀ k, o.hold? (n + 1) = some k → walk k = (o.hold? final).map f) :
    (o.hold? (m + 1)).bind walk = (o.hold? final).map f := by
  rw [hold?_add h]
  cases hnext : o.hold? (n + 1) with
  | some k => exact hwalk k hnext
  | none =>
    cases hfinal : o.hold? final with
    | none => rfl
    | some i =>
      obtain ⟨k, hk⟩ := exists_hold?_of_le hfinal hle
      cases hnext.symm.trans hk

/-! ## Truncated counts -/

/-- The number behind what 32 bits hold of a count, unless the counter panics. -/
def after? (o : Overflow) (n : Nat) : Option Nat := o.hold? (low n + 1)

theorem eq_low_of_after? (h : o.after? n = some m) : m = low (n + 1) := by
  rw [eq_low_of_hold? h, low, low, low, Nat.mod_add_mod]

-- What is cut off before the counter counts on, no check sees.
example : panics.after? 0x100000000 = some 1 := by decide

theorem of_after?_eq_none (h : o.after? n = none) : o = .panics ∧ Span.maxOffset ≤ n := by
  obtain ⟨ho, hlt⟩ := hold?_eq_none_iff.1 h
  exact ⟨ho, Nat.le_trans (Nat.le_of_lt_succ hlt) (Nat.mod_le n _)⟩

end Overflow

end Reckon
