import Mathlib.Algebra.Group.Nat.Defs
import Reckon.Number.Layout
import Reckon.Number.Literal
import Reckon.Proofs.Number.Nearest
import Reckon.Proofs.Number.Sign
import Reckon.Proofs.Token.Lexeme
/-!
# Plain text as a literal

Plain text of a finite magnitude is a run of digits with at most one point in it, so the lexer takes it for a literal;
and since the digits are those of a decimal that reads back, the value of that literal has the same magnitude.
-/

namespace Reckon.Number

/-! ## Digits -/

theorem toList_pushn (c : Char) (n : Nat) : ("".pushn c n).toList = List.replicate n c := by
  rw [String.pushn_eq_repeat_push]
  induction n with
  | zero => rfl
  | succ n ih => rw [Nat.repeat, String.toList_push, ih, List.replicate_succ']

theorem toList_zeroPadded (width n : Nat) : (zeroPadded width n).toList =
    List.replicate (width - (Nat.toDigits 10 n).length) '0' ++ Nat.toDigits 10 n := by
  rw [zeroPadded, String.toList_append, toList_pushn, ← String.length_toList, Nat.toList_repr]

theorem toList_repr_ne_nil (n : Nat) : n.repr.toList ≠ [] := by
  rw [Nat.toList_repr]
  exact Nat.toDigits_ne_nil

theorem isDigit_of_mem_repr {n : Nat} {c : Char} (h : c ∈ n.repr.toList) : c.isDigit = true := by
  rw [Nat.toList_repr] at h
  exact Nat.isDigit_of_mem_toDigits (by decide) (by decide) h

theorem isDigit_of_mem_zeroPadded {width n : Nat} {c : Char} (h : c ∈ (zeroPadded width n).toList) :
    c.isDigit = true := by
  rw [toList_zeroPadded] at h
  rcases List.mem_append.1 h with h | h
  · cases List.eq_of_mem_replicate h
    rfl
  · exact Nat.isDigit_of_mem_toDigits (by decide) (by decide) h

theorem length_zeroPadded {width n : Nat} (hw : 0 < width) (h : n < 10 ^ width) :
    (zeroPadded width n).toList.length = width := by
  have hlen := (Nat.length_toDigits_le_iff (by decide) hw).2 h
  rw [toList_zeroPadded, List.length_append, List.length_replicate]
  omega

theorem ofDigitChars_zeroPadded (width n init : Nat) : Nat.ofDigitChars 10 (zeroPadded width n).toList init =
    10 ^ (zeroPadded width n).toList.length * init + n := by
  rw [Nat.ofDigitChars_eq_ofDigitChars_zero, toList_zeroPadded, Nat.ofDigitChars_append,
    Nat.ofDigitChars_replicate_zero, Nat.mul_zero, Nat.ofDigitChars_ten_toDigits]

/-! ## Literals -/

/-- The text is a literal of the value. -/
structure Literal (text : List Char) (v : Float) : Prop where
  shape : Shape.integer.Matches text ∨ Shape.decimal.Matches text
  value : ofLiteral text = v

theorem literal_integer {whole : List Char} (hne : whole ≠ []) (h : ∀ c ∈ whole, c.isDigit) :
    Literal whole (ofDigits whole 0) := by
  refine ⟨.inl (.integer hne h), ?_⟩
  have htake := takeWhile_append_of_notAhead h notAhead_nil
  have hdrop := dropWhile_append_of_notAhead h notAhead_nil
  rw [List.append_nil] at htake hdrop
  unfold ofLiteral
  simp only [htake, hdrop, List.drop_nil, List.append_nil, List.length_nil]

theorem literal_decimal {whole fraction : List Char} (hne : whole ≠ []) (hw : ∀ c ∈ whole, c.isDigit)
    (hf : ∀ c ∈ fraction, c.isDigit) :
    Literal (whole ++ '.' :: fraction) (ofDigits (whole ++ fraction) fraction.length) := by
  refine ⟨.inr (.decimal hw hf (.inl hne)), ?_⟩
  have hdot : NotAhead Char.isDigit ('.' :: fraction) := notAhead_cons.2 rfl
  unfold ofLiteral
  rw [takeWhile_append_of_notAhead hw hdot, dropWhile_append_of_notAhead hw hdot, List.drop_one, List.tail_cons]

/-! ## Plain text -/

theorem Decimal.reading_eq_nearest {d : Decimal} {n k places : Nat} (hn : d.digits * 10 ^ d.shift = n * 10 ^ k)
    (hk : places + k = 1074) : d.reading = nearest n (10 ^ places) := by
  unfold reading inOne
  rw [← hk, Nat.pow_eq, Nat.pow_eq, hn, Nat.pow_add, nearest_scale _ _ (Nat.pow_pos (by decide))]

/-- A decimal with its point in place is a literal of the double that it rounds to. -/
theorem literal_point (d : Decimal) : Literal (Layout.plain.point d).toList (ofMagnitude false d.reading) := by
  unfold Layout.point
  by_cases h : 1074 ≤ d.shift
  · -- a whole number, without a point
    have hr : d.reading = nearest (d.digits * 10 ^ (d.shift - 1074)) (10 ^ 0) := by
      refine d.reading_eq_nearest ?_ (Nat.zero_add 1074)
      rw [Nat.mul_assoc, Nat.pow_sub_mul_pow 10 h]
    have hlit := literal_integer (toList_repr_ne_nil (d.digits * 10 ^ (d.shift - 1074))) fun c => isDigit_of_mem_repr
    rw [if_pos h, hr, Layout.plain, String.append_empty]
    unfold ofDigits at hlit
    rwa [Nat.toList_repr, Nat.ofDigitChars_ten_toDigits, ← Nat.toList_repr] at hlit
  · -- a point in front of the last `places` digits
    generalize hp : 1074 - d.shift = places
    have hr : d.reading = nearest d.digits (10 ^ places) := d.reading_eq_nearest rfl (by omega)
    have hdigits : ∀ c ∈ (zeroPadded places (d.digits % 10 ^ places)).toList, c.isDigit :=
      fun c => isDigit_of_mem_zeroPadded
    have hlit := literal_decimal (toList_repr_ne_nil (d.digits / 10 ^ places)) (fun c => isDigit_of_mem_repr) hdigits
    have hlen := length_zeroPadded (by omega) (Nat.mod_lt d.digits (Nat.pow_pos (by decide) : 0 < 10 ^ places))
    rw [if_neg h, hr, String.toList_append, String.toList_append, List.append_assoc]
    unfold ofDigits at hlit
    rwa [Nat.ofDigitChars_append, ofDigitChars_zeroPadded, hlen, Nat.toList_repr, Nat.ofDigitChars_ten_toDigits,
      Nat.div_add_mod, ← Nat.toList_repr] at hlit

/-- Plain text of a finite magnitude is a literal of the double that has it. -/
theorem literal_decimal_shortest {b : Nat} (h : b < infinite) :
    Literal (Layout.plain.decimal (Decimal.shortest .up b)).toList (ofMagnitude false b) := by
  have hlit := literal_point (Decimal.shortest .up b)
  rw [Decimal.reading_shortest .up h] at hlit
  unfold Layout.decimal
  rw [if_pos (.inr rfl)]
  exact hlit

variable {v : Float}

theorem plain_of_isFinite (h : isFinite v = true) : plain v = if isNegative v then
    "-" ++ Layout.plain.decimal (Decimal.shortest .up (magnitude v))
    else Layout.plain.decimal (Decimal.shortest .up (magnitude v)) := by
  unfold plain Layout.text
  rw [if_pos (of_decide_eq_true h)]
  rfl

theorem literal_plain (h : isFinite v = true) (hs : isNegative v = false) : Literal (plain v).toList v := by
  have hlit := literal_decimal_shortest (of_decide_eq_true h)
  rw [← hs, ofMagnitude_magnitude] at hlit
  rw [plain_of_isFinite h, hs]
  exact hlit

/-- A set sign bit is written as a sign in front of a literal of the opposite number. -/
theorem literal_plain_of_isNegative (h : isFinite v = true) (hs : isNegative v = true) :
    ∃ text, plain v = "-" ++ text ∧ Literal text.toList (-v) := by
  obtain ⟨hs', hm⟩ := sign_neg h
  rw [hs, Bool.not_true] at hs'
  have hlit := literal_decimal_shortest (of_decide_eq_true h)
  rw [← hs', ← hm, ofMagnitude_magnitude] at hlit
  refine ⟨_, ?_, hlit⟩
  rw [plain_of_isFinite h, hs, hm]
  rfl

end Reckon.Number
