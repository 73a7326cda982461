import Reckon.Proofs.Number.Bits
import Reckon.Proofs.Number.Plain
/-!
# Plain texts tell doubles apart

The plain text of a finite magnitude is a literal of it, and no literal is the text of infinity or begins with a sign.
So two doubles that are numbers have the same plain text only if they have the same bits; the two zeros differ by
their signs.
-/

namespace Reckon

theorem Shape.isBlank_of_isDigit {c : Char} (h : c.isDigit = true) : isBlank c = false :=
  (Matches.integer (List.cons_ne_nil c []) (by simpa using h)).not_isBlank List.mem_cons_self

namespace Number

/-- The plain text of a double without its sign. -/
def unsigned (b : Nat) : String :=
  if b < infinite then Layout.plain.decimal (Decimal.shortest .up b) else if b = infinite then "inf" else "NaN"

variable {x y : Float} {b b' : Nat}

theorem plain_eq (x : Float) : plain x = if isNegative x then "-" ++ unsigned (magnitude x) else unsigned (magnitude x) :=
  rfl

/-- Plain text is made of digits, points and the letters of infinity and NaN. -/
theorem mem_unsigned {c : Char} (h : c ∈ (unsigned b).toList) : c.isDigit = true ∨ c ∈ ['.', 'i', 'n', 'f', 'N', 'a'] := by
  unfold unsigned at h
  by_cases hb : b < infinite
  · rw [if_pos hb] at h
    rcases (literal_decimal_shortest hb).shape with hm | hm
    · exact .inl (hm.alphabet c h)
    · have hc : (c.isDigit || c == '.') = true := hm.alphabet c h
      rw [Bool.or_eq_true, beq_iff_eq] at hc
      rcases hc with hc | rfl
      · exact .inl hc
      · exact .inr List.mem_cons_self
  · rw [if_neg hb] at h
    right
    by_cases hinf : b = infinite
    · rw [if_pos hinf] at h
      simp only [String.reduceToList, List.mem_cons, List.not_mem_nil, or_false] at h ⊢
      tauto
    · rw [if_neg hinf] at h
      simp only [String.reduceToList, List.mem_cons, List.not_mem_nil, or_false] at h ⊢
      tauto

theorem not_mem_unsigned (b : Nat) : '-' ∉ (unsigned b).toList := by
  intro h
  rcases mem_unsigned h with h | h
  · cases h
  · simp at h

theorem isBlank_of_mem_unsigned {c : Char} (h : c ∈ (unsigned b).toList) : Shape.isBlank c = false := by
  rcases mem_unsigned h with hdigit | hother
  · exact Shape.isBlank_of_isDigit hdigit
  · simp only [List.mem_cons, List.not_mem_nil, or_false] at hother
    rcases hother with rfl | rfl | rfl | rfl | rfl | rfl <;> rfl

/-- Plain text has no character that is skipped between lexemes. -/
theorem isBlank_of_mem_plain {c : Char} (h : c ∈ (plain x).toList) : Shape.isBlank c = false := by
  rw [plain_eq] at h
  by_cases hs : isNegative x = true
  · rw [if_pos hs, String.toList_append] at h
    rcases List.mem_append.1 h with hc | hc
    · cases List.mem_singleton.1 hc
      rfl
    · exact isBlank_of_mem_unsigned hc
  · rw [if_neg hs] at h
    exact isBlank_of_mem_unsigned h

/-- The text of a finite magnitude is not the one of infinity. -/
theorem unsigned_ne_infinity (h : b < infinite) : unsigned b ≠ "inf" := by
  intro he
  have hlit := literal_decimal_shortest h
  rw [unsigned, if_pos h] at he
  rw [he] at hlit
  have hmem : 'i' ∈ "inf".toList := List.mem_cons_self
  rcases hlit.shape with hm | hm
  · exact hm.not_mem rfl hmem
  · exact hm.not_mem rfl hmem

theorem unsigned_infinite : unsigned infinite = "inf" := by
  rw [unsigned, if_neg (Nat.lt_irrefl _), if_pos rfl]

theorem eq_of_unsigned_eq (h : b ≤ infinite) (h' : b' ≤ infinite) (he : unsigned b = unsigned b') : b = b' := by
  rcases Nat.lt_or_eq_of_le h with hb | rfl
  · rcases Nat.lt_or_eq_of_le h' with hb' | rfl
    · -- both are literals, and the text has one value
      have hvalue := (literal_decimal_shortest hb).value
      rw [unsigned, unsigned, if_pos hb, if_pos hb'] at he
      rw [he, (literal_decimal_shortest hb').value] at hvalue
      rw [← magnitude_ofMagnitude false h, ← hvalue, magnitude_ofMagnitude false h']
    · exact absurd (he.trans unsigned_infinite) (unsigned_ne_infinity hb)
  · rcases Nat.lt_or_eq_of_le h' with hb' | rfl
    · exact absurd (he.symm.trans unsigned_infinite) (unsigned_ne_infinity hb')
    · rfl

/-- A sign in front of one text is a sign in front of the other. -/
theorem signed_ne_unsigned (b b' : Nat) : "-" ++ unsigned b ≠ unsigned b' := by
  intro he
  refine not_mem_unsigned b' (he ▸ ?_)
  rw [String.toList_append]
  exact List.mem_append_left _ List.mem_cons_self

/-- Numbers with the same plain text are the same double. -/
theorem eq_of_plain_eq (hx : x.isNaN = false) (hy : y.isNaN = false) (h : plain x = plain y) : x = y := by
  have hle := magnitude_le_of_isNaN hx
  have hle' := magnitude_le_of_isNaN hy
  rw [plain_eq, plain_eq] at h
  cases hs : isNegative x with
  | true =>
    cases hs' : isNegative y with
    | true =>
      rw [hs, hs', if_pos rfl, if_pos rfl, String.append_right_inj] at h
      exact eq_of_magnitude (hs.trans hs'.symm) (eq_of_unsigned_eq hle hle' h)
    | false =>
      rw [hs, hs', if_pos rfl, if_neg Bool.false_ne_true] at h
      exact absurd h (signed_ne_unsigned _ _)
  | false =>
    cases hs' : isNegative y with
    | true =>
      rw [hs, hs', if_pos rfl, if_neg Bool.false_ne_true] at h
      exact absurd h.symm (signed_ne_unsigned _ _)
    | false =>
      rw [hs, hs', if_neg Bool.false_ne_true, if_neg Bool.false_ne_true] at h
      exact eq_of_magnitude (hs.trans hs'.symm) (eq_of_unsigned_eq hle hle' h)

end Number

end Reckon
