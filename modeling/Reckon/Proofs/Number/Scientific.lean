import Mathlib.Algebra.Group.Nat.Defs
import Reckon.Proofs.Number.Plain
/-!
# Numbers with a point or an exponent

A number of JSON is a run of digits, a point with digits behind it or none, and an exponent or none, with a sign in
front if the sign bit is set. What such a text writes is a whole multiple of `10 ^ (-1074)`, and for the text of a
finite magnitude it is the shortest decimal of that magnitude, which reads back. So different finite doubles have
different texts.
-/

namespace Reckon.Number

/-! ## What is written -/

/-- The exponent that stands behind the digits, zero if there is none. -/
def exponentOf (text : List Char) : Int :=
  match text with
  | 'e' :: '-' :: digits => -Int.ofNat (Nat.ofDigitChars 10 digits 0)
  | 'e' :: '+' :: digits => Int.ofNat (Nat.ofDigitChars 10 digits 0)
  | _ => 0

/-- The number that digits with a point and an exponent write, counted in multiples of `10 ^ (-1074)`. -/
def writtenBy (text : List Char) : Nat :=
  let whole := text.takeWhile Char.isDigit
  let behind := text.dropWhile Char.isDigit
  let fraction := if behind.head? = some '.' then behind.tail.takeWhile Char.isDigit else []
  let power := if behind.head? = some '.' then behind.tail.dropWhile Char.isDigit else behind
  Nat.ofDigitChars 10 (whole ++ fraction) 0 * Nat.pow 10 (1074 + exponentOf power - fraction.length).toNat

variable {whole fraction power : List Char} {d : Decimal} {x y : Float}

theorem writtenBy_point (hw : ∀ c ∈ whole, c.isDigit) (hf : ∀ c ∈ fraction, c.isDigit) (hp : NotAhead Char.isDigit power) :
    writtenBy (whole ++ '.' :: (fraction ++ power)) =
      Nat.ofDigitChars 10 (whole ++ fraction) 0 * 10 ^ (1074 + exponentOf power - fraction.length).toNat := by
  have hdot : NotAhead Char.isDigit ('.' :: (fraction ++ power)) := notAhead_cons.2 rfl
  unfold writtenBy
  simp only [takeWhile_append_of_notAhead hw hdot, dropWhile_append_of_notAhead hw hdot, List.head?_cons, if_true,
    List.tail_cons, takeWhile_append_of_notAhead hf hp, dropWhile_append_of_notAhead hf hp, Nat.pow_eq]

theorem writtenBy_whole (hw : ∀ c ∈ whole, c.isDigit) (hp : NotAhead (fun c => c.isDigit || c == '.') power) :
    writtenBy (whole ++ power) = Nat.ofDigitChars 10 whole 0 * 10 ^ (1074 + exponentOf power).toNat := by
  have hdigit : NotAhead Char.isDigit power := fun c hc => (Bool.or_eq_false_iff.1 (hp c hc)).1
  have hdot : power.head? ≠ some '.' := fun hc => by cases hp '.' hc
  unfold writtenBy
  simp only [takeWhile_append_of_notAhead hw hdigit, dropWhile_append_of_notAhead hw hdigit, if_neg hdot, List.append_nil,
    List.length_nil, Nat.pow_eq]
  rw [Int.ofNat_zero, Int.sub_zero]

/-- The digits of a number cut in two write the number. -/
theorem ofDigitChars_cut {places : Nat} (h : 0 < places) (n : Nat) :
    Nat.ofDigitChars 10 ((n / 10 ^ places).repr.toList ++ (zeroPadded places (n % 10 ^ places)).toList) 0 = n ∧
      (zeroPadded places (n % 10 ^ places)).toList.length = places := by
  have hlen := length_zeroPadded h (Nat.mod_lt n (Nat.pow_pos (by decide) : 0 < 10 ^ places))
  refine ⟨?_, hlen⟩
  rw [Nat.ofDigitChars_append, ofDigitChars_zeroPadded, hlen, Nat.toList_repr, Nat.ofDigitChars_ten_toDigits, Nat.div_add_mod]

namespace Layout

theorem writtenBy_json_point (d : Decimal) : writtenBy (json.point d).toList = d.digits * 10 ^ d.shift := by
  have hnone : exponentOf [] = 0 := rfl
  unfold point
  by_cases h : 1074 ≤ d.shift
  · -- a whole number, with a point and a zero behind it
    have hzero : ∀ c ∈ ['0'], c.isDigit := List.forall_mem_singleton.2 rfl
    have hw := writtenBy_point (fun c => isDigit_of_mem_repr (n := d.digits * 10 ^ (d.shift - 1074))) hzero notAhead_nil
    have hdigit : ∀ n, Nat.ofDigitChars 10 ['0'] n = 10 * n := fun n => rfl
    rw [Nat.ofDigitChars_append, Nat.toList_repr, Nat.ofDigitChars_ten_toDigits, hdigit, hnone, List.length_singleton,
      List.append_nil] at hw
    generalize hk : (1074 + (0 : Int) - (1 : Nat)).toNat = k at hw
    have hsum : d.shift - 1074 + 1 + k = d.shift := by omega
    have hscale : 10 * (d.digits * 10 ^ (d.shift - 1074)) * 10 ^ k = d.digits * 10 ^ d.shift := calc
      _ = d.digits * (10 * 10 ^ (d.shift - 1074) * 10 ^ k) := by rw [Nat.mul_left_comm, Nat.mul_assoc]
      _ = d.digits * 10 ^ d.shift := by rw [← Nat.pow_succ', ← Nat.pow_add, hsum]
    rw [hscale] at hw
    rw [if_pos h, String.toList_append, Nat.toList_repr]
    exact hw
  · -- a point in front of the last `places` digits
    generalize hp : 1074 - d.shift = places
    obtain ⟨hdigits, hlen⟩ := ofDigitChars_cut (by omega : 0 < places) d.digits
    have hfraction : ∀ c ∈ (zeroPadded places (d.digits % 10 ^ places)).toList, c.isDigit :=
      fun c => isDigit_of_mem_zeroPadded
    have hw := writtenBy_point (fun c => isDigit_of_mem_repr (n := d.digits / 10 ^ places)) hfraction notAhead_nil
    have hexp : (1074 + (0 : Int) - places).toNat = d.shift := by omega
    rw [hdigits, hlen, hnone, hexp, List.append_nil] at hw
    rw [if_neg h, String.toList_append, String.toList_append, List.append_assoc]
    exact hw

/-- How an exponent is written. -/
def exponentText (l : Layout) (e : Int) : String :=
  if e < 0 then "-" ++ e.natAbs.repr else l.exponentSign ++ e.natAbs.repr

theorem exponentOf_json (e : Int) : exponentOf ('e' :: (json.exponentText e).toList) = e := by
  unfold exponentText
  by_cases h : e < 0
  · rw [if_pos h, String.toList_append, Nat.toList_repr]
    show -Int.ofNat (Nat.ofDigitChars 10 (Nat.toDigits 10 e.natAbs) 0) = e
    rw [Nat.ofDigitChars_ten_toDigits, Int.ofNat_eq_natCast]
    omega
  · rw [if_neg h, String.toList_append, Nat.toList_repr]
    show Int.ofNat (Nat.ofDigitChars 10 (Nat.toDigits 10 e.natAbs) 0) = e
    rw [Nat.ofDigitChars_ten_toDigits, Int.ofNat_eq_natCast]
    omega

theorem toList_json_scientific (d : Decimal) : (json.scientific d).toList =
    (d.digits / 10 ^ (d.digits.repr.length - 1)).repr.toList ++
      ((if d.digits.repr.length - 1 = 0 then [] else
        '.' :: (zeroPadded (d.digits.repr.length - 1) (d.digits % 10 ^ (d.digits.repr.length - 1))).toList) ++
      'e' :: (json.exponentText d.exponent).toList) := by
  have hdot : ".".toList = ['.'] := rfl
  have he : "e".toList = ['e'] := rfl
  unfold scientific exponentText
  by_cases h : d.digits.repr.length - 1 = 0
  · simp only [if_pos h, String.toList_append, he, List.append_assoc, String.toList_empty, List.nil_append,
      List.singleton_append, Nat.pow_eq]
  · simp only [if_neg h, String.toList_append, hdot, he, List.append_assoc, List.cons_append, List.nil_append, Nat.pow_eq]

theorem writtenBy_json_scientific (d : Decimal) : writtenBy (json.scientific d).toList = d.digits * 10 ^ d.shift := by
  have hlength : 0 < d.digits.repr.length := by
    rw [← String.length_toList]
    exact List.length_pos_iff.2 (toList_repr_ne_nil d.digits)
  have hexp : 1074 + d.exponent - (d.digits.repr.length - 1 : Nat) = d.shift := by
    unfold Decimal.exponent
    rw [Int.ofNat_eq_natCast]
    omega
  have hpower := exponentOf_json d.exponent
  rw [toList_json_scientific]
  generalize d.digits.repr.length - 1 = places at hexp ⊢
  have hahead : ∀ {p : Char → Bool}, p 'e' = false → NotAhead p ('e' :: (json.exponentText d.exponent).toList) :=
    fun h => notAhead_cons.2 h
  by_cases h : places = 0
  · -- one digit, and no point
    subst h
    rw [Int.ofNat_zero, Int.sub_zero] at hexp
    rw [if_pos rfl, Nat.pow_zero, Nat.div_one, List.nil_append, writtenBy_whole (fun c => isDigit_of_mem_repr) (hahead rfl),
      hpower, hexp, Int.toNat_natCast, Nat.toList_repr, Nat.ofDigitChars_ten_toDigits]
  · -- one digit in front of the point, and the others behind it
    obtain ⟨hdigits, hlen⟩ := ofDigitChars_cut (Nat.pos_of_ne_zero h) d.digits
    rw [if_neg h, List.cons_append, writtenBy_point (fun c => isDigit_of_mem_repr) (fun c => isDigit_of_mem_zeroPadded)
      (hahead rfl), hdigits, hlen, hpower, hexp, Int.toNat_natCast]

theorem writtenBy_json_decimal (d : Decimal) : writtenBy (json.decimal d).toList = d.digits * 10 ^ d.shift := by
  unfold decimal
  split
  · exact writtenBy_json_point d
  · exact writtenBy_json_scientific d

/-- The text of a finite magnitude writes a number that rounds to it. -/
theorem nearest_writtenBy_json {b : Nat} (h : b < infinite) :
    nearest (writtenBy (json.decimal (Decimal.shortest .even b)).toList) Decimal.inOne = b := by
  have hreading := Decimal.reading_shortest .even h
  unfold Decimal.reading at hreading
  rwa [writtenBy_json_decimal, ← Nat.pow_eq]

end Layout

/-! ## Texts of doubles -/

/-- The characters of numbers in JSON. -/
def isNumeral (c : Char) : Bool := c.isDigit || c == '.' || c == '-' || c == '+' || c == 'e'

theorem isNumeral_of_isDigit {c : Char} (h : c.isDigit = true) : isNumeral c = true := by
  unfold isNumeral
  rw [h]
  rfl

namespace Layout

theorem isNumeral_of_mem_exponentText {e : Int} {c : Char} (h : c ∈ (json.exponentText e).toList) : isNumeral c = true := by
  have hsigned : ∀ {sign : String} {s : Char}, sign.toList = [s] → isNumeral s = true → c ∈ (sign ++ e.natAbs.repr).toList →
      isNumeral c = true := by
    intro sign s hsign hs hc
    rw [String.toList_append, hsign] at hc
    rcases List.mem_append.1 hc with hc | hc
    · rwa [List.mem_singleton.1 hc]
    · exact isNumeral_of_isDigit (isDigit_of_mem_repr hc)
  unfold exponentText at h
  split at h
  · exact hsigned (s := '-') rfl rfl h
  · exact hsigned (s := '+') rfl rfl h

/-- The text of a decimal begins with digits, which a point or an exponent follows. -/
theorem exists_json_decimal (d : Decimal) : ∃ (n : Nat) (mark : Char) (rest : List Char),
    (json.decimal d).toList = n.repr.toList ++ mark :: rest ∧ (mark = '.' ∨ mark = 'e') ∧ ∀ c ∈ rest, isNumeral c = true := by
  unfold decimal
  split
  · unfold point
    split
    · exact ⟨_, '.', ['0'], String.toList_append, .inl rfl, List.forall_mem_singleton.2 rfl⟩
    · generalize 1074 - d.shift = places
      refine ⟨d.digits / Nat.pow 10 places, '.', (zeroPadded places (d.digits % Nat.pow 10 places)).toList, ?_, .inl rfl,
        fun c hc => isNumeral_of_isDigit (isDigit_of_mem_zeroPadded hc)⟩
      rw [String.toList_append, String.toList_append, List.append_assoc]
      rfl
  · rw [toList_json_scientific]
    generalize d.digits.repr.length - 1 = places
    by_cases h : places = 0
    · rw [if_pos h]
      exact ⟨_, 'e', _, rfl, .inr rfl, fun c => isNumeral_of_mem_exponentText⟩
    · rw [if_neg h]
      refine ⟨_, '.', _, rfl, .inl rfl, fun c hc => ?_⟩
      rcases List.mem_append.1 hc with hc | hc
      · exact isNumeral_of_isDigit (isDigit_of_mem_zeroPadded hc)
      · rcases List.mem_cons.1 hc with rfl | hc
        · rfl
        · exact isNumeral_of_mem_exponentText hc

theorem toList_json_text (h : isFinite x = true) : (json.text x).toList =
    (if isNegative x then ['-'] else []) ++ (json.decimal (Decimal.shortest .even (magnitude x))).toList := by
  unfold text
  rw [if_pos (of_decide_eq_true h)]
  cases isNegative x with
  | true => exact String.toList_append
  | false => rfl

theorem isNumeral_of_mem_text {c : Char} (h : isFinite x = true) (hc : c ∈ (json.text x).toList) : isNumeral c = true := by
  obtain ⟨n, mark, rest, htext, hmark, hrest⟩ := exists_json_decimal (Decimal.shortest .even (magnitude x))
  rw [toList_json_text h, htext, List.mem_append, List.mem_append, List.mem_cons] at hc
  rcases hc with hc | hc | rfl | hc
  · split at hc
    · cases List.mem_singleton.1 hc
      rfl
    · cases hc
  · exact isNumeral_of_isDigit (isDigit_of_mem_repr hc)
  · rcases hmark with rfl | rfl <;> rfl
  · exact hrest c hc

/-- A double has a point or an exponent, so that it is no text of a whole number. -/
theorem exists_mem_text (h : isFinite x = true) : ∃ c ∈ (json.text x).toList, c.isDigit = false := by
  obtain ⟨n, mark, rest, htext, hmark, -⟩ := exists_json_decimal (Decimal.shortest .even (magnitude x))
  refine ⟨mark, ?_, by rcases hmark with rfl | rfl <;> rfl⟩
  rw [toList_json_text h, htext]
  exact List.mem_append_right _ (List.mem_append_right _ List.mem_cons_self)

/-- A number without its sign begins with a digit. -/
theorem head?_json_decimal (d : Decimal) : (json.decimal d).toList.head? ≠ some '-' := by
  obtain ⟨n, mark, rest, htext, -, -⟩ := exists_json_decimal d
  intro hhead
  rw [htext, List.head?_append_of_ne_nil _ (toList_repr_ne_nil n)] at hhead
  cases isDigit_of_mem_repr (List.mem_of_head? hhead)

/-- Different finite doubles have different texts. -/
theorem eq_of_json_text_eq (hx : isFinite x = true) (hy : isFinite y = true) (h : json.text x = json.text y) : x = y := by
  have hlist := congrArg String.toList h
  rw [toList_json_text hx, toList_json_text hy] at hlist
  have hsign : isNegative x = isNegative y := by
    cases hsx : isNegative x <;> cases hsy : isNegative y <;> rw [hsx, hsy] at hlist
    case false.true => exact absurd (congrArg List.head? hlist) (head?_json_decimal _)
    case true.false => exact absurd (congrArg List.head? hlist.symm) (head?_json_decimal _)
  refine eq_of_magnitude hsign ?_
  rw [hsign] at hlist
  have hwritten := nearest_writtenBy_json (of_decide_eq_true hx)
  rwa [List.append_cancel_left hlist, nearest_writtenBy_json (of_decide_eq_true hy), eq_comm] at hwritten

end Layout

end Reckon.Number
