import Reckon.Proofs.Legacy.Lexing
/-!
# Texts of the legacy tokens

The legacy lexer never fails. It cuts a text into symbols, literals and words that go as far as they can, and skips
whatever begins none of these. `cuts_lex` says so for every text and every registry, whether the main lexer gets
through it or not.
-/

namespace Reckon.Legacy.Token

variable {r : Registry} {c : Char} {t : Token} {more rest : List Char}

theorem isNameChar_of_isNameStart (h : isNameStart c = true) : isNameChar c = true := by
  simp only [isNameStart, Bool.or_eq_true] at h
  simp only [isNameChar, Char.isAlphanum, Bool.or_eq_true]
  exact h.imp_left .inl

/-- In front of `after`, the text is that of the token: a symbol by itself, a literal, or a word that does not go on. -/
inductive Reads (r : Registry) : List Char → List Char → Token → Prop
  | symbol {c : Char} {after} : isSymbol c = true → Reads r [c] after (.symbol (String.singleton c))
  | literal {text : List Char} {after} : (∀ d ∈ text, d.isDigit = true ∨ d = '.') →
      Reads r text after (.number (Number.ofLiteral text))
  | word {c : Char} {more after : List Char} : isNameStart c = true → (∀ d ∈ more, isNameChar d = true) →
      NotAhead isNameChar after → Reads r (c :: more) after (ofName r (String.ofList (c :: more)))

theorem isDigit_or_eq_dot_of_matches {s : Shape} (hm : s.Matches (c :: more)) (hc : c.isDigit = true ∨ c = '.') :
    ∀ d ∈ c :: more, d.isDigit = true ∨ d = '.' := by
  have hall := hm.alphabet
  have hhead := hall c List.mem_cons_self
  cases s with
  | integer => exact fun d hd => .inl (hall d hd)
  | decimal => simpa only [Shape.alphabet, Bool.or_eq_true, beq_iff_eq] using hall
  | name =>
    cases hm with
    | name ha _ =>
      rcases hc with hc | rfl
      · rw [isDigit_eq_false_of_isAlpha ha] at hc
        cases hc
      · exact absurd ha (by decide)
  | leftParen | rightParen | comma =>
    obtain rfl := beq_iff_eq.1 hhead
    exact absurd hc (by decide)
  | operator op =>
    cases op with
    | pow =>
      rcases Bool.or_eq_true_iff.1 hhead with h | h <;> obtain rfl := beq_iff_eq.1 h <;> exact absurd hc (by decide)
    | _ =>
      obtain rfl := beq_iff_eq.1 hhead
      exact absurd hc (by decide)

/-- A token takes its text from the front of what is ahead. -/
theorem reads_of_longest? (h : longest? r c rest = some (t, more)) :
    ∃ after, rest = more ++ after ∧ Reads r (c :: more) after t := by
  by_cases hdigit : c.isDigit = true ∨ c = '.'
  · -- a literal, which the main lexer cuts off as well
    rw [longest?_of_literal hdigit] at h
    obtain ⟨⟨s, more'⟩, hs, heq⟩ := Option.map_eq_some_iff.1 h
    cases heq
    obtain ⟨after, rfl, hm⟩ := Shape.longest?_eq_some_iff.1 hs
    exact ⟨after, rfl, .literal (isDigit_or_eq_dot_of_matches hm.isMatch hdigit)⟩
  · rw [not_or] at hdigit
    unfold longest? at h
    split at h
    · next hs =>
      cases h
      exact ⟨rest, rfl, .symbol hs⟩
    · rw [if_neg hdigit.1, if_neg hdigit.2] at h
      split at h
      · next hstart =>
        cases h
        exact ⟨_, List.takeWhile_append_dropWhile.symm, .word hstart (fun d hd => mem_takeWhile hd) (notAhead_dropWhile _ _)⟩
      · cases h

/-- What takes no token is neither a symbol nor the start of a word. -/
theorem of_longest?_eq_none (h : longest? r c rest = none) : isSymbol c = false ∧ isNameStart c = false := by
  unfold longest? at h
  split at h
  · cases h
  · next hs =>
    split at h
    · cases h
    · split at h
      · next hc =>
        subst hc
        exact ⟨rfl, rfl⟩
      · split at h
        · cases h
        · next hn => exact ⟨by simpa using hs, by simpa using hn⟩

/-- The text is cut into the tokens, some characters being skipped. -/
inductive Cuts (r : Registry) : List Char → List Token → Prop
  | nil : Cuts r [] []
  | skip {c : Char} {rest : List Char} {ts} : isSymbol c = false → isNameStart c = false → Cuts r rest ts →
      Cuts r (c :: rest) ts
  | take {text after : List Char} {t : Token} {ts} : Reads r text after t → Cuts r after ts →
      Cuts r (text ++ after) (t :: ts)

theorem cuts_lex (r : Registry) (text : List Char) : Cuts r text (lex r text) := by
  induction text using lex.induct r with
  | case1 =>
    rw [lex]
    exact .nil
  | case2 c rest h ih =>
    obtain ⟨hs, hn⟩ := of_longest?_eq_none h
    rw [lex_skip h]
    exact .skip hs hn ih
  | case3 c rest t more h ih =>
    obtain ⟨after, rfl, ht⟩ := reads_of_longest? h
    rw [← List.cons_append, lex_take h]
    rw [List.drop_left] at ih
    exact .take ht ih

end Reckon.Legacy.Token
