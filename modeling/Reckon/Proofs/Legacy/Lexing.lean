import Reckon.Legacy.Token
import Reckon.Proofs.Token.Splitting
/-!
# The legacy lexer beside the main one

Where the main lexer succeeds, the legacy lexer finds the same lexemes, apart from a power written as two stars. It
has no tokens for commas and remainders, and constants are numbers to it. It would let a name go on with underscores,
but the main lexer does not get past one.
-/

namespace Reckon.Legacy

open Reckon.Token (of_resolve Piece Splits)

namespace Token

/-- The legacy token for a kind of token, if there is one. -/
def ofKind? : Reckon.Token.Kind → Option Token
  | .integer v => some (number v)
  | .decimal v => some (number v)
  | .constant _ v => some (number v)
  | .leftParen => some (symbol "(")
  | .rightParen => some (symbol ")")
  | .operator .rem => none
  | .operator op => some (symbol op.symbol)
  | .function name => some (symbol name)
  | .comma => none
  | .eof => none

/-- The names of a kind of token mean the same in the registry. -/
def SameName (r : Registry) : Reckon.Token.Kind → Prop
  | .constant name v => ∃ c, r.constant? name = some c ∧ c.value = v
  | .function name => r.constant? name = none
  | _ => True

variable {r : Registry} {c : Char} {more rest after : List Char}

theorem lex_skip (h : longest? r c rest = none) : lex r (c :: rest) = lex r rest := by
  rw [lex, h]

theorem lex_take {t : Token} (h : longest? r c (more ++ after) = some (t, more)) :
    lex r (c :: more ++ after) = t :: lex r after := by
  rw [List.cons_append, lex, h]
  simp only [List.drop_left]

theorem longest?_of_isBlank (h : Shape.isBlank c = true) : longest? r c rest = none := by
  simp only [Shape.isBlank, Bool.or_eq_true, beq_iff_eq] at h
  rcases h with ((rfl | rfl) | rfl) | rfl <;> rfl

theorem isSymbol_of_isAlphanum (h : c.isAlphanum = true) : isSymbol c = false := by
  rw [← Bool.not_eq_true]
  intro hs
  simp only [isSymbol, List.mem_cons, List.not_mem_nil, or_false, decide_eq_true_eq] at hs
  rcases hs with rfl | rfl | rfl | rfl | rfl | rfl | rfl <;> exact absurd h (by decide)

/-- Both lexers cut a literal off alike. -/
theorem longest?_of_literal (hc : c.isDigit = true ∨ c = '.') :
    longest? r c rest = (Shape.longest? c rest).map fun found => (number (Number.ofLiteral (c :: found.2)), found.2) := by
  rcases hc with hc | rfl
  · unfold longest?
    rw [Shape.longest?_of_isDigit hc, isSymbol_of_isAlphanum (by simp [Char.isAlphanum, hc]), if_neg Bool.false_ne_true,
      if_pos hc]
    cases htail : rest.dropWhile Char.isDigit with
    | nil => rfl
    | cons d tail =>
      by_cases hd : d = '.'
      · subst hd
        rfl
      · simp [hd]
  · rw [Shape.longest?_dot]
    unfold longest?
    rw [if_neg (by decide), if_neg (by decide), if_pos rfl]
    cases rest.takeWhile Char.isDigit <;> rfl

theorem longest?_of_isAlpha (hc : c.isAlpha = true) :
    longest? r c rest = some (ofName r (String.ofList (c :: rest.takeWhile isNameChar)), rest.takeWhile isNameChar) := by
  have hd : ¬c.isDigit = true := by simp [isDigit_eq_false_of_isAlpha hc]
  have hdot : c ≠ '.' := by
    rintro rfl
    exact absurd hc (by decide)
  unfold longest?
  rw [isSymbol_of_isAlphanum (by simp [Char.isAlphanum, hc]), if_neg Bool.false_ne_true, if_neg hd, if_neg hdot]
  exact if_pos (by simp [isNameStart, hc])

theorem alphabet_underscore (s : Shape) : s.alphabet '_' = false := by
  cases s with
  | operator op => cases op <;> rfl
  | _ => rfl

/-- Where the main lexer gets through, there is no underscore. -/
theorem not_mem_of_splits {r' : Registry} {here : Nat} {cs : List Char} {pieces : List Piece}
    (h : Splits r' here cs pieces) : '_' ∉ cs := by
  induction h with
  | done here => exact List.not_mem_nil
  | blank hb _ ih =>
    refine List.not_mem_cons_of_ne_of_not_mem ?_ ih
    rintro rfl
    exact absurd hb (by decide)
  | lexeme hm _ _ ih =>
    rw [List.mem_append]
    exact not_or.2 ⟨hm.isMatch.not_mem (alphabet_underscore _), ih⟩

theorem notAhead_isNameChar (h : NotAhead Char.isAlphanum after) (hu : '_' ∉ after) : NotAhead isNameChar after := by
  intro d hd
  have hne : d ≠ '_' := fun hd' => hu (hd' ▸ List.mem_of_mem_head? hd)
  simp [isNameChar, h d hd, hne]

/-- A lexeme of the main lexer is one of the legacy lexer, or is skipped. -/
theorem lex_lexeme {r' : Registry} {s : Shape} {text : List Char} {kind : Reckon.Token.Kind} (hm : s.Matches text)
    (he : s.Ends after) (hk : r'.kindOf text s = .ok kind) (hn : SameName r kind) (hu : '_' ∉ after)
    (hstars : text ≠ ['*', '*']) : lex r (text ++ after) = (ofKind? kind).toList ++ lex r after := by
  cases hm with
  | comma | percent =>
    cases hk
    exact lex_skip rfl
  | doubleStar => exact absurd rfl hstars
  | leftParen | rightParen | plus | minus | star | slash | caret =>
    cases hk
    exact lex_take rfl
  | integer hne hcs =>
    obtain ⟨c, more, rfl⟩ := List.exists_cons_of_ne_nil hne
    cases hk
    have hl := Shape.longest?_of_matches (.integer hne hcs) he
    refine lex_take ?_
    rw [longest?_of_literal (.inl (hcs c List.mem_cons_self)), hl]
    rfl
  | @decimal whole fraction hw hf hne =>
    have hm : Shape.decimal.Matches (whole ++ '.' :: fraction) := .decimal hw hf hne
    have hstart : ∃ c more, whole ++ '.' :: fraction = c :: more ∧ (c.isDigit = true ∨ c = '.') := by
      cases whole with
      | nil => exact ⟨'.', fraction, rfl, .inr rfl⟩
      | cons c whole => exact ⟨c, _, rfl, .inl (hw c List.mem_cons_self)⟩
    obtain ⟨c, more, htext, hc⟩ := hstart
    cases hk
    rw [htext] at hm ⊢
    refine lex_take ?_
    rw [longest?_of_literal hc, Shape.longest?_of_matches hm he]
    rfl
  | @name c more hc hcs =>
    have hmore : ∀ d ∈ more, isNameChar d = true := fun d hd => by simp [isNameChar, hcs d hd]
    have hname : longest? r c (more ++ after) = some (ofName r (String.ofList (c :: more)), more) := by
      rw [longest?_of_isAlpha hc, takeWhile_append_of_notAhead hmore (notAhead_isNameChar he hu)]
    rw [lex_take hname]
    rcases of_resolve hk with ⟨c', -, hc', rfl⟩ | ⟨f, -, hf, rfl⟩
    · obtain ⟨c'', hlook, hv⟩ := hn
      simp only [ofName, ← hc', hlook, hv]
      rfl
    · have hlook : r.constant? f.name = none := hn
      simp only [ofName, ← hf, hlook]
      rfl

/-- The legacy tokens of a source that the main lexer splits. -/
theorem lex_of_splits {r' : Registry} {here : Nat} {cs : List Char} {pieces : List Piece}
    (h : Splits r' here cs pieces) (hn : ∀ p ∈ pieces, SameName r p.kind) (hstars : ¬['*', '*'] <:+: cs) :
    lex r cs = (pieces.map (·.kind)).filterMap ofKind? := by
  induction h with
  | done here => rw [lex]; rfl
  | blank hb _ ih =>
    rw [lex_skip (longest?_of_isBlank hb)]
    exact ih hn fun hi => hstars (hi.trans (List.suffix_cons _ _).isInfix)
  | @lexeme here s text after kind pieces hm hk h ih =>
    rw [List.forall_mem_cons] at hn
    have htext : text ≠ ['*', '*'] := by
      rintro rfl
      exact hstars (List.prefix_append _ after).isInfix
    rw [lex_lexeme hm.isMatch hm.ends hk hn.1 (not_mem_of_splits h) htext,
      ih hn.2 fun hi => hstars (hi.trans (List.suffix_append text after).isInfix), List.map_cons, List.filterMap_cons]
    cases ofKind? kind <;> rfl

end Token

end Reckon.Legacy
