import Reckon.Proofs.Expr.Errors
/-!
# Errors where no token ends the input

A cursor finds an end behind the last token when there is none among the tokens. The span of that end lies behind the
last token, but its location is the one of the last token itself. So an error stands at one place by its span and by
its location unless it is about such an end.
-/

namespace Reckon

/-- The location of the token is the one of its first byte. -/
def Token.Aligned (t : Token) : Prop := t.location.offset = t.span.start

/-- The location of the error is the one of the first byte of its span. -/
def ParseError.Aligned (e : ParseError) : Prop := e.location.offset = e.span.start

instance (t : Token) : Decidable t.Aligned := inferInstanceAs (Decidable (_ = _))

instance (e : ParseError) : Decidable e.Aligned := inferInstanceAs (Decidable (_ = _))

/-- No token ends the input, and the last one has a text. -/
structure Unmarked (tokens : List Token) : Prop where
  live : ∀ t ∈ tokens, t.kind ≠ .eof
  text : ∃ last, tokens.getLast? = some last ∧ last.span.start ≠ last.span.stop

variable {tokens : List Token} {error : ParseError}

namespace Token

theorem ending_of_getLast? {last : Token} (h : tokens.getLast? = some last) :
    ending tokens = ⟨.eof, .point last.span.stop, last.location⟩ := by
  simp only [ending, Cursor.ofTokens, h, Cursor.current]

/-- The end behind the last token is where its location says just if there is no text in between. -/
theorem aligned_ending_iff (h : ∀ t ∈ tokens, t.Aligned) (hlive : ∀ t ∈ tokens, t.kind ≠ .eof) :
    (ending tokens).Aligned ↔ ¬Unmarked tokens := by
  cases hlast : tokens.getLast? with
  | none =>
    obtain rfl := List.getLast?_eq_none_iff.1 hlast
    exact iff_of_true rfl fun hu => by obtain ⟨last, hl, -⟩ := hu.text; cases hl
  | some last =>
    have hstart : last.location.offset = last.span.start := h last (List.mem_of_getLast? hlast)
    rw [ending_of_getLast? hlast, Aligned, Span.point, hstart]
    constructor
    · rintro he ⟨-, last', hlast', hne⟩
      cases hlast.symm.trans hlast'
      exact hne he
    · intro hu
      by_cases hne : last.span.start = last.span.stop
      · exact hne
      · exact absurd ⟨hlive, last, hlast, hne⟩ hu

end Token

/-- An error is about one of the tokens, or about the end behind them if none of them is an end. -/
theorem exists_place_of_error (h : Expr.ofTokens tokens = .error error) :
    ∃ t : Token, error.span = t.span ∧ error.location = t.location ∧ error.kind.found = t.kind ∧
      (t ∈ tokens ∨ t = .ending tokens ∧ ∀ u ∈ tokens, u.kind ≠ .eof) := by
  obtain ⟨passed, behind, k, hsplit, hlive, hb, rfl⟩ := ofTokens_eq_error_iff.1 h
  refine ⟨_, rfl, rfl, hb.found, ?_⟩
  cases behind with
  | cons t rest => exact .inl (by simp [hsplit])
  | nil =>
    rw [List.append_nil] at hsplit
    exact .inr ⟨rfl, hsplit ▸ hlive⟩

/-- Where the tokens are at their locations, so is an error, unless it is about an end that no token marks behind a
token with a text. -/
theorem aligned_error_iff (h : ∀ t ∈ tokens, t.Aligned) (he : Expr.ofTokens tokens = .error error) :
    error.Aligned ↔ ¬(error.kind.found = .eof ∧ Unmarked tokens) := by
  obtain ⟨t, hspan, hlocation, hfound, hplace⟩ := exists_place_of_error he
  have haligned : error.Aligned ↔ t.Aligned := by
    rw [ParseError.Aligned, Token.Aligned, hspan, hlocation]
  rw [haligned, hfound]
  rcases hplace with ht | ⟨rfl, hlive⟩
  · exact iff_of_true (h t ht) fun ⟨heof, hu⟩ => hu.live t ht heof
  · rw [Token.aligned_ending_iff h hlive]
    exact ⟨fun hu hboth => hu hboth.2, fun hnot hu => hnot ⟨rfl, hu⟩⟩

/-- Two numbers and no end: the error is about the second number and stands where it does. -/
theorem aligned_error_iff_juxtaposed : ∃ tokens error, (∀ t ∈ tokens, t.Aligned) ∧ Unmarked tokens ∧
    Expr.ofTokens tokens = .error error ∧ error.span = ⟨2, 3⟩ ∧ error.Aligned := by
  let tokens : List Token := [⟨.integer 1, ⟨0, 1⟩, ⟨1, 1, 0⟩⟩, ⟨.integer 2, ⟨2, 3⟩, ⟨1, 3, 2⟩⟩]
  have h : ∀ t ∈ tokens, t.Aligned := by decide
  have herror : (Expr.ofTokens tokens).casesOn (motive := fun _ => Option (Bool × Span))
      (fun e => some (e.kind.found.isEof, e.span)) (fun _ => none) = some (false, ⟨2, 3⟩) := by decide +kernel
  cases he : Expr.ofTokens tokens with
  | ok e =>
    rw [he] at herror
    cases herror
  | error error =>
    rw [he] at herror
    obtain ⟨hfound, hspan⟩ := Prod.mk.inj (Option.some.inj herror)
    refine ⟨tokens, error, h, ⟨by simp [tokens], _, rfl, by decide⟩, he, hspan, (aligned_error_iff h he).2 ?_⟩
    rintro ⟨heof, -⟩
    rw [heof] at hfound
    cases hfound

/-- A plus sign and no end: the error's span is behind the sign, its location at the sign. -/
theorem not_aligned_behind_plus : ∃ tokens error, (∀ t ∈ tokens, t.Aligned) ∧
    tokens.map Token.kind = [.integer 1, .operator .add] ∧ Expr.ofTokens tokens = .error error ∧
    error.span = .point 2 ∧ error.location = ⟨1, 2, 1⟩ ∧ ¬error.Aligned := by
  let tokens : List Token := [⟨.integer 1, ⟨0, 1⟩, ⟨1, 1, 0⟩⟩, ⟨.operator .add, ⟨1, 2⟩, ⟨1, 2, 1⟩⟩]
  have herror : (Expr.ofTokens tokens).casesOn (motive := fun _ => Option (Span × Location))
      (fun e => some (e.span, e.location)) (fun _ => none) = some (.point 2, ⟨1, 2, 1⟩) := by decide +kernel
  cases he : Expr.ofTokens tokens with
  | ok e =>
    rw [he] at herror
    cases herror
  | error error =>
    rw [he] at herror
    obtain ⟨hspan, hlocation⟩ := Prod.mk.inj (Option.some.inj herror)
    refine ⟨tokens, error, by decide, rfl, he, hspan, hlocation, fun h => ?_⟩
    rw [ParseError.Aligned, hspan, hlocation] at h
    cases h

end Reckon
