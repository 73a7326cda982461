import Reckon.Proofs.Expr.Resuming
import Reckon.Proofs.Source.Counting
import Reckon.Proofs.Token.Splitting
/-!
# Where tokens and errors stand

The lexer asks its tracker for one location after the other, each at the start of a lexeme or at the end of the
source. So every location that it gives to a token or an error is the one that is counted from the start of the
source, and none is inside a line break. The parser takes the place of an error from a token, and never from behind
the last one, since the lexer ends its tokens with one that ends the input.
-/

namespace Reckon

/-- The location is the one of an offset, counted from the start of the source; the offset is not inside a line break.
-/
def Located (source : List Char) (offset : Nat) (l : Location) : Prop :=
  ∃ before after, source = before ++ after ∧ byteLength before = offset ∧ l = .behind before ∧ NotInBreak before after

variable {source : List Char} {offset : Nat} {l : Location}

theorem Located.offset_eq (h : Located source offset l) : l.offset = offset := by
  obtain ⟨before, after, -, hoffset, rfl, -⟩ := h
  exact hoffset

namespace Token

/-- Whatever the lexer gives is located. -/
def AllLocated (source : List Char) : Except LexError (List Token) → Prop
  | .error e => Located source e.span.start e.location
  | .ok tokens => ∀ t ∈ tokens, Located source t.span.start t.location

theorem AllLocated.cons {t : Token} {result : Except LexError (List Token)} (ht : Located source t.span.start t.location)
    (h : AllLocated source result) : AllLocated source (result.map (t :: ·)) := by
  cases result with
  | error e => exact h
  | ok tokens => exact List.forall_mem_cons.2 ⟨ht, h⟩

/-- The lexer is at the byte `here` of the source, and the tracker behind it by a gap. -/
structure Follows (source : List Char) (t : Tracker) (here : Nat) (cs : List Char) : Prop where
  split : ∃ passed gap, source = passed ++ (gap ++ cs) ∧ t.Stands passed ∧ t.ahead = gap ++ cs ∧
    byteLength (passed ++ gap) = here

namespace Follows

variable {t : Tracker} {here : Nat} {cs : List Char}

theorem skip {c : Char} (h : Follows source t here (c :: cs)) : Follows source t (here + c.utf8Size) cs := by
  obtain ⟨passed, gap, hsource, hstands, hahead, rfl⟩ := h.split
  refine ⟨passed, gap ++ [c], by simp [hsource], hstands, by simp [hahead], ?_⟩
  rw [← List.append_assoc, byteLength_append _ [c]]
  rfl

/-- The tracker catches up with the lexer. -/
theorem locate (h : Follows source t here cs) (hfeed : cs.head? ≠ some '\n') :
    Located source here (t.locate here).location ∧
      ∀ text after, cs = text ++ after → Follows source (t.locate here) (here + byteLength text) after := by
  obtain ⟨passed, gap, hsource, hstands, hahead, rfl⟩ := h.split
  obtain ⟨hstands', hahead'⟩ := hstands.locate hahead
  have hbreak : NotInBreak (passed ++ gap) cs := fun hb => hfeed hb.2
  rw [← List.append_assoc] at hsource
  refine ⟨⟨passed ++ gap, cs, hsource, rfl, hstands'.location, hbreak⟩, ?_⟩
  rintro text after rfl
  exact ⟨passed ++ gap, text, hsource, hstands', hahead', byteLength_append _ _⟩

end Follows

theorem head?_ne_lineFeed {c : Char} {rest : List Char} (hb : ¬Shape.isBlank c = true) :
    (c :: rest).head? ≠ some '\n' := by
  intro h
  cases h
  exact hb rfl

theorem allLocated_lexFrom (r : Registry) (t : Tracker) (here : Nat) (cs : List Char) :
    Follows source t here cs → AllLocated source (lexFrom r t here cs) := by
  induction t, here, cs using lexFrom.induct r with
  | case1 t here =>
    intro h
    have hend : ([] : List Char).head? ≠ some '\n' := by simp
    obtain ⟨hloc, -⟩ := h.locate hend
    rw [lexFrom]
    intro token htoken
    cases List.mem_singleton.1 htoken
    rw [atEnd, Span.point, hloc.offset_eq]
    exact hloc
  | case2 t here c rest hb ih =>
    intro h
    rw [lexFrom, if_pos hb]
    exact ih h.skip
  | case3 t here c rest hb hl =>
    intro h
    rw [lexFrom, if_neg hb]
    simp only [hl]
    exact (h.locate (head?_ne_lineFeed hb)).1
  | case4 t here c rest hb shape more hl kind hk =>
    intro h
    rw [lexFrom, if_neg hb]
    simp only [hl, hk]
    exact (h.locate (head?_ne_lineFeed hb)).1
  | case5 t here c rest hb t' shape more hl span kind hk e he ih
  | case6 t here c rest hb t' shape more hl span kind hk tokens he ih =>
    intro h
    obtain ⟨-, after, rfl, -⟩ := Shape.matches_of_longest? hl
    obtain ⟨hloc, hnext⟩ := h.locate (head?_ne_lineFeed hb)
    have hrest := ih (by rw [List.drop_left]; exact hnext (c :: more) after rfl)
    rw [he] at hrest
    rw [lexFrom, if_neg hb]
    simp only [hl, hk]
    rw [show here + byteLength (c :: more) = span.stop from rfl, he]
    exact AllLocated.cons (t := ⟨kind, span, t'.location⟩) hloc hrest

theorem allLocated_lex (r : Registry) (source : String) : AllLocated source.toList (lex r source) :=
  allLocated_lexFrom r _ 0 source.toList ⟨[], [], rfl, Tracker.stands_ofSource _, rfl, rfl⟩

end Token

/-- An error of the parser is at a token of the lexer. -/
theorem exists_token_of_error {r : Registry} {source : String} {tokens : List Token} {error : ParseError}
    (hl : Token.lex r source = .ok tokens) (h : Expr.ofTokens tokens = .error error) :
    ∃ t ∈ tokens, error.span = t.span ∧ error.location = t.location := by
  obtain ⟨init, last, rfl, hlast, -⟩ := Token.exists_init_of_lex hl
  have hend : ∃ t ∈ init ++ [last], t.kind = .eof := ⟨last, by simp, hlast⟩
  obtain ⟨live, ending, hends⟩ := exists_endsAt hend
  obtain ⟨t, ht, hspan, hlocation, -⟩ := (hends.resumption 0).error error h
  exact ⟨t, List.mem_of_getElem? ht, hspan, hlocation⟩

end Reckon
