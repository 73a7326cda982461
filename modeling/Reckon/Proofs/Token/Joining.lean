import Reckon.Proofs.Token.Obstacles
import Reckon.Proofs.Token.Writing
/-!
# Joining texts between their lexemes

A text that is lexed on its own is lexed in the same way inside a longer one, wherever it begins there, as long as
what follows prolongs no lexeme. So the lexer carries nothing from one text to the next but the offset: `scan_moved`
is about the offset and `scan_append` about what follows, and both hold where the scanner fails as well.
-/

namespace Reckon

/-- The span, with `n` bytes more in front of it. -/
def Span.shiftRight (n : Nat) (s : Span) : Span := ⟨s.start + n, s.stop + n⟩

namespace Shape

/-- What follows prolongs no lexeme. -/
def Apart (rest : List Char) : Prop := ∀ s : Shape, s.Ends rest

theorem apart_of_head {c : Char} {rest : List Char} (hc : (c.isAlphanum || c == '.' || c == '*') = false) :
    Apart (c :: rest) := by
  simp only [Char.isAlphanum, Bool.or_eq_false_iff] at hc
  intro s
  unfold Ends
  split
  case h_5 => trivial
  all_goals
    refine notAhead_cons.2 ?_
    simp [Char.isAlphanum, hc]

/-- Only the first character of what follows could prolong a lexeme. -/
theorem Ends.append {s : Shape} {after rest : List Char} (h : s.Ends after) (hrest : s.Ends rest) :
    s.Ends (after ++ rest) := by
  cases after with
  | nil => exact hrest
  | cons c after =>
    unfold Ends at h ⊢
    split
    case h_5 => trivial
    all_goals exact h

end Shape

namespace Token

/-- The piece, with `n` bytes more in front of it. -/
def Piece.shiftRight (n : Nat) (p : Piece) : Piece := ⟨p.kind, p.span.shiftRight n⟩

theorem map_kind_shiftRight (n : Nat) (ps : List Piece) :
    (ps.map (Piece.shiftRight n)).map Piece.kind = ps.map Piece.kind := by
  rw [List.map_map]
  rfl

/-- A lexeme stays the longest in front of what prolongs none. -/
theorem LongestMatch.append {s : Shape} {text after rest : List Char} (h : s.LongestMatch text after)
    (hrest : Shape.Apart rest) : s.LongestMatch text (after ++ rest) :=
  h.isMatch.longestMatch (h.ends.append (hrest s))

variable {r : Registry}

/-- An obstacle stays one in front of what prolongs no lexeme. -/
theorem Obstructs.append {kind : LexError.Kind} {text after rest : List Char} (h : Obstructs r kind text after)
    (hrest : Shape.Apart rest) : Obstructs r kind text (after ++ rest) := by
  cases h with
  | unrecognized halnum hreserved hpoint =>
    exact .unrecognized halnum hreserved fun hc => Shape.Ends.append (s := .decimal) (hpoint hc) (hrest .decimal)
  | unknown hm hends hc hf => exact .unknown hm (Shape.Ends.append (s := .name) hends (hrest .name)) hc hf

/-! ## Scanning -/

/-- What the scanner gives, with `n` bytes more in front of the text. -/
def moved (n : Nat) : Except Obstacle (List Piece) → Except Obstacle (List Piece)
  | .ok pieces => .ok (pieces.map (Piece.shiftRight n))
  | .error o => .error ⟨o.kind, o.span.shiftRight n⟩

/-- Only the spans tell where a text begins. -/
theorem scan_moved (n here : Nat) (cs : List Char) : scan r (here + n) cs = moved n (scan r here cs) := by
  induction here, cs using scan.induct r with
  | case1 here =>
    rw [scan, scan]
    rfl
  | case2 here c rest hb ih =>
    rw [scan_blank hb, scan_blank hb, Nat.add_right_comm]
    exact ih
  | case3 here c rest hb hl =>
    rw [scan, scan, if_neg hb, if_neg hb]
    simp only [hl, moved, Span.shiftRight, Nat.add_right_comm]
  | case4 here c rest hb shape more hl kind hk =>
    rw [scan, scan, if_neg hb, if_neg hb]
    simp only [hl, hk, moved, Span.shiftRight, spanAt, Nat.add_right_comm]
  | case5 here c rest hb shape more hl kind hk o he ih =>
    rw [Nat.add_right_comm] at ih
    rw [scan, scan, if_neg hb, if_neg hb]
    simp only [hl, hk, he, ih, moved]
  | case6 here c rest hb shape more hl kind hk pieces hok ih =>
    rw [Nat.add_right_comm] at ih
    rw [scan, scan, if_neg hb, if_neg hb]
    simp only [hl, hk, hok, ih, moved, List.map_cons, Piece.shiftRight, Span.shiftRight, spanAt, Nat.add_right_comm]

/-- What comes of two texts that are scanned one behind the other: what is wrong first, or the pieces of both. The end
of the first text is none any more. -/
def joined : Except Obstacle (List Piece) → Except Obstacle (List Piece) → Except Obstacle (List Piece)
  | .error o, _ => .error o
  | .ok _, .error o => .error o
  | .ok first, .ok second => .ok (first.dropLast ++ second)

/-- A text in front of what prolongs no lexeme is scanned as it is by itself, and what follows is only come to when
nothing is wrong before. -/
theorem scan_append {rest : List Char} (hrest : Shape.Apart rest) (here : Nat) (cs : List Char) :
    scan r here (cs ++ rest) = joined (scan r here cs) (scan r (here + byteLength cs) rest) := by
  induction here, cs using scan.induct r with
  | case1 here =>
    rw [scan.eq_1, List.nil_append, byteLength, Nat.add_zero]
    cases scan r here rest <;> rfl
  | case2 here c cs hb ih =>
    rw [List.cons_append, scan_blank hb, scan_blank hb, ih, byteLength, Nat.add_assoc]
  | case3 here c cs hb hl =>
    have ho : Obstructs r (.unrecognizedCharacter c) [c] cs := by
      obtain ⟨halnum, hreserved, hpoint⟩ := Shape.of_longest?_eq_none (by simpa using hb) hl
      exact .unrecognized halnum hreserved hpoint
    have halone : scan r here ([c] ++ cs) = _ := ho.scan_eq
    have hbefore : scan r here ([c] ++ (cs ++ rest)) = _ := (ho.append hrest).scan_eq
    rw [List.singleton_append] at halone hbefore
    rw [List.cons_append, halone, hbefore, joined]
  | case4 here c cs hb shape more hl kind hk =>
    obtain ⟨after, rfl, hm⟩ := Shape.longest?_eq_some_iff.1 hl
    rw [← List.cons_append, List.append_assoc, scan_lexeme hm, scan_lexeme (LongestMatch.append hm hrest), hk]
    rfl
  | case5 here c cs hb shape more hl kind hk o he ih =>
    obtain ⟨after, rfl, hm⟩ := Shape.longest?_eq_some_iff.1 hl
    rw [List.drop_left] at he ih
    rw [← List.cons_append, List.append_assoc, scan_lexeme hm, scan_lexeme (LongestMatch.append hm hrest), hk, ih, he]
    rfl
  | case6 here c cs hb shape more hl kind hk pieces hok ih =>
    obtain ⟨after, rfl, hm⟩ := Shape.longest?_eq_some_iff.1 hl
    rw [List.drop_left] at hok ih
    -- The pieces end with the end of the text, so the lexeme is not what is left out.
    obtain ⟨init, hinit, -⟩ := (splits_of_scan hok).exists_init
    have hne : pieces ≠ [] := by simp [hinit]
    rw [← List.cons_append, List.append_assoc, scan_lexeme hm, scan_lexeme (LongestMatch.append hm hrest), hk]
    rw [hok, ih, byteLength_append, ← Nat.add_assoc, hok]
    cases scan r (here + byteLength (c :: more) + byteLength after) rest with
    | error o => rfl
    | ok second => simp only [joined, Except.map, List.dropLast_cons_of_ne_nil hne, List.cons_append]

namespace Splits

variable {here : Nat} {cs : List Char}

/-- Only the spans tell where a text begins. -/
theorem shiftRight {pieces : List Piece} (n : Nat) (h : Splits r here cs pieces) :
    Splits r (here + n) cs (pieces.map (Piece.shiftRight n)) := by
  refine splits_of_scan ?_
  rw [scan_moved, h.scan_eq]
  rfl

/-- The pieces of a text come before those of what follows it. -/
theorem append {front pieces : List Piece} {last : Piece} {rest : List Char} (h : Splits r here cs (front ++ [last]))
    (hrest : Shape.Apart rest) (hs : Splits r (here + byteLength cs) rest pieces) :
    Splits r here (cs ++ rest) (front ++ pieces) := by
  refine splits_of_scan ?_
  rw [scan_append hrest, h.scan_eq, hs.scan_eq]
  rw [joined, List.dropLast_concat]

end Splits

/-- A source that is lexed is lexed to the same kinds in front of what prolongs no lexeme. -/
theorem lexes_of_lex {source : String} {tokens : List Token} (h : lex r source = .ok tokens) :
    Lexes r Shape.Apart source (content tokens) := by
  intro here rest ps hrest hs
  have hsource : Splits r 0 source.toList (tokens.map piece) := lex_eq_ok_iff.1 ⟨tokens, h, rfl⟩
  have hmoved := hsource.shiftRight here
  rw [map_piece_of_lex h, List.map_append, Nat.zero_add] at hmoved
  refine ⟨(pieces tokens).map (Piece.shiftRight here), ?_, hmoved.append hrest hs⟩
  rw [map_kind_shiftRight, map_kind_pieces]

end Token

end Reckon
