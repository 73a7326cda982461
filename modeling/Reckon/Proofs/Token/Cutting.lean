import Reckon.Proofs.Token.Splitting
/-!
# Cutting a source between its lexemes

A source that is cut at the edges of its lexemes is lexed as before: what stands in front of the cut does not matter
to what stands behind it, and a lexeme that is the longest stays so when less follows. `lex_of_segment` puts the cuts
at both ends together. The offsets of what is cut out begin at zero again, so its spans are shifted to the left.
-/

namespace Reckon

/-- The span, with `n` bytes less in front of it. -/
def Span.shiftLeft (n : Nat) (s : Span) : Span := ⟨s.start - n, s.stop - n⟩

theorem Span.shiftLeft_merge (n : Nat) (s s' : Span) : (s.merge s').shiftLeft n = (s.shiftLeft n).merge (s'.shiftLeft n) := by
  simp only [shiftLeft, merge, Span.mk.injEq]
  omega

namespace Token

/-- The piece, with `n` bytes less in front of it. -/
def Piece.shiftLeft (n : Nat) (p : Piece) : Piece := ⟨p.kind, p.span.shiftLeft n⟩

/-- A lexeme stays the longest when less follows. -/
theorem LongestMatch.of_append {s : Shape} {text after : List Char} (more : List Char)
    (h : s.LongestMatch text (after ++ more)) : s.LongestMatch text after := by
  refine ⟨h.isMatch, fun s' text' hm hp => h.longest s' text' hm ?_⟩
  rw [← List.append_assoc]
  exact hp.trans (List.prefix_append _ _)

namespace Splits

variable {r : Registry} {here : Nat} {cs : List Char}

/-- The pieces from one of them on are those of the text that begins with it. -/
theorem drop_front {p : Piece} {ps qs : List Piece} (h : Splits r here cs (ps ++ p :: qs)) :
    ∃ before rest, cs = before ++ rest ∧ p.span.start = here + byteLength before ∧
      Splits r (here + byteLength before) rest (p :: qs) := by
  generalize hall : ps ++ p :: qs = all at h
  induction h generalizing ps with
  | done here =>
    cases ps with
    | nil =>
      obtain ⟨rfl, rfl⟩ := List.cons.inj hall
      exact ⟨[], [], rfl, rfl, .done here⟩
    | cons p' ps => simp at hall
  | @blank here c rest pieces hb _ ih =>
    obtain ⟨before, rest', rfl, hstart, hs⟩ := ih hall
    rw [Nat.add_assoc] at hstart hs
    exact ⟨c :: before, rest', rfl, hstart, hs⟩
  | @lexeme here shape text after kind pieces hm hk hs ih =>
    cases ps with
    | nil =>
      obtain ⟨rfl, rfl⟩ := List.cons.inj hall
      exact ⟨[], text ++ after, rfl, rfl, .lexeme hm hk hs⟩
    | cons p' ps =>
      obtain ⟨before, rest', rfl, hstart, hs⟩ := ih (List.cons.inj hall).2
      rw [Nat.add_assoc, ← byteLength_append] at hstart hs
      exact ⟨text ++ before, rest', (List.append_assoc ..).symm, hstart, hs⟩

/-- The pieces up to one of them are those of the text that ends with it. -/
theorem take_front {p : Piece} {ps qs : List Piece} (h : Splits r here cs (ps ++ p :: qs)) (hp : p.kind ≠ .eof) :
    ∃ text after, cs = text ++ after ∧ p.span.stop = here + byteLength text ∧
      Splits r here text (ps ++ [p, ⟨.eof, .point (here + byteLength text)⟩]) := by
  generalize hall : ps ++ p :: qs = all at h
  induction h generalizing ps with
  | done here =>
    cases ps with
    | nil =>
      obtain ⟨rfl, rfl⟩ := List.cons.inj hall
      exact absurd rfl hp
    | cons p' ps => simp at hall
  | @blank here c rest pieces hb _ ih =>
    obtain ⟨text, after, rfl, hstop, hs⟩ := ih hall
    rw [Nat.add_assoc] at hstop hs
    exact ⟨c :: text, after, rfl, hstop, .blank hb hs⟩
  | @lexeme here shape text after kind pieces hm hk hs ih =>
    cases ps with
    | nil =>
      obtain ⟨rfl, rfl⟩ := List.cons.inj hall
      refine ⟨text, after, rfl, rfl, ?_⟩
      have hlast : Splits r here (text ++ []) _ := .lexeme (LongestMatch.of_append after hm) hk (.done _)
      rwa [List.append_nil] at hlast
    | cons p' ps =>
      obtain ⟨rfl, hrest⟩ := List.cons.inj hall
      obtain ⟨text', after', rfl, hstop, hs⟩ := ih hrest
      rw [Nat.add_assoc, ← byteLength_append] at hstop hs
      exact ⟨text ++ text', after', (List.append_assoc ..).symm, hstop, .lexeme (LongestMatch.of_append _ hm) hk hs⟩

/-- Only the spans tell where a text begins. -/
theorem shiftLeft {pieces : List Piece} {n : Nat} (h : Splits r here cs pieces) (hn : n ≤ here) :
    Splits r (here - n) cs (pieces.map (Piece.shiftLeft n)) := by
  induction h with
  | done here => exact .done _
  | @blank here c rest pieces hb _ ih =>
    have hs := ih (by omega)
    rw [Nat.sub_add_comm hn] at hs
    exact .blank hb hs
  | @lexeme here shape text after kind pieces hm hk _ ih =>
    have hs := ih (by omega)
    rw [Nat.sub_add_comm hn] at hs
    have hspan : (⟨kind, spanAt here text⟩ : Piece).shiftLeft n = ⟨kind, spanAt (here - n) text⟩ := by
      simp only [Piece.shiftLeft, Span.shiftLeft, spanAt, Nat.sub_add_comm hn]
    rw [List.map_cons, hspan]
    exact .lexeme hm hk hs

end Splits

/-- The span goes from the first of the pieces to the last. -/
structure Extent (ps : List Piece) (s : Span) : Prop where
  first : ∃ p rest, ps = p :: rest ∧ p.span.start = s.start
  last : ∃ init p, ps = init ++ [p] ∧ p.span.stop = s.stop

/-- The text of some neighbouring lexemes, cut out of its source, is lexed into the same pieces. -/
theorem lex_of_segment {r : Registry} {source : String} {ps own qs : List Piece} {s : Span}
    (h : Splits r 0 source.toList (ps ++ (own ++ qs))) (hs : Extent own s) (hown : ∀ p ∈ own, p.kind ≠ .eof) :
    ∃ before text after, source.toList = before ++ text ++ after ∧ s = spanAt (byteLength before) text ∧
      ∃ tokens, lex r (String.ofList text) = .ok tokens ∧ pieces tokens = own.map (Piece.shiftLeft s.start) := by
  obtain ⟨⟨p, rest, hfirst, hstart⟩, ⟨init, q, hlast, hstop⟩⟩ := hs
  rw [hfirst, List.cons_append] at h
  obtain ⟨before, behind, hsource, hp, h⟩ := h.drop_front
  rw [Nat.zero_add] at hp h
  rw [← List.cons_append, ← hfirst, hlast, List.append_assoc, List.singleton_append] at h
  have hq : q.kind ≠ .eof := hown q (by simp [hlast])
  obtain ⟨text, after, rfl, hlen, h⟩ := h.take_front hq
  have htext := h.shiftLeft (Nat.le_refl _)
  rw [List.append_cons, ← hlast, Nat.sub_self, List.map_append, ← String.toList_ofList (l := text)] at htext
  obtain ⟨tokens, hlex, hpieces⟩ := lex_eq_ok_iff.2 htext
  have hspan : s = spanAt (byteLength before) text := by
    obtain ⟨start, stop⟩ := s
    simp only at hstart hstop
    rw [spanAt, ← hstart, ← hstop, hp, hlen]
  refine ⟨before, text, after, by rw [hsource, List.append_assoc], hspan, tokens, hlex, ?_⟩
  rw [← hstart, hp]
  refine pieces_eq hpieces (fun p' hp' => ?_) rfl
  obtain ⟨p'', hmem, rfl⟩ := List.mem_map.1 hp'
  exact hown p'' hmem

end Token

end Reckon
