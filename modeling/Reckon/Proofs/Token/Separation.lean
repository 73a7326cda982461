import Reckon.Proofs.Token.Joining
/-!
# Blanks between two texts

No lexeme goes on over a blank, and behind one the lexer begins anew with nothing but its offset. So a text, some
blanks and another text are lexed as the two texts are: what is wrong with the first comes first, and what the second
gives is shifted to where it begins.
-/

namespace Reckon

/-- Blanks prolong no lexeme. -/
theorem Shape.apart_of_blanks {w : List Char} (hne : w ≠ []) (hw : ∀ c ∈ w, isBlank c = true) (rest : List Char) :
    Apart (w ++ rest) := by
  obtain ⟨c, w, rfl⟩ := List.exists_cons_of_ne_nil hne
  have hc := hw c List.mem_cons_self
  refine apart_of_head ?_
  simp only [isBlank, Bool.or_eq_true, beq_iff_eq] at hc
  rcases hc with ((rfl | rfl) | rfl) | rfl
  all_goals rfl

namespace Token

variable {r : Registry}

theorem scan_blanks {w : List Char} (hw : ∀ c ∈ w, Shape.isBlank c = true) (here : Nat) (rest : List Char) :
    scan r here (w ++ rest) = scan r (here + byteLength w) rest := by
  induction w generalizing here with
  | nil => rfl
  | cons c w ih =>
    obtain ⟨hc, hw⟩ := List.forall_mem_cons.1 hw
    rw [List.cons_append, scan_blank hc, ih hw, byteLength, Nat.add_assoc]

/-- Two texts with blanks between them are scanned one by one. -/
theorem scan_separated {w : List Char} (hne : w ≠ []) (hw : ∀ c ∈ w, Shape.isBlank c = true) (first second : List Char) :
    scan r 0 (first ++ (w ++ second)) =
      joined (scan r 0 first) (moved (byteLength first + byteLength w) (scan r 0 second)) := by
  rw [scan_append (Shape.apart_of_blanks hne hw second), scan_blanks hw, ← scan_moved, Nat.add_assoc]

/-- So are they lexed, apart from locations. -/
theorem forget_lex_separated {a w b : String} (hne : w ≠ "") (hw : ∀ c ∈ w.toList, Shape.isBlank c = true) :
    forget (lex r (a ++ w ++ b)) =
      joined (forget (lex r a)) (moved (a.utf8ByteSize + w.utf8ByteSize) (forget (lex r b))) := by
  have hlist : w.toList ≠ [] := fun h => hne (String.toList_eq_nil_iff.1 h)
  rw [forget_lex, forget_lex, forget_lex, ← byteLength_toList, ← byteLength_toList, ← scan_separated hlist hw]
  rw [String.toList_append, String.toList_append, List.append_assoc]

/-- The lexer's result for a whole is put together from those for the two texts in it, of which the second begins at
the byte `n`. -/
structure PutTogether (n : Nat) (first second whole : Except LexError (List Token)) : Prop where
  ok_iff : (∃ tokens, whole = .ok tokens) ↔ (∃ tokens, first = .ok tokens) ∧ ∃ tokens, second = .ok tokens
  /-- The tokens are those of the first text but for its end, and then those of the second. -/
  tokens : ∀ {ts us}, first = .ok ts → second = .ok us → ∃ vs init last, whole = .ok vs ∧ ts = init ++ [last] ∧
    last.kind = .eof ∧ (∀ t ∈ init, t.kind ≠ .eof) ∧
    vs.map piece = init.map piece ++ (us.map piece).map (Piece.shiftRight n)
  firstError : ∀ {e}, first = .error e → ∃ e', whole = .error e' ∧ e'.kind = e.kind ∧ e'.span = e.span
  secondError : ∀ {ts e}, first = .ok ts → second = .error e →
    ∃ e', whole = .error e' ∧ e'.kind = e.kind ∧ e'.span = e.span.shiftRight n

theorem putTogether_of_forget {n : Nat} {a b whole : String}
    (h : forget (lex r whole) = joined (forget (lex r a)) (moved n (forget (lex r b)))) :
    PutTogether n (lex r a) (lex r b) (lex r whole) := by
  cases ha : lex r a with
  | error e =>
    rw [ha] at h
    obtain ⟨e', hwhole, hkind, hspan⟩ := of_forget_error h
    rw [hwhole]
    refine ⟨by simp, by simp, fun he => ?_, by simp⟩
    cases he
    exact ⟨e', rfl, hkind, hspan⟩
  | ok ts =>
    obtain ⟨init, last, rfl, hlast, hinit⟩ := exists_init_of_lex ha
    cases hb : lex r b with
    | error e =>
      rw [ha, hb] at h
      obtain ⟨e', hwhole, hkind, hspan⟩ := of_forget_error h
      rw [hwhole]
      refine ⟨by simp, by simp, by simp, fun _ he => ?_⟩
      cases he
      exact ⟨e', rfl, hkind, hspan⟩
    | ok us =>
      rw [ha, hb] at h
      obtain ⟨vs, hwhole, hpieces⟩ := of_forget_ok h
      rw [List.map_append, List.map_singleton, List.dropLast_concat] at hpieces
      rw [hwhole]
      refine ⟨by simp, fun hts hus => ?_, by simp, by simp⟩
      cases hts
      cases hus
      exact ⟨vs, init, last, rfl, rfl, hlast, hinit, hpieces⟩

/-- The lexer takes a text, blanks and another text as it takes the two texts. -/
theorem lex_separated {a w b : String} (hsize : (a ++ w ++ b).utf8ByteSize < 2 ^ 30) (hne : w ≠ "")
    (hw : ∀ c ∈ w.toList, Shape.isBlank c = true) :
    (∀ source ∈ [a, b, a ++ w ++ b], lex? r source = some (lex r source)) ∧
      PutTogether (a.utf8ByteSize + w.utf8ByteSize) (lex r a) (lex r b) (lex r (a ++ w ++ b)) := by
  have hsum : (a ++ w ++ b).utf8ByteSize = a.utf8ByteSize + w.utf8ByteSize + b.utf8ByteSize := by
    rw [String.utf8ByteSize_append, String.utf8ByteSize_append]
  refine ⟨fun source hmem => lex?_eq r ?_, putTogether_of_forget (forget_lex_separated hne hw)⟩
  simp only [List.mem_cons, List.not_mem_nil, or_false] at hmem
  rcases hmem with rfl | rfl | rfl <;> omega

/-- Two stars with a tab between them are no power, and the point behind them is the first thing wrong. -/
theorem lex_separated_stars : ("2*" ++ "\t" ++ "*.PI").utf8ByteSize < 2 ^ 30 ∧
    lex? .standard ("2*" ++ "\t" ++ "*.PI") = some (lex .standard ("2*" ++ "\t" ++ "*.PI")) ∧
    ∃ e, lex .standard ("2*" ++ "\t" ++ "*.PI") = .error e ∧ e.kind = .unrecognizedCharacter '.' ∧ e.span = ⟨4, 5⟩ := by
  have hsize : ("2*" ++ "\t" ++ "*.PI").utf8ByteSize < 2 ^ 30 := by decide +kernel
  obtain ⟨hlex, hput⟩ := @lex_separated .standard "2*" "\t" "*.PI" hsize (by decide) (List.forall_mem_singleton.2 rfl)
  refine ⟨hsize, hlex _ (by simp), ?_⟩
  have hfirst : (lex .standard "2*").toBool = true := by decide +kernel
  have hsecond : (lex .standard "*.PI").casesOn (motive := fun _ => Option (LexError.Kind × Span))
      (fun e => some (e.kind, e.span)) (fun _ => none) = some (.unrecognizedCharacter '.', ⟨1, 2⟩) := by decide +kernel
  cases ha : lex .standard "2*" with
  | error e =>
    rw [ha] at hfirst
    cases hfirst
  | ok ts =>
    cases hb : lex .standard "*.PI" with
    | ok us =>
      rw [hb] at hsecond
      cases hsecond
    | error e =>
      rw [hb] at hsecond
      obtain ⟨hkind, hspan⟩ := Prod.mk.inj (Option.some.inj hsecond)
      obtain ⟨e', hwhole, hkind', hspan'⟩ := hput.secondError ha hb
      refine ⟨e', hwhole, hkind'.trans hkind, hspan'.trans ?_⟩
      rw [show e.span = ⟨1, 2⟩ from hspan]
      rfl

end Token

end Reckon
