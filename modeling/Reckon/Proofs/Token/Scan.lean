import Reckon.Proofs.Token.Content
import Reckon.Proofs.Token.Lexeme
/-!
# Scanning without locations

The lexer carries a tracker along only to tell people where each token stands. Without it a source is cut into pieces,
which are tokens without their locations, and a failure is a reason and a span. `forget_lex` says that the lexer finds
just these; what concerns kinds and spans alone is proved about `scan`.
-/

namespace Reckon

namespace Tracker

theorem offset_advance (l : Location) (afterReturn : Bool) (c : Char) :
    (l.advance afterReturn c).offset = l.offset + c.utf8Size := by
  unfold Location.advance
  split
  · rfl
  · split
    · rfl
    · split <;> rfl

/-- A walk to the end of what it has not passed yet gets there. -/
theorem walk_append {gap cs : List Char} {here : Nat} {l : Location} (afterReturn : Bool)
    (h : l.offset + byteLength gap = here) :
    (walk here (gap ++ cs) l afterReturn).ahead = cs ∧ (walk here (gap ++ cs) l afterReturn).location.offset = here := by
  induction gap generalizing l afterReturn with
  | nil =>
    rw [byteLength, Nat.add_zero] at h
    cases cs with
    | nil => exact ⟨rfl, h⟩
    | cons c cs =>
      rw [List.nil_append, walk, if_neg (by omega)]
      exact ⟨rfl, h⟩
  | cons c gap ih =>
    have hpos := c.utf8Size_pos
    rw [byteLength] at h
    rw [List.cons_append, walk, if_pos (by omega)]
    exact ih _ (by rw [offset_advance]; omega)

theorem locate_of_ahead {t : Tracker} {gap cs : List Char} {here : Nat} (ht : t.ahead = gap ++ cs)
    (h : t.location.offset + byteLength gap = here) :
    (t.locate here).ahead = cs ∧ (t.locate here).location.offset = here := by
  unfold locate
  rw [ht]
  exact walk_append _ h

end Tracker

namespace Token

/-- Why the pieces come to an end too early, and where. -/
structure Obstacle where
  kind : LexError.Kind
  span : Span

/-- What the lexer gives, without the locations. -/
def forget : Except LexError (List Token) → Except Obstacle (List Piece)
  | .ok tokens => .ok (tokens.map piece)
  | .error e => .error ⟨e.kind, e.span⟩

theorem of_forget_ok {result : Except LexError (List Token)} {pieces : List Piece} (h : forget result = .ok pieces) :
    ∃ tokens, result = .ok tokens ∧ tokens.map piece = pieces := by
  cases result with
  | error e => cases h
  | ok tokens => exact ⟨tokens, rfl, Except.ok.inj h⟩

theorem of_forget_error {result : Except LexError (List Token)} {o : Obstacle} (h : forget result = .error o) :
    ∃ e, result = .error e ∧ e.kind = o.kind ∧ e.span = o.span := by
  cases result with
  | ok tokens => cases h
  | error e =>
    cases h
    exact ⟨e, rfl, rfl, rfl⟩

/-- The span of a text that begins at the byte `here`. -/
def spanAt (here : Nat) (text : List Char) : Span := ⟨here, here + byteLength text⟩

/-- The pieces of the rest of a source that begins at the byte `here`. -/
def scan (r : Registry) (here : Nat) : List Char → Except Obstacle (List Piece)
  | [] => .ok [⟨.eof, .point here⟩]
  | c :: rest =>
    if Shape.isBlank c then scan r (here + c.utf8Size) rest
    else
      match Shape.longest? c rest with
      | none => .error ⟨.unrecognizedCharacter c, ⟨here, here + c.utf8Size⟩⟩
      | some (shape, more) =>
        match r.kindOf (c :: more) shape with
        | .error kind => .error ⟨kind, spanAt here (c :: more)⟩
        | .ok kind =>
          match scan r (here + byteLength (c :: more)) (rest.drop more.length) with
          | .error e => .error e
          | .ok pieces => .ok (⟨kind, spanAt here (c :: more)⟩ :: pieces)
  termination_by source => source.length

section
variable {r : Registry} {here : Nat} {text after cs : List Char}

theorem scan_blank {c : Char} (hb : Shape.isBlank c = true) : scan r here (c :: cs) = scan r (here + c.utf8Size) cs := by
  rw [scan, if_pos hb]

theorem scan_lexeme {s : Shape} (hm : s.LongestMatch text after) : scan r here (text ++ after) =
    match r.kindOf text s with
    | .error kind => .error ⟨kind, spanAt here text⟩
    | .ok kind => (scan r (here + byteLength text) after).map (⟨kind, spanAt here text⟩ :: ·) := by
  obtain ⟨c, more, rfl⟩ := List.exists_cons_of_ne_nil hm.isMatch.ne_nil
  have hb : ¬Shape.isBlank c = true := by simp [hm.isMatch.not_isBlank List.mem_cons_self]
  have hl := Shape.longest?_eq_some_iff.2 ⟨after, rfl, hm⟩
  rw [List.cons_append, scan, if_neg hb]
  simp only [hl, List.drop_left]
  cases r.kindOf (c :: more) s with
  | error kind => rfl
  | ok kind => cases scan r (here + byteLength (c :: more)) after <;> rfl

end

theorem forget_lexFrom (r : Registry) (t : Tracker) (here : Nat) (cs : List Char) :
    (∃ gap, t.ahead = gap ++ cs ∧ t.location.offset + byteLength gap = here) →
      forget (lexFrom r t here cs) = scan r here cs := by
  -- The tracker stays behind by the blanks that have been skipped, which are the gap.
  induction t, here, cs using lexFrom.induct r with
  | case1 t here =>
    rintro ⟨gap, ht, ho⟩
    rw [lexFrom, scan]
    simp [forget, piece, atEnd, (Tracker.locate_of_ahead ht ho).2]
  | case2 t here c rest hb ih =>
    rintro ⟨gap, ht, ho⟩
    rw [lexFrom, scan, if_pos hb, if_pos hb]
    refine ih ⟨gap ++ [c], by simp [ht], ?_⟩
    rw [byteLength_append, byteLength, byteLength]
    omega
  | case3 t here c rest hb hl =>
    rintro -
    rw [lexFrom, scan, if_neg hb, if_neg hb]
    simp only [hl]
    rfl
  | case4 t here c rest hb shape more hl kind hk =>
    rintro -
    rw [lexFrom, scan, if_neg hb, if_neg hb]
    simp only [hl, hk]
    rfl
  | case5 t here c rest hb t' shape more hl span kind hk e he ih
  | case6 t here c rest hb t' shape more hl span kind hk tokens he ih =>
    rintro ⟨gap, ht, ho⟩
    obtain ⟨-, after, rfl, -⟩ := Shape.matches_of_longest? hl
    obtain ⟨ha, hloc⟩ := Tracker.locate_of_ahead ht ho
    have hrest := ih ⟨c :: more, by simp [t', ha], by simp [t', hloc, span]⟩
    rw [lexFrom, scan, if_neg hb, if_neg hb]
    simp only [hl, hk]
    rw [show here + byteLength (c :: more) = span.stop from rfl, ← hrest, he]
    rfl

theorem forget_lex (r : Registry) (source : String) : forget (lex r source) = scan r 0 source.toList :=
  forget_lexFrom r _ 0 source.toList ⟨[], rfl, rfl⟩

theorem piece_of_lex {r : Registry} {source : String} {tokens : List Token} (h : lex r source = .ok tokens) :
    scan r 0 source.toList = .ok (tokens.map piece) := by
  rw [← forget_lex, h, forget]

theorem obstacle_of_lex {r : Registry} {source : String} {e : LexError} (h : lex r source = .error e) :
    scan r 0 source.toList = .error ⟨e.kind, e.span⟩ := by
  rw [← forget_lex, h, forget]

theorem lex_of_scan {r : Registry} {source : String} {pieces : List Piece} (h : scan r 0 source.toList = .ok pieces) :
    ∃ tokens, lex r source = .ok tokens ∧ tokens.map piece = pieces := by
  rw [← forget_lex] at h
  exact of_forget_ok h

/-! ## Splittings -/

/-- The rest of a source, which begins at the byte `here`, falls into some pieces with blanks between them. -/
inductive Splits (r : Registry) : Nat → List Char → List Piece → Prop
  | done (here) : Splits r here [] [⟨.eof, .point here⟩]
  | blank {here c rest pieces} : Shape.isBlank c → Splits r (here + c.utf8Size) rest pieces →
      Splits r here (c :: rest) pieces
  | lexeme {here shape text after kind pieces} : Shape.LongestMatch shape text after → r.kindOf text shape = .ok kind →
      Splits r (here + byteLength text) after pieces → Splits r here (text ++ after) (⟨kind, spanAt here text⟩ :: pieces)

theorem splits_of_scan {r : Registry} {here : Nat} {cs : List Char} {pieces : List Piece}
    (h : scan r here cs = .ok pieces) : Splits r here cs pieces := by
  induction here, cs using scan.induct r generalizing pieces with
  | case1 here =>
    rw [scan] at h
    cases h
    exact .done here
  | case2 here c rest hb ih =>
    rw [scan, if_pos hb] at h
    exact .blank hb (ih h)
  | case3 here c rest hb hl =>
    rw [scan, if_neg hb] at h
    simp only [hl] at h
    cases h
  | case4 here c rest hb shape more hl kind hk =>
    rw [scan, if_neg hb] at h
    simp only [hl, hk] at h
    cases h
  | case5 here c rest hb shape more hl kind hk e he =>
    rw [scan, if_neg hb] at h
    simp only [hl, hk, he] at h
    cases h
  | case6 here c rest hb shape more hl kind hk pieces' hok ih =>
    rw [scan, if_neg hb] at h
    simp only [hl, hk, hok] at h
    cases h
    obtain ⟨after, rfl, hm⟩ := Shape.longest?_eq_some_iff.1 hl
    rw [List.drop_left] at ih hok
    exact .lexeme hm hk (ih hok)

theorem Splits.scan_eq {r : Registry} {here : Nat} {cs : List Char} {pieces : List Piece}
    (h : Splits r here cs pieces) : scan r here cs = .ok pieces := by
  induction h with
  | done here => rw [scan]
  | blank hb _ ih => rw [scan_blank hb, ih]
  | lexeme hm hk _ ih =>
    rw [scan_lexeme hm, hk, ih]
    rfl

/-- The lexer finds just the splittings of a source. -/
theorem lex_eq_ok_iff {r : Registry} {source : String} {pieces : List Piece} :
    (∃ tokens, lex r source = .ok tokens ∧ tokens.map piece = pieces) ↔ Splits r 0 source.toList pieces := by
  refine ⟨?_, fun h => lex_of_scan h.scan_eq⟩
  rintro ⟨tokens, h, rfl⟩
  exact splits_of_scan (piece_of_lex h)

end Token

end Reckon
