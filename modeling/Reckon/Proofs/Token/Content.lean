import Reckon.Token.Cursor
/-!
# What a cursor sees

A cursor never looks behind the first token that ends the input, and no decision depends on where a token stands in
the lines of the source. So all that is left then are the pieces ahead up to that token, and the decisions are made by
their kinds, which are the content. `pieces_eq_cons` and `of_pieces_eq_cons` say what the current token tells about
the pieces.
-/

namespace Reckon

namespace Token

/-- A token without its location. -/
structure Piece where
  kind : Kind
  span : Span

/-- The token without its location. -/
def piece (t : Token) : Piece := ⟨t.kind, t.span⟩

/-- The pieces of some tokens up to the first that ends the input, or all of them if none does. -/
def pieces (tokens : List Token) : List Piece := (tokens.map piece).takeWhile fun p => !p.kind.isEof

/-- The kinds of some tokens up to the first that ends the input, or all of them if none does. -/
def content (tokens : List Token) : List Kind := (tokens.map kind).takeWhile fun k => !k.isEof

theorem Kind.isEof_iff {k : Kind} : k.isEof = true ↔ k = .eof := by
  cases k <;> simp [isEof]

theorem map_kind_pieces (tokens : List Token) : (pieces tokens).map Piece.kind = content tokens := by
  unfold pieces content
  induction tokens with
  | nil => rfl
  | cons t ts ih => cases h : t.kind.isEof <;> simp_all [piece]

theorem ne_eof_of_mem_pieces {tokens : List Token} {p : Piece} (h : p ∈ pieces tokens) : p.kind ≠ .eof := by
  have hp := List.all_eq_true.1 List.all_takeWhile p h
  intro he
  rw [he] at hp
  cases hp

theorem ne_eof_of_mem_content {tokens : List Token} {k : Kind} (h : k ∈ content tokens) : k ≠ .eof := by
  rw [← map_kind_pieces] at h
  obtain ⟨p, hp, rfl⟩ := List.mem_map.1 h
  exact ne_eof_of_mem_pieces hp

theorem mem_of_mem_content {tokens : List Token} {k : Kind} (h : k ∈ content tokens) : ∃ t ∈ tokens, t.kind = k := by
  unfold content at h
  exact List.mem_map.1 ((List.takeWhile_subset _) h)

/-- Tokens that do not end the input are passed over. -/
theorem pieces_append {ts : List Token} (h : ∀ t ∈ ts, t.kind ≠ .eof) (us : List Token) :
    pieces (ts ++ us) = ts.map piece ++ pieces us := by
  unfold pieces
  rw [List.map_append, List.takeWhile_append_of_pos]
  intro p hp
  obtain ⟨t, ht, rfl⟩ := List.mem_map.1 hp
  have hne : t.kind.isEof ≠ true := fun he => h t ht (Kind.isEof_iff.1 he)
  simp only [piece, hne, Bool.not_false]

theorem pieces_eq_map {ts : List Token} (h : ∀ t ∈ ts, t.kind ≠ .eof) : pieces ts = ts.map piece := by
  have hpieces := pieces_append h []
  rwa [List.append_nil, show pieces [] = [] from rfl, List.append_nil] at hpieces

/-- Whatever stands before the piece that ends the input is read. -/
theorem pieces_eq {tokens : List Token} {ps : List Piece} {last : Piece} (h : tokens.map piece = ps ++ [last])
    (hps : ∀ p ∈ ps, p.kind ≠ .eof) (hlast : last.kind = .eof) : pieces tokens = ps := by
  unfold pieces
  rw [h, List.takeWhile_append_of_pos, List.takeWhile_cons_of_neg, List.append_nil]
  · simp [hlast, Kind.isEof]
  · intro p hp
    have hne : p.kind.isEof ≠ true := fun he => hps p hp (Kind.isEof_iff.1 he)
    simp only [hne, Bool.not_false]

end Token

namespace Cursor

/-- The pieces ahead up to the first token that ends the input. -/
def pieces (c : Cursor) : List Token.Piece := Token.pieces c.ahead

theorem ahead_ofTokens (tokens : List Token) : (ofTokens tokens).ahead = tokens := by
  cases tokens with
  | nil => rfl
  | cons t ts =>
    unfold ofTokens
    rw [List.getLast?_eq_some_getLast (List.cons_ne_nil t ts)]

theorem pieces_ofTokens (tokens : List Token) : (ofTokens tokens).pieces = Token.pieces tokens := by
  rw [pieces, ahead_ofTokens]

variable {c : Cursor} {k : Token.Kind}

/-- A current token that does not end the input is the first of the pieces. -/
theorem pieces_eq_cons (h : c.kind = k) (hk : k ≠ .eof) : c.pieces = ⟨k, c.current.span⟩ :: c.advance.pieces := by
  obtain ⟨ahead, endOffset, endLocation⟩ := c
  cases ahead with
  | nil => exact absurd h.symm hk
  | cons t ts =>
    obtain rfl : t.kind = k := h
    have he : t.kind.isEof = false := by
      rw [← Bool.not_eq_true, Token.Kind.isEof_iff]
      exact hk
    simp [pieces, Token.pieces, advance, current, Token.piece, he]

theorem pieces_eq_nil (h : c.kind = .eof) : c.pieces = [] := by
  obtain ⟨ahead, endOffset, endLocation⟩ := c
  cases ahead with
  | nil => rfl
  | cons t ts =>
    have he : t.kind.isEof = true := Token.Kind.isEof_iff.2 h
    simp [pieces, Token.pieces, Token.piece, he]

/-- The first of the pieces is the current token, and the rest is seen from the next one. -/
theorem of_pieces_eq_cons {s : Span} {ps : List Token.Piece} (h : c.pieces = ⟨k, s⟩ :: ps) :
    c.kind = k ∧ c.current.span = s ∧ k ≠ .eof ∧ c.advance.pieces = ps := by
  by_cases he : c.kind = .eof
  · rw [pieces_eq_nil he] at h
    cases h
  · rw [pieces_eq_cons rfl he] at h
    injection h with hp hps
    injection hp with hk hs
    exact ⟨hk, hs, hk ▸ he, hps⟩

theorem kind_eq_eof_iff : c.kind = .eof ↔ c.pieces = [] := by
  refine ⟨pieces_eq_nil, fun h => ?_⟩
  by_cases he : c.kind = .eof
  · exact he
  · rw [pieces_eq_cons rfl he] at h
    cases h

theorem isAtEnd_iff : c.isAtEnd = true ↔ c.pieces = [] := by
  rw [isAtEnd, Token.Kind.isEof_iff, kind_eq_eof_iff]

/-- From one cursor to another by passing some pieces, none of which ends the input. -/
inductive Passes : Cursor → List Token.Piece → Cursor → Prop
  | refl (c : Cursor) : Passes c [] c
  | step {c d : Cursor} {k : Token.Kind} {ps} : c.kind = k → k ≠ .eof → Passes c.advance ps d →
      Passes c (⟨k, c.current.span⟩ :: ps) d

namespace Passes

variable {d e : Cursor} {ps ps' : List Token.Piece}

theorem trans (h : c.Passes ps d) (h' : d.Passes ps' e) : c.Passes (ps ++ ps') e := by
  induction h with
  | refl c => exact h'
  | step hk hne _ ih => exact .step hk hne (ih h')

theorem pieces_eq (h : c.Passes ps d) : c.pieces = ps ++ d.pieces := by
  induction h with
  | refl c => rfl
  | step hk hne _ ih => rw [pieces_eq_cons hk hne, ih, List.cons_append]

/-- What has been passed are the tokens ahead that are ahead no more. -/
theorem exists_passed (h : c.Passes ps d) : ∃ passed : List Token, c = { d with ahead := passed ++ d.ahead } ∧
    passed.map Token.piece = ps ∧ ∀ t ∈ passed, t.kind ≠ .eof := by
  induction h with
  | refl c => exact ⟨[], rfl, rfl, nofun⟩
  | @step c d k ps hk hne _ ih =>
    obtain ⟨passed, hc, rfl, hpassed⟩ := ih
    obtain ⟨ahead, endOffset, endLocation⟩ := c
    cases ahead with
    | nil => exact absurd hk.symm hne
    | cons t ts =>
      obtain rfl : t.kind = k := hk
      have he : t.kind.isEof = false := by
        rw [← Bool.not_eq_true, Token.Kind.isEof_iff]
        exact hne
      simp only [advance, he, Bool.false_eq_true, if_false, mk.injEq] at hc
      obtain ⟨rfl, rfl, rfl⟩ := hc
      exact ⟨t :: passed, rfl, rfl, List.forall_mem_cons.2 ⟨hne, hpassed⟩⟩

end Passes

end Cursor

end Reckon
