import Mathlib.Algebra.Group.Nat.Defs
import Reckon.Proofs.Registry.Lookup
import Reckon.Proofs.Token.Content
import Reckon.Proofs.Token.Scan
import Reckon.Registry.Standard
/-!
# Lexing splits the source

When the lexer succeeds, its tokens and the blanks between them make up the whole source, each token is the longest
lexeme from its first character on, and the text of a lexeme says which kind of token it is. The first is about pieces
and an induction along `Splits`; the last is about texts alone and compares two ways to say what a text stands for.
-/

namespace Reckon

/-! ## Bytes -/

theorem size_utf8Encode (cs : List Char) : cs.utf8Encode.size = byteLength cs := by
  induction cs with
  | nil => simp [byteLength]
  | cons c cs ih =>
    rw [List.utf8Encode_cons, ByteArray.size_append, ih, byteLength, List.utf8Encode_singleton,
      List.size_toByteArray, String.length_utf8EncodeChar]

theorem byteLength_toList (s : String) : byteLength s.toList = s.utf8ByteSize := by
  rw [← size_utf8Encode, String.utf8Encode_toList]
  rfl

/-- The bytes that are skipped between lexemes: space, tab, carriage return and line feed. -/
def blankBytes : List UInt8 := [0x20, 0x09, 0x0D, 0x0A]

theorem utf8Encode_of_isBlank {c : Char} (h : Shape.isBlank c = true) :
    ∃ b ∈ blankBytes, [c].utf8Encode = [b].toByteArray := by
  simp only [Shape.isBlank, Bool.or_eq_true, beq_iff_eq] at h
  rcases h with ((rfl | rfl) | rfl) | rfl
  · exact ⟨0x20, by decide, by rw [List.utf8Encode_singleton]; rfl⟩
  · exact ⟨0x09, by decide, by rw [List.utf8Encode_singleton]; rfl⟩
  · exact ⟨0x0D, by decide, by rw [List.utf8Encode_singleton]; rfl⟩
  · exact ⟨0x0A, by decide, by rw [List.utf8Encode_singleton]; rfl⟩

/-- The byte at the offset belongs to the span. -/
def Span.Covers (s : Span) (offset : Nat) : Prop := s.start ≤ offset ∧ offset < s.stop

/-! ## What a text stands for -/

namespace Token

/-- The shape of the lexemes of a kind. -/
def Kind.shape? : Kind → Option Shape
  | integer _ => some .integer
  | decimal _ => some .decimal
  | leftParen => some .leftParen
  | rightParen => some .rightParen
  | comma => some .comma
  | operator op => some (.operator op)
  | constant _ _ => some .name
  | function _ => some .name
  | eof => none

/-- The kind of token that a text stands for. -/
inductive Stands (r : Registry) : List Char → Kind → Prop
  | leftParen : Stands r ['('] .leftParen
  | rightParen : Stands r [')'] .rightParen
  | comma : Stands r [','] .comma
  | plus : Stands r ['+'] (.operator .add)
  | minus : Stands r ['-'] (.operator .sub)
  | star : Stands r ['*'] (.operator .mul)
  | slash : Stands r ['/'] (.operator .div)
  | percent : Stands r ['%'] (.operator .rem)
  | caret : Stands r ['^'] (.operator .pow)
  | doubleStar : Stands r ['*', '*'] (.operator .pow)
  | integer {text} : Shape.integer.Matches text → Stands r text (.integer (Number.ofLiteral text))
  | decimal {text} : Shape.decimal.Matches text → Stands r text (.decimal (Number.ofLiteral text))
  | constant {c} : c ∈ r.constants → Shape.name.Matches c.name.toList →
      Stands r c.name.toList (.constant c.name c.value)
  | function {f} : f ∈ r.functions → Shape.name.Matches f.name.toList → Stands r f.name.toList (.function f.name)

variable {r : Registry} {text : List Char} {kind : Kind}

theorem resolve_constant {c : Constant} (h : c ∈ r.constants) : r.resolve c.name = .ok (.constant c.name c.value) := by
  unfold Registry.resolve
  rw [Registry.constant?_eq_some_iff.2 ⟨h, rfl⟩]

theorem resolve_function {f : NativeFunction} (h : f ∈ r.functions) : r.resolve f.name = .ok (.function f.name) := by
  have hf : r.function? f.name = some f := Registry.function?_eq_some_iff.2 ⟨h, rfl⟩
  unfold Registry.resolve
  rw [Registry.constant?_of_function? hf, hf]

/-- A name stands for the entry that has it. -/
theorem of_resolve {name : String} (h : r.resolve name = .ok kind) :
    (∃ c ∈ r.constants, c.name = name ∧ kind = .constant c.name c.value) ∨
      ∃ f ∈ r.functions, f.name = name ∧ kind = .function f.name := by
  unfold Registry.resolve at h
  cases hc : r.constant? name with
  | some c =>
    rw [hc] at h
    cases h
    obtain ⟨hmem, hn⟩ := Registry.constant?_eq_some_iff.1 hc
    exact .inl ⟨c, hmem, hn, rfl⟩
  | none =>
    cases hf : r.function? name with
    | some f =>
      simp only [hc, hf] at h
      cases h
      obtain ⟨hmem, hn⟩ := Registry.function?_eq_some_iff.1 hf
      exact .inr ⟨f, hmem, hn, rfl⟩
    | none =>
      simp only [hc, hf] at h
      cases h

theorem shape?_of_kindOf {s : Shape} (h : r.kindOf text s = .ok kind) : kind.shape? = some s := by
  cases s with
  | name =>
    rcases of_resolve h with ⟨c, -, -, rfl⟩ | ⟨f, -, -, rfl⟩
    · rfl
    · rfl
  | leftParen | rightParen | comma | operator | integer | decimal =>
    cases h
    rfl

theorem stands_iff {s : Shape} (hm : s.Matches text) : Stands r text kind ↔ r.kindOf text s = .ok kind := by
  refine ⟨fun h => ?_, fun h => ?_⟩
  · cases h with
    | leftParen => cases hm.unique .leftParen; rfl
    | rightParen => cases hm.unique .rightParen; rfl
    | comma => cases hm.unique .comma; rfl
    | plus => cases hm.unique .plus; rfl
    | minus => cases hm.unique .minus; rfl
    | star => cases hm.unique .star; rfl
    | slash => cases hm.unique .slash; rfl
    | percent => cases hm.unique .percent; rfl
    | caret => cases hm.unique .caret; rfl
    | doubleStar => cases hm.unique .doubleStar; rfl
    | integer hm' | decimal hm' => cases hm.unique hm'; rfl
    | constant hc hm' =>
      cases hm.unique hm'
      rw [Registry.kindOf, String.ofList_toList]
      exact resolve_constant hc
    | function hf hm' =>
      cases hm.unique hm'
      rw [Registry.kindOf, String.ofList_toList]
      exact resolve_function hf
  · cases hm with
    | leftParen => cases h; exact .leftParen
    | rightParen => cases h; exact .rightParen
    | comma => cases h; exact .comma
    | plus => cases h; exact .plus
    | minus => cases h; exact .minus
    | star => cases h; exact .star
    | slash => cases h; exact .slash
    | percent => cases h; exact .percent
    | caret => cases h; exact .caret
    | doubleStar => cases h; exact .doubleStar
    | integer hne hcs => cases h; exact .integer (.integer hne hcs)
    | decimal hw hf hne => cases h; exact .decimal (.decimal hw hf hne)
    | @name c cs hc hcs =>
      have hm : Shape.name.Matches (c :: cs) := .name hc hcs
      rcases of_resolve h with ⟨c', hmem, hn, rfl⟩ | ⟨f, hmem, hn, rfl⟩
      · have ht : c'.name.toList = c :: cs := by rw [hn, String.toList_ofList]
        exact ht ▸ .constant hmem (ht ▸ hm)
      · have ht : f.name.toList = c :: cs := by rw [hn, String.toList_ofList]
        exact ht ▸ .function hmem (ht ▸ hm)

/-- Of all lexemes just the decimals have a point in them. -/
theorem mem_dot_iff {s : Shape} (hm : s.Matches text) : '.' ∈ text ↔ s = .decimal := by
  refine ⟨fun h => ?_, ?_⟩
  · have hc := hm.alphabet '.' h
    cases s with
    | decimal => rfl
    | operator op => cases op <;> exact absurd hc (by decide)
    | _ => exact absurd hc (by decide)
  · rintro rfl
    cases hm
    simp

/-- A text, with `after` behind it, is a lexeme of a kind. -/
structure Lexeme (r : Registry) (text after : List Char) (kind : Kind) : Prop where
  longest : ∃ shape, kind.shape? = some shape ∧ shape.LongestMatch text after
  determined : ∀ kind', Stands r text kind' ↔ kind' = kind
  point : (∃ v, kind = .decimal v) ↔ '.' ∈ text
  power : kind = .operator .pow ↔ text = ['^'] ∨ text = ['*', '*']
  name : Shape.name.Matches text →
    (∃ c ∈ r.constants, c.name.toList = text ∧ kind = .constant c.name c.value) ∨
      ∃ f ∈ r.functions, f.name.toList = text ∧ kind = .function f.name

theorem lexeme_of_kindOf {s : Shape} {after : List Char} (hm : s.LongestMatch text after)
    (hk : r.kindOf text s = .ok kind) : Lexeme r text after kind := by
  have hs := shape?_of_kindOf hk
  refine ⟨⟨s, hs, hm⟩, fun kind' => ?_, ?_, ?_, fun hn => ?_⟩
  · rw [stands_iff hm.isMatch, hk, Except.ok.injEq, eq_comm]
  · rw [mem_dot_iff hm.isMatch]
    cases kind <;> simp_all [Kind.shape?, eq_comm]
  · refine ⟨?_, ?_⟩
    · rintro rfl
      cases hs
      cases hm.isMatch with
      | caret => exact .inl rfl
      | doubleStar => exact .inr rfl
    · rintro (rfl | rfl)
      · cases hm.isMatch.unique .caret
        cases hk
        rfl
      · cases hm.isMatch.unique .doubleStar
        cases hk
        rfl
  · cases hm.isMatch.unique hn
    rcases of_resolve hk with ⟨c, hmem, hc, rfl⟩ | ⟨f, hmem, hf, rfl⟩
    · exact .inl ⟨c, hmem, by rw [hc, String.toList_ofList], rfl⟩
    · exact .inr ⟨f, hmem, by rw [hf, String.toList_ofList], rfl⟩

/-! ## Pieces -/

namespace Splits

variable {here : Nat} {cs : List Char} {pieces : List Piece}

/-- Just the last piece is the end of the input. -/
theorem exists_init (h : Splits r here cs pieces) :
    ∃ init, pieces = init ++ [⟨.eof, .point (here + byteLength cs)⟩] ∧ ∀ p ∈ init, p.kind ≠ .eof := by
  induction h with
  | done here => exact ⟨[], rfl, nofun⟩
  | blank _ _ ih =>
    obtain ⟨init, rfl, he⟩ := ih
    exact ⟨init, by rw [byteLength, Nat.add_assoc], he⟩
  | @lexeme here s text after kind pieces _ hk _ ih =>
    obtain ⟨init, rfl, he⟩ := ih
    refine ⟨⟨kind, spanAt here text⟩ :: init, by rw [byteLength_append, Nat.add_assoc]; rfl, ?_⟩
    refine List.forall_mem_cons.2 ⟨?_, he⟩
    rintro rfl
    cases shape?_of_kindOf hk

/-- Every other piece is a lexeme of the text that its span covers. -/
theorem exists_lexeme (h : Splits r here cs pieces) {p : Piece} (hp : p ∈ pieces) (he : p.kind ≠ .eof) :
    ∃ before text after, cs = before ++ text ++ after ∧ p.span = spanAt (here + byteLength before) text ∧
      Lexeme r text after p.kind := by
  induction h with
  | done here =>
    cases List.mem_singleton.1 hp
    exact absurd rfl he
  | @blank here c rest pieces _ _ ih =>
    obtain ⟨before, text, after, rfl, hs, hl⟩ := ih hp
    refine ⟨c :: before, text, after, rfl, ?_, hl⟩
    rw [hs, byteLength, Nat.add_assoc]
  | @lexeme here s text after kind pieces hm hk _ ih =>
    rcases List.mem_cons.1 hp with rfl | hp
    · exact ⟨[], text, after, rfl, rfl, lexeme_of_kindOf hm hk⟩
    · obtain ⟨before, text', after', rfl, hs, hl⟩ := ih hp
      refine ⟨text ++ before, text', after', by simp, ?_, hl⟩
      rw [hs, byteLength_append, Nat.add_assoc]

theorem span_within (h : Splits r here cs pieces) {p : Piece} (hp : p ∈ pieces) :
    here ≤ p.span.start ∧ p.span.start ≤ p.span.stop ∧ p.span.stop ≤ here + byteLength cs := by
  induction h with
  | done here =>
    cases List.mem_singleton.1 hp
    exact ⟨Nat.le_refl _, Nat.le_refl _, Nat.le_refl _⟩
  | blank _ _ ih =>
    have hle := ih hp
    rw [byteLength]
    omega
  | lexeme _ _ _ ih =>
    rw [byteLength_append]
    rcases List.mem_cons.1 hp with rfl | hp
    · simp only [spanAt]
      omega
    · have hle := ih hp
      omega

theorem ordered (h : Splits r here cs pieces) : pieces.Pairwise fun p q => p.span.stop ≤ q.span.start := by
  induction h with
  | done here => exact List.pairwise_singleton ..
  | blank _ _ ih => exact ih
  | lexeme _ _ h ih => exact List.pairwise_cons.2 ⟨fun q hq => (h.span_within hq).1, ih⟩

/-- The bytes between the pieces are blank. -/
theorem blank_of_not_covered (h : Splits r here cs pieces) {i : Nat} (hi : i < cs.utf8Encode.size)
    (hc : ∀ p ∈ pieces, ¬p.span.Covers (here + i)) : cs.utf8Encode[i] ∈ blankBytes := by
  induction h generalizing i with
  | done here => simp at hi
  | @blank here c rest pieces hb _ ih =>
    obtain ⟨b, hmem, hbyte⟩ := utf8Encode_of_isBlank hb
    have hsize : [c].utf8Encode.size = c.utf8Size := size_utf8Encode [c]
    have hone : c.utf8Size = 1 := by rw [← hsize, hbyte, List.size_toByteArray, List.length_singleton]
    simp only [List.utf8Encode_cons (l := rest)]
    by_cases hlt : i < 1
    · rw [ByteArray.getElem_append_left (by omega)]
      obtain rfl : i = 0 := by omega
      simpa only [hbyte, List.getElem_toByteArray, List.getElem_cons_zero] using hmem
    · rw [ByteArray.getElem_append_right (by omega)]
      refine ih _ fun p hp => ?_
      rw [hsize, hone, show here + 1 + (i - 1) = here + i by omega]
      exact hc p hp
  | @lexeme here s text after kind pieces hm hk _ ih =>
    rw [List.forall_mem_cons] at hc
    have hsize := size_utf8Encode text
    -- An offset inside the lexeme is covered, so it lies behind.
    have hge : byteLength text ≤ i := by
      have := hc.1
      simp only [Span.Covers, spanAt] at this
      omega
    simp only [List.utf8Encode_append]
    rw [ByteArray.getElem_append_right (by omega)]
    refine ih _ fun p hp => ?_
    rw [hsize, show here + byteLength text + (i - byteLength text) = here + i by omega]
    exact hc.2 p hp

end Splits

/-! ## The whole source -/

/-- The tokens `init` and `last` split the source: the former are its lexemes, with blanks between them, and the latter
is its end. -/
structure Splitting (r : Registry) (source : String) (init : List Token) (last : Token) : Prop where
  lexeme : ∀ t ∈ init, ∃ before text after, source.toList = before ++ text ++ after ∧
    t.span = spanAt (byteLength before) text ∧ Lexeme r text after t.kind
  inside : ∀ t ∈ init, t.span.start < t.span.stop ∧ t.span.stop ≤ source.utf8ByteSize
  ordered : init.Pairwise fun t u => t.span.stop ≤ u.span.start
  blank : ∀ i (hi : i < source.toByteArray.size), (∀ t ∈ init, ¬t.span.Covers i) → source.toByteArray[i] ∈ blankBytes
  ending : last.kind = .eof ∧ last.span = .point source.utf8ByteSize
  only : ∀ t ∈ init, t.kind ≠ .eof
  /-- No offset is too large for a span. -/
  fits : ∀ t ∈ init ++ [last], Span.ofRange t.span.start t.span.stop = t.span

theorem Lexeme.byteLength_pos {after : List Char} (h : Lexeme r text after kind) : 0 < byteLength text := by
  obtain ⟨s, -, hm⟩ := h.longest
  obtain ⟨c, more, rfl⟩ := List.exists_cons_of_ne_nil hm.isMatch.ne_nil
  have hc := c.utf8Size_pos
  rw [byteLength]
  omega

/-- When the lexer succeeds on a source of a size that spans can hold, its tokens split the source. -/
theorem lex_splits {source : String} {tokens : List Token} (hsize : source.utf8ByteSize < 2 ^ 30)
    (h : lex r source = .ok tokens) : ∃ init last, tokens = init ++ [last] ∧ Splitting r source init last := by
  have hs : Splits r 0 source.toList (tokens.map piece) := lex_eq_ok_iff.1 ⟨tokens, h, rfl⟩
  have hpiece : ∀ t ∈ tokens, t.piece ∈ tokens.map piece := fun t => List.mem_map_of_mem
  obtain ⟨pieces, he, hne⟩ := hs.exists_init
  obtain ⟨init, ends, rfl, rfl, hends⟩ := List.map_eq_append_iff.1 he
  obtain ⟨last, rfl, hlast⟩ := List.map_eq_singleton_iff.1 hends
  have hlexeme : ∀ t ∈ init, ∃ before text after, source.toList = before ++ text ++ after ∧
      t.span = spanAt (byteLength before) text ∧ Lexeme r text after t.kind := by
    intro t ht
    obtain ⟨before, text, after, hcs, hspan, hl⟩ :=
      hs.exists_lexeme (hpiece t (List.mem_append_left _ ht)) (hne t.piece (List.mem_map_of_mem ht))
    rw [Nat.zero_add] at hspan
    exact ⟨before, text, after, hcs, hspan, hl⟩
  have hwithin : ∀ t ∈ init ++ [last], t.span.start ≤ t.span.stop ∧ t.span.stop ≤ source.utf8ByteSize := by
    intro t ht
    have := hs.span_within (hpiece t ht)
    rw [Nat.zero_add, byteLength_toList] at this
    exact this.2
  -- Every offset is at most the size of the source, so it fits into a span.
  rw [Nat.zero_add, byteLength_toList] at hlast
  refine ⟨init, last, rfl, hlexeme, ?_, ?_, ?_, ?_, ?_, ?_⟩
  · intro t ht
    obtain ⟨before, text, after, -, hspan, hl⟩ := hlexeme t ht
    refine ⟨?_, (hwithin t (List.mem_append_left _ ht)).2⟩
    have := hl.byteLength_pos
    simp only [hspan, spanAt]
    omega
  · have hp := hs.ordered
    rw [List.map_append, List.pairwise_append] at hp
    exact List.pairwise_map.1 hp.1
  · intro i hi hc
    have hb : source.toList.utf8Encode = source.toByteArray := String.utf8Encode_toList
    simp only [← hb] at hi ⊢
    refine hs.blank_of_not_covered hi fun p hp => ?_
    rw [Nat.zero_add]
    rw [he, List.mem_append] at hp
    rcases hp with hp | hp
    · obtain ⟨t, ht, rfl⟩ := List.mem_map.1 hp
      exact hc t ht
    · cases List.mem_singleton.1 hp
      simp only [Span.Covers, Span.point]
      omega
  · injection hlast with hkind hspan
    exact ⟨hkind, hspan⟩
  · exact fun t ht => hne t.piece (List.mem_map_of_mem ht)
  · intro t ht
    have := hwithin t ht
    rw [Span.ofRange, Span.maxOffset, Nat.min_eq_left (by omega), Nat.min_eq_left (by omega)]

/-- The last token and no other is the end of the input. -/
theorem map_piece_of_lex {source : String} {tokens : List Token} (h : lex r source = .ok tokens) :
    tokens.map piece = pieces tokens ++ [⟨.eof, .point source.utf8ByteSize⟩] := by
  have hs : Splits r 0 source.toList (tokens.map piece) := lex_eq_ok_iff.1 ⟨tokens, h, rfl⟩
  obtain ⟨ps, he, hne⟩ := hs.exists_init
  rw [Nat.zero_add, byteLength_toList] at he
  rw [pieces_eq he hne rfl, he]

theorem exists_init_of_lex {source : String} {tokens : List Token} (h : lex r source = .ok tokens) :
    ∃ init last, tokens = init ++ [last] ∧ last.kind = .eof ∧ ∀ t ∈ init, t.kind ≠ .eof := by
  obtain ⟨init, ends, rfl, hinit, hends⟩ := List.map_eq_append_iff.1 (map_piece_of_lex h)
  obtain ⟨last, rfl, hlast⟩ := List.map_eq_singleton_iff.1 hends
  refine ⟨init, last, rfl, congrArg Piece.kind hlast, fun t ht => ?_⟩
  have hmem : t.piece ∈ init.map piece := List.mem_map_of_mem ht
  rw [hinit] at hmem
  exact ne_eof_of_mem_pieces hmem

theorem map_kind_of_lex {source : String} {tokens : List Token} (h : lex r source = .ok tokens) :
    tokens.map Token.kind = content tokens ++ [.eof] := by
  have hp := congrArg (List.map Piece.kind) (map_piece_of_lex h)
  rw [List.map_append, map_kind_pieces, List.map_map] at hp
  exact hp

/-- Two numbers that touch, a power and a constant. -/
theorem lex_splits_touching : ∃ tokens, lex .standard "1.2.3 ** PI" = .ok tokens ∧
    tokens.map (·.span) = [⟨0, 3⟩, ⟨3, 5⟩, ⟨6, 8⟩, ⟨9, 11⟩, ⟨11, 11⟩] ∧
    ∃ init last, tokens = init ++ [last] ∧ Splitting .standard "1.2.3 ** PI" init last := by
  have hspans : (lex .standard "1.2.3 ** PI").toOption.map (·.map (·.span)) =
      some [⟨0, 3⟩, ⟨3, 5⟩, ⟨6, 8⟩, ⟨9, 11⟩, ⟨11, 11⟩] := by decide +kernel
  cases h : lex .standard "1.2.3 ** PI" with
  | error e =>
    rw [h] at hspans
    cases hspans
  | ok tokens =>
    rw [h] at hspans
    exact ⟨tokens, rfl, Option.some.inj hspans, lex_splits (by decide) h⟩

end Token

end Reckon
