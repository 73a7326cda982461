import Reckon.Proofs.Expr.Errors
import Reckon.Proofs.Token.Normal
import Reckon.Proofs.Token.Overflow
/-!
# Reading the normal form

The parser takes integers and decimals alike, so tokens that are lexed again from their texts form the same tree or
break off at the same token for the same reason. Derivations and the rules for where tokens break off ask for kinds
only, and so they carry over from some tokens to those that are lexed again. `lex_normalForm` is about sources of any
size; the normal form may be longer than the source and too long for the counters of the lexer.
-/

namespace Reckon

open Token (Piece firstKind)

variable {tokens tokens' : List Token}

/-! ## Kinds that are lexed again -/

namespace Token.Kind

/-- Only a decimal can be lexed again as another kind, and then it is an integer. -/
theorem reread_cases (k : Kind) : k.reread = k ∨ ∃ v, k = .decimal v ∧ k.reread = .integer v := by
  cases k with
  | decimal v =>
    unfold reread
    dsimp only
    split
    · exact .inl rfl
    · exact .inr ⟨v, rfl, rfl⟩
  | _ => exact .inl rfl

/-- What is no integer is not lexed again from anything else. -/
theorem eq_of_reread_eq {k k' : Kind} (h : k.reread = k') (hk' : ∀ v, k' ≠ .integer v) : k = k' := by
  rcases k.reread_cases with hsame | ⟨v, -, hinteger⟩
  · rw [← hsame, h]
  · exact absurd (h.symm.trans hinteger) (hk' v)

end Token.Kind

mutual

/-- What derives a tree derives it again. -/
theorem Derives.reread : ∀ {level : Level} {ks : List Token.Kind} {t : Tree}, Derives level ks t →
    Derives level (ks.map Token.Kind.reread) t
  | _, _, _, .product h => .product h.reread
  | _, _, _, .power h => .power h.reread
  | _, _, _, .primary h => .primary h.reread
  | _, _, _, .sumChain hop hl hr => by
    rw [List.map_append, List.map_cons]
    exact .sumChain hop hl.reread hr.reread
  | _, _, _, .productChain hop hl hr => by
    rw [List.map_append, List.map_cons]
    exact .productChain hop hl.reread hr.reread
  | _, _, _, .powerChain hl hr => by
    rw [List.map_append, List.map_cons]
    exact .powerChain hl.reread hr.reread
  | _, _, _, .integer v => .integer v
  | _, _, _, .decimal v => by
    rw [List.map_singleton, Token.Kind.reread]
    split
    · exact .decimal v
    · exact .integer v
  | _, _, _, .constant name v => .constant name v
  | _, _, _, .bareCall name => .bareCall name
  | _, _, _, .group h => by
    rw [List.map_cons, List.map_append]
    exact .group h.reread
  | _, _, _, .negate h => .negate h.reread
  | _, _, _, .call name h => by
    rw [List.map_cons, List.map_cons, List.map_append]
    exact .call name h.reread

theorem DerivesAll.reread : ∀ {ks : List Token.Kind} {ts : List Tree}, DerivesAll ks ts →
    DerivesAll (ks.map Token.Kind.reread) ts
  | _, _, .one h => .one h.reread
  | _, _, .more h hs => by
    rw [List.map_append, List.map_cons]
    exact .more h.reread hs.reread

end

/-! ## Pieces that are lexed again -/

/-- The piece is lexed again, and its spans are related. -/
def Token.Piece.Rereads (R : Span → Span → Prop) (p p' : Piece) : Prop := p'.kind = p.kind.reread ∧ R p.span p'.span

/-- The error is the same but for what it has found, which is lexed again, and where the parenthesis is that it calls
unclosed. -/
inductive ParseError.Kind.Rereads (R : Span → Span → Prop) : ParseError.Kind → ParseError.Kind → Prop
  | unexpectedEof : Rereads R .unexpectedEof .unexpectedEof
  | unexpectedToken (k) : Rereads R (.unexpectedToken k) (.unexpectedToken k.reread)
  | unexpectedOperator (op) : Rereads R (.unexpectedOperator op) (.unexpectedOperator op)
  | expectedOpening (k) : Rereads R (.expectedOpening k) (.expectedOpening k.reread)
  | unclosed {s s'} (k) : R s s' → Rereads R (.unclosed s k) (.unclosed s' k.reread)
  | trailingInput (k) : Rereads R (.trailingInput k) (.trailingInput k.reread)

section

variable {R : Span → Span → Prop} {ps qs ps' : List Piece} {k : Token.Kind} {s : Span} {err : ParseError.Kind}

theorem exists_append_of_forall₂ {α β : Type} {r : α → β → Prop} {as bs : List α} {cs : List β}
    (h : List.Forall₂ r (as ++ bs) cs) : ∃ as' bs', cs = as' ++ bs' ∧ List.Forall₂ r as as' ∧ List.Forall₂ r bs bs' := by
  have htake := List.forall₂_take as.length h
  have hdrop := List.forall₂_drop as.length h
  rw [List.take_left] at htake
  rw [List.drop_left] at hdrop
  exact ⟨_, _, (List.take_append_drop ..).symm, htake, hdrop⟩

theorem exists_cons_of_rereads (h : List.Forall₂ (Piece.Rereads R) (⟨k, s⟩ :: ps) ps') :
    ∃ s' qs', ps' = ⟨k.reread, s'⟩ :: qs' ∧ R s s' ∧ List.Forall₂ (Piece.Rereads R) ps qs' := by
  obtain ⟨⟨_, s'⟩, qs', ⟨rfl, hs⟩, hrest, rfl⟩ := List.forall₂_cons_left_iff.1 h
  exact ⟨s', qs', rfl, hs, hrest⟩

theorem map_kind_of_rereads (h : List.Forall₂ (Piece.Rereads R) ps ps') :
    ps'.map Piece.kind = (ps.map Piece.kind).map Token.Kind.reread := by
  induction h with
  | nil => rfl
  | cons hp _ ih => rw [List.map_cons, List.map_cons, List.map_cons, hp.1, ih]

theorem firstKind_of_rereads (h : List.Forall₂ (Piece.Rereads R) ps ps') (k : Token.Kind) :
    firstKind ps' k.reread = (firstKind ps k).reread := by
  cases h with
  | nil => rfl
  | cons hp _ => exact hp.1

/-- Pieces that are lexed again form an expression with the same tree. -/
theorem Forms.reread {level : Level} {e : Expr} (h : Forms level ps e) (hps : List.Forall₂ (Piece.Rereads R) ps ps') :
    ∃ e', Forms level ps' e' ∧ e'.tree = e.tree :=
  formsTree_of_derives h.derives.reread (map_kind_of_rereads hps)

theorem FormsAll.reread {es : List Expr} (h : FormsAll ps es) (hps : List.Forall₂ (Piece.Rereads R) ps ps') :
    ∃ es', FormsAll ps' es' ∧ Expr.trees es' = Expr.trees es :=
  formsAll_of_derivesAll h.derivesAll.reread (map_kind_of_rereads hps)

/-- No refusal is about a literal, so it stays as it is. -/
theorem rereads_of_refusal (h : k.refusal? = some err) : k.reread.refusal? = some err ∧ err.Rereads R err := by
  have hsame : k.reread = k := by
    rcases k.reread_cases with hsame | ⟨v, rfl, -⟩
    · exact hsame
    · cases h
  rw [hsame]
  refine ⟨h, ?_⟩
  unfold Token.Kind.refusal? at h
  split at h <;> cases h
  · exact .unexpectedOperator _
  · exact .unexpectedEof
  · exact .unexpectedToken .rightParen
  · exact .unexpectedToken .comma

theorem ne_of_reread {k k' : Token.Kind} (h : k ≠ k') (hk' : ∀ v, k' ≠ .integer v) : k.reread ≠ k' :=
  fun he => h (Token.Kind.eq_of_reread_eq he hk')

/-- Reading gets stuck again at the same place for the same reason. -/
theorem Stuck.reread {goal : Goal} (h : Stuck goal ps k err) (hps : List.Forall₂ (Piece.Rereads R) ps ps') :
    ∃ err', Stuck goal ps' k.reread err' ∧ err.Rereads R err' := by
  induction h generalizing ps' with
  | start h =>
    obtain rfl := List.forall₂_nil_left_iff.1 hps
    obtain ⟨hk, herr⟩ := rereads_of_refusal h
    exact ⟨_, .start hk, herr⟩
  | sign s _ ih =>
    obtain ⟨s', qs, rfl, -, hqs⟩ := exists_cons_of_rereads hps
    obtain ⟨err', hs, herr⟩ := ih hqs
    exact ⟨err', .sign s' hs, herr⟩
  | group s _ ih =>
    obtain ⟨s', qs, rfl, -, hqs⟩ := exists_cons_of_rereads hps
    obtain ⟨err', hs, herr⟩ := ih hqs
    exact ⟨err', .group s' hs, herr⟩
  | @closing _ _ k s hf hclose hop =>
    obtain ⟨s', qs, rfl, hspan, hqs⟩ := exists_cons_of_rereads hps
    obtain ⟨e', hf', -⟩ := hf.reread hqs
    refine ⟨_, .closing s' hf' (ne_of_reread hclose (by simp)) fun op => ne_of_reread (hop op) (by simp), ?_⟩
    exact .unclosed k hspan
  | @opening k name s hopen =>
    obtain ⟨s', qs, rfl, -, hqs⟩ := exists_cons_of_rereads hps
    obtain rfl := List.forall₂_nil_left_iff.1 hqs
    exact ⟨_, .opening name s' (ne_of_reread hopen (by simp)), .expectedOpening k⟩
  | @call ps k _ name s₁ s₂ _ hclose ih =>
    obtain ⟨s₁', _, rfl, -, hqs⟩ := exists_cons_of_rereads hps
    obtain ⟨s₂', qs, rfl, -, hqs⟩ := exists_cons_of_rereads hqs
    obtain ⟨err', hs, herr⟩ := ih hqs
    refine ⟨err', .call name s₁' s₂' hs ?_, herr⟩
    rw [firstKind_of_rereads hqs]
    exact ne_of_reread hclose (by simp)
  | @closingCall _ _ k name s₁ s₂ hf hclose hcomma hop =>
    obtain ⟨s₁', _, rfl, -, hqs⟩ := exists_cons_of_rereads hps
    obtain ⟨s₂', qs, rfl, hspan, hqs⟩ := exists_cons_of_rereads hqs
    obtain ⟨es', hf', -⟩ := hf.reread hqs
    refine ⟨_, .closingCall name s₁' s₂' hf' (ne_of_reread hclose (by simp)) (ne_of_reread hcomma (by simp))
      fun op => ne_of_reread (hop op) (by simp), ?_⟩
    exact .unclosed k hspan
  | argument _ ih =>
    obtain ⟨err', hs, herr⟩ := ih hps
    exact ⟨err', .argument hs, herr⟩
  | more s hf _ ih =>
    obtain ⟨ps₁, rest, rfl, h₁, hrest⟩ := exists_append_of_forall₂ hps
    obtain ⟨s', ps₂, rfl, -, h₂⟩ := exists_cons_of_rereads hrest
    obtain ⟨e', hf', -⟩ := hf.reread h₁
    obtain ⟨err', hs, herr⟩ := ih h₂
    exact ⟨err', .more s' hf' hs, herr⟩
  | first _ ih =>
    obtain ⟨err', hs, herr⟩ := ih hps
    exact ⟨err', .first hs, herr⟩
  | right s hn hf _ ih =>
    obtain ⟨ps₁, rest, rfl, h₁, hrest⟩ := exists_append_of_forall₂ hps
    obtain ⟨s', ps₂, rfl, -, h₂⟩ := exists_cons_of_rereads hrest
    obtain ⟨e', hf', -⟩ := hf.reread h₁
    obtain ⟨err', hs, herr⟩ := ih h₂
    exact ⟨err', .right s' hn hf' hs, herr⟩

theorem Breaks.reread (h : Breaks ps k err) (hps : List.Forall₂ (Piece.Rereads R) ps ps') :
    ∃ err', Breaks ps' k.reread err' ∧ err.Rereads R err' := by
  cases h with
  | stuck hs =>
    obtain ⟨err', hs', herr⟩ := hs.reread hps
    exact ⟨err', .stuck hs', herr⟩
  | trailing hf hend hop =>
    obtain ⟨e', hf', -⟩ := hf.reread hps
    exact ⟨_, .trailing hf' (ne_of_reread hend (by simp)) fun op => ne_of_reread (hop op) (by simp), .trailingInput k⟩

end

/-! ## Outcomes -/

/-- The spans are those of the tokens at one position. -/
def SamePosition (tokens tokens' : List Token) (s s' : Span) : Prop :=
  ∃ (i : Nat) (t t' : Token), tokens[i]? = some t ∧ tokens'[i]? = some t' ∧ t.span = s ∧ t'.span = s'

/-- The outcomes are the same tree, or errors about the tokens at one position that are the same but for literals. -/
inductive ReadAlike (tokens tokens' : List Token) : Except ParseError Expr → Except ParseError Expr → Prop
  | ok {e e' : Expr} : e'.tree = e.tree → ReadAlike tokens tokens' (.ok e) (.ok e')
  | error {k k' : ParseError.Kind} {t t' : Token} (i : Nat) : tokens[i]? = some t → tokens'[i]? = some t' →
      k.Rereads (SamePosition tokens tokens') k' →
      ReadAlike tokens tokens' (.error ⟨k, t.span, t.location⟩) (.error ⟨k', t'.span, t'.location⟩)

theorem getElem?_behind {α : Type} (as : List α) (b : α) (bs : List α) : (as ++ b :: bs)[as.length]? = some b := by
  rw [List.getElem?_append_right (Nat.le_refl _), Nat.sub_self, List.getElem?_cons_zero]

/-- Tokens in front of the end are not lexed again as the end. -/
theorem live_of_rereads {R : Span → Span → Prop} {passed passed' : List Token}
    (h : List.Forall₂ (fun t t' => Piece.Rereads R t.piece t'.piece) passed passed') (hlive : ∀ t ∈ passed, t.kind ≠ .eof) :
    ∀ t ∈ passed', t.kind ≠ .eof := by
  induction h with
  | nil => exact fun t ht => absurd ht List.not_mem_nil
  | cons ht _ ih =>
    obtain ⟨hfirst, hrest⟩ := List.forall_mem_cons.1 hlive
    have hkind := ht.1
    exact List.forall_mem_cons.2 ⟨fun he => ne_of_reread hfirst (by simp) (hkind.symm.trans he), ih hrest⟩

namespace Token.Reread

theorem forall₂ (h : Reread tokens tokens') :
    List.Forall₂ (fun t t' => Piece.Rereads (SamePosition tokens tokens') t.piece t'.piece) tokens tokens' := by
  have hlength : tokens.length = tokens'.length := by simpa using (congrArg List.length h).symm
  refine List.forall₂_of_length_eq_of_get hlength fun i hi hi' => ⟨?_, i, tokens[i], tokens'[i], ?_, ?_, rfl, rfl⟩
  · have hkind := congrArg (·[i]?) h
    simpa [hi, hi', piece] using hkind
  · exact List.getElem?_eq_getElem hi
  · exact List.getElem?_eq_getElem hi'

/-- Tokens that are lexed again are read alike if one of them ends the input. -/
theorem readAlike (h : Reread tokens tokens') (hend : ∃ t ∈ tokens, t.kind = .eof) :
    ReadAlike tokens tokens' (Expr.ofTokens tokens) (Expr.ofTokens tokens') := by
  cases ho : Expr.ofTokens tokens with
  | ok e =>
    have hderives := (derives_of_ofTokens ho).reread
    rw [← h.content_eq] at hderives
    obtain ⟨e', ho', ht⟩ := ofTokens_of_derives hderives
    rw [ho']
    exact .ok ht
  | error error =>
    obtain ⟨passed, behind, k, hsplit, hlive, hb, rfl⟩ := ofTokens_eq_error_iff.1 ho
    have hall := h.forall₂
    generalize hR : SamePosition tokens tokens' = R at hall
    subst hsplit
    obtain ⟨passed', behind', rfl, hpassed, hbehind⟩ := exists_append_of_forall₂ hall
    have hpieces : List.Forall₂ (Piece.Rereads R) (passed.map piece) (passed'.map piece) :=
      List.forall₂_map_left_iff.2 (List.forall₂_map_right_iff.2 hpassed)
    cases behind with
    | nil =>
      -- the end is among the tokens, and what has been passed is no end
      obtain ⟨t, ht, heof⟩ := hend
      rw [List.append_nil] at ht
      exact absurd heof (hlive t ht)
    | cons t rest =>
      obtain ⟨t', rest', ht, -, rfl⟩ := List.forall₂_cons_left_iff.1 hbehind
      obtain ⟨k', hb', hk⟩ := hb.reread hpieces
      have ho' : Expr.ofTokens (passed' ++ t' :: rest') = .error ⟨k', t'.span, t'.location⟩ := by
        refine ofTokens_eq_error_iff.2 ⟨passed', t' :: rest', k', rfl, live_of_rereads hpassed hlive, ?_, rfl⟩
        have hkind : t'.kind = t.kind.reread := ht.1
        rw [List.headD_cons, hkind]
        exact hb'
      rw [ho']
      refine .error passed.length (getElem?_behind passed t rest) ?_ (hR ▸ hk)
      rw [hpassed.length_eq]
      exact getElem?_behind passed' t' rest'

end Token.Reread

/-! ## Either build -/

section

variable {r : Registry} {o : Overflow} {source : String}

/-- The normal form of a source with finite literals is lexed, and whatever has the kinds of these tokens is read
alike. -/
theorem exists_lex_normalForm_of_lexIn? (h : Token.lexIn? o r source = some (.ok tokens))
    (hf : ∀ t ∈ tokens, t.kind.Finite) :
    ∃ found, Token.lex r (Token.normalForm tokens) = .ok found ∧
      ∀ tokens', tokens'.map Token.kind = found.map Token.kind → Token.Reread tokens tokens' ∧
        ReadAlike tokens tokens' (Expr.ofTokens tokens) (Expr.ofTokens tokens') ∧
        Token.normalForm tokens' = Token.normalForm tokens := by
  obtain ⟨unlimited, hl, hk⟩ := Token.lex_of_lexIn? h
  have hkinds : ∀ k ∈ unlimited.map Token.kind, k.Finite := by
    rw [hk]
    exact List.forall_mem_map.2 hf
  have hend : ∃ t ∈ tokens, t.kind = .eof := by
    have hmem : Token.Kind.eof ∈ unlimited.map Token.kind := by simp [Token.map_kind_of_lex hl]
    rwa [hk, List.mem_map] at hmem
  have hnormal : Token.normalForm unlimited = Token.normalForm tokens := by
    rw [Token.normalForm_eq, hk, ← Token.normalForm_eq]
  obtain ⟨found, hlex, hfound⟩ := Token.exists_lex_normalForm hl (List.forall_mem_map.1 hkinds)
  rw [hnormal] at hlex
  refine ⟨found, hlex, fun tokens' hk' => ?_⟩
  have hreread : Token.Reread tokens tokens' := by rw [Token.Reread, hk', hfound, hk]
  exact ⟨hreread, hreread.readAlike hend, hreread.normalForm_eq⟩

/-- A normal form of less than 2 ^ 30 bytes is lexed again by offsets and with checked counters. -/
theorem exists_lex?_normalForm (h : Token.lex? r source = some (.ok tokens)) (hf : ∀ t ∈ tokens, t.kind.Finite)
    (hsize : (Token.normalForm tokens).utf8ByteSize < 2 ^ 30) :
    ∃ tokens', Token.lex? r (Token.normalForm tokens) = some (.ok tokens') ∧ Token.Reread tokens tokens' ∧
      ReadAlike tokens tokens' (Expr.ofTokens tokens) (Expr.ofTokens tokens') ∧
      Token.normalForm tokens' = Token.normalForm tokens := by
  rw [← Token.lexIn?_panics] at h
  obtain ⟨found, hlex, hread⟩ := exists_lex_normalForm_of_lexIn? h hf
  exact ⟨found, by rw [Token.lex?_eq r hsize, hlex], hread found rfl⟩

end

end Reckon
