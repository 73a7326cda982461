import Reckon.Proofs.Number.Whole
import Reckon.Proofs.Token.Joining
/-!
# The normal form of a source

The texts of the tokens of a source with blanks between them are a source again. A blank prolongs no lexeme, and each
text is a lexeme of the token that it is the text of, with one exception: a literal with a point whose value is whole
is written without the point, and then it is an integer of that value.
-/

namespace Reckon.Token

/-- The kind that is lexed from the text of a token. -/
def Kind.reread : Kind → Kind
  | decimal v => if '.' ∈ (Number.plain v).toList then decimal v else integer v
  | k => k

/-- The value of a literal is finite. -/
def Kind.Finite : Kind → Prop
  | integer v => Number.isFinite v = true
  | decimal v => Number.isFinite v = true
  | _ => True

instance : DecidablePred Kind.Finite
  | .integer v => inferInstanceAs (Decidable (Number.isFinite v = true))
  | .decimal v => inferInstanceAs (Decidable (Number.isFinite v = true))
  | .leftParen | .rightParen | .comma | .operator _ | .constant _ _ | .function _ | .eof => inferInstanceAs (Decidable True)

/-- The texts of the tokens with single spaces between them, the end of the input left out. -/
def normalForm (tokens : List Token) : String :=
  " ".intercalate ((tokens.filter fun t => !t.kind.isEof).map fun t => t.kind.text)

namespace Kind

theorem text_reread (k : Kind) : k.reread.text = k.text := by
  cases k with
  | decimal v =>
    unfold reread
    dsimp only
    split <;> rfl
  | _ => rfl

theorem isEof_reread (k : Kind) : k.reread.isEof = k.isEof := by
  cases k with
  | decimal v =>
    unfold reread
    dsimp only
    split <;> rfl
  | _ => rfl

theorem not_isEof_comp_reread : (fun k : Kind => !k.isEof) ∘ reread = fun k => !k.isEof := funext fun k => by
  rw [Function.comp_apply, isEof_reread]

end Kind

/-- The kinds of some tokens are those that are lexed from the texts of others, one by one. -/
def Reread (tokens tokens' : List Token) : Prop := tokens'.map kind = (tokens.map kind).map Kind.reread

variable {r : Registry} {source : String} {tokens tokens' : List Token}

theorem normalForm_eq (tokens : List Token) :
    normalForm tokens = " ".intercalate (((tokens.map kind).filter fun k => !k.isEof).map Kind.text) := by
  rw [normalForm, List.filter_map, List.map_map]
  rfl

theorem normalForm_of_lex (h : lex r source = .ok tokens) :
    normalForm tokens = " ".intercalate ((content tokens).map Kind.text) := by
  have hlive : ∀ k ∈ content tokens, (!k.isEof) = true := by
    intro k hk
    have hne : k.isEof ≠ true := fun he => ne_eof_of_mem_content hk (Kind.isEof_iff.1 he)
    simp only [hne, Bool.not_false]
  rw [normalForm_eq, map_kind_of_lex h, List.filter_append, List.filter_eq_self.2 hlive]
  rw [List.filter_cons_of_neg (by decide), List.filter_nil, List.append_nil]

/-- Tokens that are lexed again have the same normal form. -/
theorem Reread.normalForm_eq (h : Reread tokens tokens') : normalForm tokens' = normalForm tokens := by
  have htext : Kind.text ∘ Kind.reread = Kind.text := funext Kind.text_reread
  rw [Token.normalForm_eq, Token.normalForm_eq, h, List.filter_map, Kind.not_isEof_comp_reread, List.map_map, htext]

theorem Reread.content_eq (h : Reread tokens tokens') : content tokens' = (content tokens).map Kind.reread := by
  rw [content, h, List.takeWhile_map, Kind.not_isEof_comp_reread, content]

/-! ## Lexing the normal form -/

/-- A literal is lexed to its value, as a decimal or as an integer. -/
theorem lexes_literal {text : String} {v : Float} (h : Number.Literal text.toList v) :
    Lexes r Shape.Apart text [if '.' ∈ text.toList then .decimal v else .integer v] := by
  rcases h.shape with hm | hm
  · have hdot : '.' ∉ text.toList := fun hmem => by cases (mem_dot_iff hm).1 hmem
    rw [if_neg hdot]
    refine lexes_of_matches hm ?_ fun rest h => h _
    rw [Registry.kindOf, h.value]
  · rw [if_pos ((mem_dot_iff hm).2 rfl)]
    refine lexes_of_matches hm ?_ fun rest h => h _
    rw [Registry.kindOf, h.value]

/-- The text of what a lexeme stands for is lexed to it again. -/
theorem lexes_text {text : List Char} {k : Kind} (h : Stands r text k) (hf : k.Finite) :
    Lexes r Shape.Apart k.text [k.reread] := by
  cases h with
  | leftParen => exact lexes_of_matches .leftParen rfl fun _ h => h _
  | rightParen => exact lexes_of_matches .rightParen rfl fun _ h => h _
  | comma => exact lexes_of_matches .comma rfl fun _ h => h _
  | plus | minus | star | slash | percent | caret | doubleStar =>
    exact lexes_of_matches (Shape.matches_symbol _) rfl fun _ h => h _
  | @integer text hm =>
    have hlexes := lexes_literal (r := r) (Number.literal_plain hf (Number.isNegative_ofLiteral text))
    cases hm with
    | integer hne hdigits =>
      rwa [if_neg (Number.not_mem_plain_of_digits hne hdigits hf)] at hlexes
  | @decimal text _ => exact lexes_literal (Number.literal_plain hf (Number.isNegative_ofLiteral text))
  | @constant c hc hm =>
    refine lexes_of_matches hm ?_ fun _ h => h _
    rw [Kind.text, Registry.kindOf, String.ofList_toList]
    exact resolve_constant hc
  | @function f hfun hm =>
    refine lexes_of_matches hm ?_ fun _ h => h _
    rw [Kind.text, Registry.kindOf, String.ofList_toList]
    exact resolve_function hfun

theorem lexes_empty {follow : List Char → Prop} : Lexes r follow "" [] := by
  intro here rest pieces _ hs
  exact ⟨[], rfl, hs⟩

theorem lexes_texts {ks : List Kind} (h : ∀ k ∈ ks, (∃ text, Stands r text k) ∧ k.Finite) :
    Lexes r Shape.Apart (" ".intercalate (ks.map Kind.text)) (ks.map Kind.reread) := by
  induction ks with
  | nil => exact lexes_empty
  | cons k ks ih =>
    obtain ⟨⟨⟨text, hk⟩, hf⟩, hks⟩ := List.forall_mem_cons.1 h
    have hfirst := lexes_text hk hf
    by_cases hne : ks = []
    · subst hne
      rwa [List.map_singleton, String.intercalate_singleton]
    · have hblank := hfirst.append (lexes_blank (r := r)) fun rest _ => Shape.apart_of_head rfl
      rw [List.map_cons, String.intercalate_cons_of_ne_nil (by simpa using hne)]
      rw [List.append_nil] at hblank
      exact hblank.append (ih hks) fun _ _ => trivial

/-- The normal form of a source is lexed to its tokens, but for literals that have lost their point. -/
theorem exists_lex_normalForm (h : lex r source = .ok tokens) (hf : ∀ t ∈ tokens, t.kind.Finite) :
    ∃ tokens', lex r (normalForm tokens) = .ok tokens' ∧ Reread tokens tokens' := by
  have hsource : Splits r 0 source.toList (tokens.map piece) := lex_eq_ok_iff.1 ⟨tokens, h, rfl⟩
  have hks : ∀ k ∈ content tokens, (∃ text, Stands r text k) ∧ k.Finite := by
    intro k hk
    have hne := ne_eof_of_mem_content hk
    obtain ⟨t, ht, rfl⟩ := mem_of_mem_content hk
    obtain ⟨-, text, after, -, -, hlexeme⟩ := hsource.exists_lexeme (List.mem_map_of_mem ht) hne
    exact ⟨⟨text, (hlexeme.determined _).2 rfl⟩, hf t ht⟩
  obtain ⟨tokens', hlex, hcontent⟩ := lex_of_lexes_of_nil (lexes_texts hks) Shape.ends_nil
  rw [← normalForm_of_lex h] at hlex
  refine ⟨tokens', hlex, ?_⟩
  rw [Reread, map_kind_of_lex hlex, hcontent, map_kind_of_lex h, List.map_append]
  rfl

end Reckon.Token
