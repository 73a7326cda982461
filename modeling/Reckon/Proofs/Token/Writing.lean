import Reckon.Proofs.Token.Splitting
/-!
# Texts written for the lexer

A text that is put together from lexemes and blanks is taken apart into them again as long as each piece is followed by
something that does not prolong it. Here that is said of a piece and whatever follows it, so that longer texts are
followed up by appending shorter ones.
-/

namespace Reckon

theorem Shape.matches_symbol (op : Operator) : (operator op).Matches op.symbol.toList := by
  cases op with
  | add => exact .plus
  | sub => exact .minus
  | mul => exact .star
  | div => exact .slash
  | rem => exact .percent
  | pow => exact .caret

namespace Token

/-- What follows does not matter. -/
def Anything (_ : List Char) : Prop := True

/-- What follows prolongs neither a name nor a number. -/
def Closed (rest : List Char) : Prop := NotAhead (fun c => c.isAlphanum || c == '.') rest

theorem closed_of_head {c : Char} {rest : List Char} (hc : (c.isAlphanum || c == '.') = false) : Closed (c :: rest) :=
  notAhead_cons.2 hc

theorem Closed.ends {rest : List Char} (h : Closed rest) {s : Shape} (hs : s = .integer ∨ s = .decimal ∨ s = .name) :
    s.Ends rest := by
  rcases hs with rfl | rfl | rfl
  all_goals
    intro c hc
    have hfalse := h c hc
    simp only [Char.isAlphanum, Bool.or_eq_false_iff] at hfalse ⊢
    simp [hfalse]

/-- In front of what satisfies `follow`, the text splits into tokens of the kinds. -/
def Lexes (r : Registry) (follow : List Char → Prop) (text : String) (kinds : List Kind) : Prop :=
  ∀ here rest pieces, follow rest → Splits r (here + byteLength text.toList) rest pieces →
    ∃ front, front.map Piece.kind = kinds ∧ Splits r here (text.toList ++ rest) (front ++ pieces)

variable {r : Registry} {follow follow' : List Char → Prop} {text text' : String} {ks ks' : List Kind}

theorem Lexes.append (h : Lexes r follow text ks) (h' : Lexes r follow' text' ks')
    (hf : ∀ rest, follow' rest → follow (text'.toList ++ rest)) : Lexes r follow' (text ++ text') (ks ++ ks') := by
  intro here rest pieces hrest hs
  rw [String.toList_append, byteLength_append, ← Nat.add_assoc] at hs
  obtain ⟨back, rfl, hback⟩ := h' _ _ _ hrest hs
  obtain ⟨front, rfl, hfront⟩ := h _ _ _ (hf rest hrest) hback
  refine ⟨front ++ back, List.map_append, ?_⟩
  rwa [String.toList_append, List.append_assoc, List.append_assoc]

theorem Lexes.closed (h : Lexes r Anything text ks) : Lexes r Closed text ks := by
  intro here rest pieces _ hs
  exact h here rest pieces trivial hs

theorem lexes_blank : Lexes r Anything " " [] := by
  intro here rest pieces _ hs
  exact ⟨[], rfl, .blank rfl hs⟩

theorem lexes_of_matches {s : Shape} {kind : Kind} (hm : s.Matches text.toList) (hk : r.kindOf text.toList s = .ok kind)
    (hf : ∀ rest, follow rest → s.Ends rest) : Lexes r follow text [kind] := by
  intro here rest pieces hrest hs
  exact ⟨[⟨kind, spanAt here text.toList⟩], rfl, .lexeme (hm.longestMatch (hf rest hrest)) hk hs⟩

theorem lexes_leftParen : Lexes r Anything "(" [.leftParen] := lexes_of_matches .leftParen rfl fun _ _ => trivial

theorem lexes_rightParen : Lexes r Anything ")" [.rightParen] := lexes_of_matches .rightParen rfl fun _ _ => trivial

theorem lexes_comma : Lexes r Anything "," [.comma] := lexes_of_matches .comma rfl fun _ _ => trivial

theorem lexes_minus : Lexes r Anything "-" [.operator .sub] := lexes_of_matches .minus rfl fun _ _ => trivial

/-- A blank does not prolong an operator. -/
theorem lexes_symbol (op : Operator) : Lexes r (fun rest => ∃ more, rest = ' ' :: more) op.symbol [.operator op] := by
  refine lexes_of_matches (Shape.matches_symbol op) rfl ?_
  rintro rest ⟨more, rfl⟩
  cases op with
  | mul => exact notAhead_cons.2 rfl
  | _ => trivial

theorem lexes_identifier {name : String} {kind : Kind} (hm : Shape.name.Matches name.toList)
    (hk : r.resolve name = .ok kind) : Lexes r Closed name [kind] := by
  refine lexes_of_matches hm ?_ fun rest h => h.ends (.inr (.inr rfl))
  rw [Registry.kindOf, String.ofList_toList]
  exact hk

/-- A source that is such a text is lexed to tokens of the kinds. -/
theorem lex_of_lexes_of_nil {source : String} (h : Lexes r follow source ks) (hnil : follow []) :
    ∃ tokens, lex r source = .ok tokens ∧ content tokens = ks := by
  obtain ⟨front, rfl, hs⟩ := h 0 [] _ hnil (.done _)
  rw [List.append_nil] at hs
  obtain ⟨tokens, hl, hp⟩ := lex_eq_ok_iff.2 hs
  have hkinds := congrArg (List.map Piece.kind) hp
  rw [List.map_map, List.map_append] at hkinds
  exact ⟨tokens, hl, List.append_cancel_right ((map_kind_of_lex hl).symm.trans hkinds)⟩

theorem lex_of_lexes {source : String} (h : Lexes r Closed source ks) :
    ∃ tokens, lex r source = .ok tokens ∧ content tokens = ks := lex_of_lexes_of_nil h notAhead_nil

end Token

end Reckon
