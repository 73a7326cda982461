import Reckon.Proofs.Expr.Climbing
import Reckon.Proofs.Token.Writing
/-!
# Texts of trees put together

A text for a tree is put together from texts for its children. Each of these may rely on what stands behind it there: a
blank, a comma or a closing parenthesis.
-/

namespace Reckon

open Token

/-- In front of what satisfies `follow`, the text is lexed to tokens from which the tree derives. -/
def Writes (r : Registry) (follow : List Char → Prop) (level : Level) (text : String) (t : Tree) : Prop :=
  ∃ ks, Lexes r follow text ks ∧ Derives level ks t

/-- The same for some trees, with commas between them. -/
def WritesAll (r : Registry) (follow : List Char → Prop) (text : String) (ts : List Tree) : Prop :=
  ∃ ks, Lexes r follow text ks ∧ DerivesAll ks ts

variable {r : Registry} {follow follow' : List Char → Prop} {a b : String} {t t' : Tree}

/-- A source that is written for a tree is read as the tree. -/
theorem exists_ofTokens_of_writes (h : Writes r Closed .sum a t) :
    ∃ tokens e, lex r a = .ok tokens ∧ Expr.ofTokens tokens = .ok e ∧ e.tree = t := by
  obtain ⟨ks, hl, hd⟩ := h
  obtain ⟨tokens, hlex, rfl⟩ := lex_of_lexes hl
  obtain ⟨e, he, ht⟩ := ofTokens_of_derives hd
  exact ⟨tokens, e, hlex, he, ht⟩

namespace Writes

theorem closed {level : Level} (h : Writes r Anything level a t) : Writes r Closed level a t :=
  h.imp fun _ h => ⟨h.1.closed, h.2⟩

theorem toSum (h : Writes r follow .primary a t) : Writes r follow .sum a t :=
  h.imp fun _ h => ⟨h.1, h.2.toSum⟩

/-- Parentheses keep together whatever is between them. -/
theorem group (h : Writes r follow .sum a t) (hf : ∀ rest, follow (')' :: rest)) :
    Writes r Anything .primary ("(" ++ a ++ ")") t := by
  obtain ⟨ks, hl, hd⟩ := h
  have hopen := lexes_leftParen.append hl fun _ _ => trivial
  exact ⟨_, hopen.append lexes_rightParen fun rest _ => hf rest, .group hd⟩

theorem negate (h : Writes r follow .primary a t) : Writes r follow .primary ("-" ++ a) (.negate t) := by
  obtain ⟨ks, hl, hd⟩ := h
  exact ⟨_, lexes_minus.append hl fun _ _ => trivial, .negate hd⟩

theorem binary (op : Operator) (h : Writes r follow .primary a t) (h' : Writes r follow' .primary b t')
    (hf : ∀ rest, follow (' ' :: rest)) :
    Writes r follow' .sum (a ++ " " ++ op.symbol ++ " " ++ b) (.binary op t t') := by
  obtain ⟨ks, hl, hd⟩ := h
  obtain ⟨ks', hl', hd'⟩ := h'
  have hleft := hl.append lexes_blank fun rest _ => hf rest
  -- The blank behind the operator keeps it apart from what the right operand begins with.
  have hop := (hleft.append (lexes_symbol op) fun _ _ => trivial).append lexes_blank fun rest _ => ⟨rest, rfl⟩
  refine ⟨_, hop.append hl' fun _ _ => trivial, ?_⟩
  simpa only [List.append_assoc, List.cons_append, List.nil_append, List.append_nil]
    using (Derives.chain op hd.ofPrimary hd'.ofPrimary).toSum

section Calls

variable {f : NativeFunction}

theorem call (hf : f ∈ r.functions) (hname : Shape.name.Matches f.name.toList) {ts : List Tree}
    (h : WritesAll r follow a ts) (hfollow : ∀ rest, follow (')' :: rest)) :
    Writes r Anything .primary (f.name ++ "(" ++ a ++ ")") (.call f.name ts) := by
  obtain ⟨ks, hl, hd⟩ := h
  have hopen := (lexes_identifier hname (resolve_function hf)).append lexes_leftParen fun _ _ => closed_of_head rfl
  have hargs := hopen.append hl fun _ _ => trivial
  exact ⟨_, hargs.append lexes_rightParen fun rest _ => hfollow rest, .call f.name hd⟩

theorem bareCall (hf : f ∈ r.functions) (hname : Shape.name.Matches f.name.toList) :
    Writes r Anything .primary (f.name ++ "(" ++ ")") (.call f.name []) := by
  have hopen := (lexes_identifier hname (resolve_function hf)).append lexes_leftParen fun _ _ => closed_of_head rfl
  exact ⟨_, hopen.append lexes_rightParen fun _ _ => trivial, .bareCall f.name⟩

end Calls

end Writes

namespace WritesAll

theorem one (h : Writes r follow .sum a t) : WritesAll r follow a [t] :=
  h.imp fun _ h => ⟨h.1, .one h.2⟩

/-- A comma keeps what is before it apart from what is behind it. -/
theorem more {ts : List Tree} (h : Writes r follow .sum a t) (h' : WritesAll r follow' b ts)
    (hf : ∀ rest, follow (',' :: rest)) : WritesAll r follow' (a ++ ", " ++ b) (t :: ts) := by
  obtain ⟨ks, hl, hd⟩ := h
  obtain ⟨ks', hl', hd'⟩ := h'
  have hcomma : Lexes r Anything ", " [.comma] := lexes_comma.append lexes_blank fun _ _ => trivial
  have hall := (hl.append hcomma fun rest _ => hf (' ' :: rest)).append hl' fun _ _ => trivial
  refine ⟨_, hall, ?_⟩
  rw [List.append_assoc]
  exact .more hd hd'

end WritesAll

end Reckon
