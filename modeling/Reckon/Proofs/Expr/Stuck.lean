import Reckon.Proofs.Expr.Failing
import Reckon.Proofs.Expr.Forms
/-!
# Getting stuck

`Stuck` says where reading gets stuck, by rules beside those of the grammar: which pieces are taken, which token
cannot be taken behind them, and which error this is. What has been taken could always have gone on to something
complete, and the parenthesis that an error calls unclosed is the innermost one that is open.
-/

namespace Reckon

open Token (Piece)

/-- The kind of the first token where some pieces come before one of the kind `k`. -/
def Token.firstKind : List Piece → Kind → Kind
  | [], k => k
  | p :: _, _ => p.kind

theorem Token.firstKind_append (ps qs : List Piece) (k : Kind) : firstKind (ps ++ qs) k = firstKind ps (firstKind qs k) := by
  cases ps <;> rfl

/-- What is being read. -/
inductive Goal where
  | expr (least : Nat)
  | operand
  | arguments

/-- Reading takes some pieces and gets stuck with an error at a token of the kind. -/
inductive Stuck : Goal → List Piece → Token.Kind → ParseError.Kind → Prop
  | start {k err} : k.refusal? = some err → Stuck .operand [] k err
  | sign {ps k err} (s) : Stuck .operand ps k err → Stuck .operand (⟨.operator .sub, s⟩ :: ps) k err
  | group {ps k err} (s) : Stuck (.expr 0) ps k err → Stuck .operand (⟨.leftParen, s⟩ :: ps) k err
  | closing {ps e k} (s) : Forms .sum ps e → k ≠ .rightParen → (∀ op, k ≠ .operator op) →
      Stuck .operand (⟨.leftParen, s⟩ :: ps) k (.unclosed s k)
  | opening {k} (name s) : k ≠ .leftParen → Stuck .operand [⟨.function name, s⟩] k (.expectedOpening k)
  | call {ps k err} (name s s') : Stuck .arguments ps k err → Token.firstKind ps k ≠ .rightParen →
      Stuck .operand (⟨.function name, s⟩ :: ⟨.leftParen, s'⟩ :: ps) k err
  | closingCall {ps es k} (name s s') : FormsAll ps es → k ≠ .rightParen → k ≠ .comma → (∀ op, k ≠ .operator op) →
      Stuck .operand (⟨.function name, s⟩ :: ⟨.leftParen, s'⟩ :: ps) k (.unclosed s' k)
  | argument {ps k err} : Stuck (.expr 0) ps k err → Stuck .arguments ps k err
  | more {ps ps' e k err} (s) : Forms .sum ps e → Stuck .arguments ps' k err →
      Stuck .arguments (ps ++ ⟨.comma, s⟩ :: ps') k err
  | first {n ps k err} : Stuck .operand ps k err → Stuck (.expr n) ps k err
  | right {n op ps ps' l k err} (s) : n ≤ op.precedence → Forms op.leftLevel ps l →
      Stuck (.expr op.rightPrecedence) ps' k err → Stuck (.expr n) (ps ++ ⟨.operator op, s⟩ :: ps') k err

/-! ## The token that is found -/

/-- The kind of the token that an error has found. -/
def ParseError.Kind.found : ParseError.Kind → Token.Kind
  | unexpectedEof => .eof
  | unexpectedToken k => k
  | unexpectedOperator op => .operator op
  | expectedOpening k => k
  | unclosed _ k => k
  | trailingInput k => k

theorem Token.Kind.found_of_refusal {k : Kind} {err : ParseError.Kind} (h : k.refusal? = some err) : err.found = k := by
  unfold refusal? at h
  split at h <;> cases h <;> rfl

theorem Stuck.found {goal : Goal} {ps : List Piece} {k : Token.Kind} {err : ParseError.Kind} (h : Stuck goal ps k err) :
    err.found = k := by
  induction h with
  | start h => exact Token.Kind.found_of_refusal h
  | closing | opening | closingCall => rfl
  | sign _ _ ih | group _ _ ih | call _ _ _ _ _ ih | argument _ ih | more _ _ _ ih | first _ ih | right _ _ _ _ ih =>
    exact ih

/-- Reading that is stuck has not come behind a complete expression. -/
theorem Stuck.ne_trailingInput {goal : Goal} {ps : List Piece} {k found : Token.Kind} {err : ParseError.Kind}
    (h : Stuck goal ps k err) : err ≠ .trailingInput found := by
  induction h with
  | start h =>
    rintro rfl
    unfold Token.Kind.refusal? at h
    split at h <;> cases h
  | closing | opening | closingCall => nofun
  | sign _ _ ih | group _ _ ih | call _ _ _ _ _ ih | argument _ ih | more _ _ _ ih | first _ ih | right _ _ _ _ ih =>
    exact ih

/-! ## Going on -/

/-- The kinds are what the goal asks for. -/
def Goal.Accepts : Goal → List Token.Kind → Prop
  | expr n, ks => ∃ t, Derives (.ofLeast n) ks t
  | operand, ks => ∃ t, Derives .primary ks t
  | arguments, ks => ∃ ts, DerivesAll ks ts

/-- Where reading gets stuck, other tokens could have followed that complete what has been taken. -/
theorem Stuck.viable {goal : Goal} {ps : List Piece} {k : Token.Kind} {err : ParseError.Kind} (h : Stuck goal ps k err) :
    ∃ more, goal.Accepts (ps.map Piece.kind ++ more) := by
  induction h with
  | start _ => exact ⟨[.integer 0], _, .integer 0⟩
  | sign s _ ih =>
    obtain ⟨more, t, ht⟩ := ih
    exact ⟨more, _, .negate ht⟩
  | group s _ ih =>
    obtain ⟨more, t, ht⟩ := ih
    refine ⟨more ++ [.rightParen], t, ?_⟩
    rw [← List.append_assoc]
    exact .group ht
  | closing s hf _ _ => exact ⟨[.rightParen], _, .group hf.derives⟩
  | opening name s _ => exact ⟨[.leftParen, .rightParen], _, .bareCall name⟩
  | call name s s' _ _ ih =>
    obtain ⟨more, ts, hts⟩ := ih
    refine ⟨more ++ [.rightParen], .call name ts, ?_⟩
    rw [← List.append_assoc]
    exact .call name hts
  | closingCall name s s' hf _ _ _ => exact ⟨[.rightParen], _, .call name hf.derivesAll⟩
  | argument _ ih =>
    obtain ⟨more, t, ht⟩ := ih
    exact ⟨more, _, .one ht⟩
  | @more _ _ e _ _ s hf _ ih =>
    obtain ⟨more, ts, hts⟩ := ih
    refine ⟨more, e.tree :: ts, ?_⟩
    rw [List.map_append, List.append_assoc]
    exact .more hf.derives hts
  | first _ ih =>
    obtain ⟨more, t, ht⟩ := ih
    exact ⟨more, _, ht.ofPrimary⟩
  | @right n op _ _ l _ _ s hn hf _ ih =>
    obtain ⟨more, t, ht⟩ := ih
    refine ⟨more, .binary op l.tree t, ?_⟩
    rw [op.ofLeast_rightPrecedence] at ht
    rw [List.map_append, List.append_assoc]
    exact (hf.derives.chain op ht).loosen (Level.least_ofLeast_le (op.least_level ▸ hn))

/-! ## Open parentheses -/

/-- The spans of the parentheses that are open behind the pieces, the innermost first. -/
def opened (stack : List Span) : List Piece → List Span
  | [] => stack
  | ⟨.leftParen, s⟩ :: ps => opened (s :: stack) ps
  | ⟨.rightParen, _⟩ :: ps => opened stack.tail ps
  | _ :: ps => opened stack ps

theorem opened_append (stack : List Span) (ps qs : List Piece) : opened stack (ps ++ qs) = opened (opened stack ps) qs := by
  induction ps generalizing stack with
  | nil => rfl
  | cons p ps ih =>
    obtain ⟨k, s⟩ := p
    cases k <;> exact ih _

mutual

/-- Every parenthesis in an expression is closed in it. -/
theorem Forms.opened_eq : ∀ {level : Level} {ps : List Piece} {e : Expr}, Forms level ps e → ∀ stack, opened stack ps = stack
  | _, _, _, .loosen _ h, stack => h.opened_eq stack
  | _, _, _, .chain op s hl hr, stack => by
    rw [opened_append, hl.opened_eq]
    exact hr.opened_eq stack
  | _, _, _, .integer v s, stack | _, _, _, .decimal v s, stack | _, _, _, .constant name v s, stack
  | _, _, _, .bareCall name s s' s'', stack => rfl
  | _, _, _, .group s s' h, stack => by
    show opened (s :: stack) _ = stack
    rw [opened_append, h.opened_eq]
    rfl
  | _, _, _, .negate s h, stack => h.opened_eq stack
  | _, _, _, .call name s s' s'' h, stack => by
    show opened (s' :: stack) _ = stack
    rw [opened_append, h.opened_eq]
    rfl

theorem FormsAll.opened_eq : ∀ {ps : List Piece} {es : List Expr}, FormsAll ps es → ∀ stack, opened stack ps = stack
  | _, _, .one h, stack => h.opened_eq stack
  | _, _, .more s h hs, stack => by
    rw [opened_append, h.opened_eq]
    exact hs.opened_eq stack

end

/-- An unclosed parenthesis is the innermost one that is open. -/
theorem Stuck.innermost {goal : Goal} {ps : List Piece} {k found : Token.Kind} {s : Span} {err : ParseError.Kind}
    (h : Stuck goal ps k err) (herr : err = .unclosed s found) (stack : List Span) :
    (opened stack ps).head? = some s := by
  induction h generalizing stack with
  | start h =>
    subst herr
    unfold Token.Kind.refusal? at h
    split at h <;> cases h
  | sign s' _ ih => exact ih herr stack
  | group s' _ ih => exact ih herr (s' :: stack)
  | closing s' hf _ _ =>
    cases herr
    show (opened (s :: stack) _).head? = some s
    rw [hf.opened_eq]
    rfl
  | opening => cases herr
  | call name s₁ s₂ _ _ ih => exact ih herr (s₂ :: stack)
  | closingCall name s₁ s₂ hf _ _ _ =>
    cases herr
    show (opened (s :: stack) _).head? = some s
    rw [hf.opened_eq]
    rfl
  | argument _ ih => exact ih herr stack
  | more s' hf _ ih =>
    rw [opened_append, hf.opened_eq]
    exact ih herr stack
  | first _ ih => exact ih herr stack
  | right s' _ hf _ ih =>
    rw [opened_append, hf.opened_eq]
    exact ih herr stack

end Reckon
