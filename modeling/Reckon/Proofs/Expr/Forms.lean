import Reckon.Proofs.Expr.Grammar
import Reckon.Proofs.Token.Content
/-!
# Expressions from pieces

The grammar says which tree some kinds of tokens form. `Forms` says which expression is formed when the tokens have
spans, and a node gets its span in one of five ways: from its token, from the sign to the end of the operand, from the
start of one operand to the end of the other, from a function to the end of its call, or from parentheses, which
replace the span of what they enclose. Without the spans it is the grammar again. All chains are made by one rule
here, since an operator tells the nonterminals of the chain and of its two sides.
-/

namespace Reckon

open Token (Piece)

/-! ## Nonterminals and precedences -/

namespace Level

/-- The least precedence of an operator that a chain of the nonterminal is made with. -/
def least : Level → Nat
  | sum => 2
  | product => 3
  | power => 4
  | primary => 5

/-- Every operator of this precedence and above behind the nonterminal would belong to its last operand. -/
def bound : Level → Nat
  | sum => 3
  | product => 4
  | power => 4
  | primary => 5

/-- The nonterminal of the expressions whose operators reach a precedence. -/
def ofLeast (n : Nat) : Level :=
  if n ≤ 2 then sum else if n = 3 then product else if n = 4 then power else primary

theorem least_le_primary (l : Level) : l.least ≤ primary.least := by cases l <;> decide

theorem sum_least_le (l : Level) : sum.least ≤ l.least := by cases l <;> decide

theorem bound_le {l l' : Level} (h : l'.least ≤ l.least) : l'.bound ≤ l.bound := by
  revert h
  cases l <;> cases l' <;> decide

theorem eq_primary {l : Level} (h : primary.least ≤ l.least) : l = primary := by
  revert h
  cases l <;> decide

theorem least_ofLeast_le {l : Level} {n : Nat} (h : n ≤ l.least) : (ofLeast n).least ≤ l.least := by
  cases l <;> simp only [least] at h <;> unfold ofLeast least <;> grind

end Level

namespace Operator

/-- The nonterminal of the chains that the operator makes. -/
def level : Operator → Level
  | add | sub => .sum
  | mul | div | rem => .product
  | pow => .power

/-- The nonterminal of the operator's left operands. -/
def leftLevel : Operator → Level
  | add | sub => .sum
  | mul | div | rem => .product
  | pow => .primary

/-- The nonterminal of the operator's right operands. -/
def rightLevel : Operator → Level
  | add | sub => .product
  | mul | div | rem => .power
  | pow => .power

variable (op : Operator)

theorem least_level : op.level.least = op.precedence := by cases op <;> rfl

theorem bound_level : op.level.bound = op.rightPrecedence := by cases op <;> rfl

theorem least_rightLevel : op.rightLevel.least = op.rightPrecedence := by cases op <;> rfl

theorem bound_level_le : op.level.bound ≤ op.rightLevel.bound := by cases op <;> decide

theorem precedence_le_leftLevel : op.precedence ≤ op.leftLevel.least := by cases op <;> decide

theorem precedence_lt_leftLevel : op.precedence < op.leftLevel.bound := by cases op <;> decide

theorem ofLeast_rightPrecedence : Level.ofLeast op.rightPrecedence = op.rightLevel := by cases op <;> rfl

/-- What an operator has made may be the left operand of each operator that its own right operand leaves. -/
theorem least_leftLevel_le {op next : Operator} (h : next.precedence < op.rightPrecedence) :
    next.leftLevel.least ≤ op.level.least := by
  revert h
  cases op <;> cases next <;> decide

end Operator

namespace Derives

variable {ks ks' : List Token.Kind} {l r t : Tree}

theorem toSum {level : Level} (h : Derives level ks t) : Derives .sum ks t := by
  cases level with
  | sum => exact h
  | product => exact .product h
  | power => exact .product (.power h)
  | primary => exact .product (.power (.primary h))

/-- What derives from a tight nonterminal derives from the looser ones. -/
theorem loosen {level level' : Level} (h : Derives level ks t) (hl : level'.least ≤ level.least) :
    Derives level' ks t := by
  cases level' with
  | sum => exact h.toSum
  | product =>
    cases level with
    | sum => exact absurd hl (by decide)
    | product => exact h
    | power => exact .power h
    | primary => exact .power (.primary h)
  | power =>
    cases level with
    | sum | product => exact absurd hl (by decide)
    | power => exact h
    | primary => exact .primary h
  | primary =>
    cases level with
    | sum | product | power => exact absurd hl (by decide)
    | primary => exact h

/-- What derives from a primary derives from every nonterminal. -/
theorem ofPrimary {level : Level} (h : Derives .primary ks t) : Derives level ks t :=
  h.loosen (Level.least_le_primary level)

theorem chain (op : Operator) (hl : Derives op.leftLevel ks l) (hr : Derives op.rightLevel ks' r) :
    Derives op.level (ks ++ .operator op :: ks') (.binary op l r) := by
  cases op with
  | add => exact .sumChain (.inl rfl) hl hr
  | sub => exact .sumChain (.inr rfl) hl hr
  | mul => exact .productChain (.inl rfl) hl hr
  | div => exact .productChain (.inr (.inl rfl)) hl hr
  | rem => exact .productChain (.inr (.inr rfl)) hl hr
  | pow => exact .powerChain hl hr

end Derives

/-! ## Forming -/

mutual

/-- Some pieces derive from a nonterminal and form an expression. -/
inductive Forms : Level → List Piece → Expr → Prop
  | loosen {level level' ps e} : level'.least ≤ level.least → Forms level ps e → Forms level' ps e
  | chain {ps ps' l r} (op s) : Forms op.leftLevel ps l → Forms op.rightLevel ps' r →
      Forms op.level (ps ++ ⟨.operator op, s⟩ :: ps') (.joined op l r)
  | integer (v s) : Forms .primary [⟨.integer v, s⟩] (.number v s)
  | decimal (v s) : Forms .primary [⟨.decimal v, s⟩] (.number v s)
  | constant (name v s) : Forms .primary [⟨.constant name v, s⟩] (.constant name v s)
  | group {ps e} (s s') : Forms .sum ps e →
      Forms .primary (⟨.leftParen, s⟩ :: (ps ++ [⟨.rightParen, s'⟩])) (e.withSpan (s.merge s'))
  | negate {ps e} (s) : Forms .primary ps e → Forms .primary (⟨.operator .sub, s⟩ :: ps) (.negated s e)
  | bareCall (name s s' s'') :
      Forms .primary [⟨.function name, s⟩, ⟨.leftParen, s'⟩, ⟨.rightParen, s''⟩] (.call name [] (s.merge s''))
  | call {ps args} (name s s' s'') : FormsAll ps args →
      Forms .primary (⟨.function name, s⟩ :: ⟨.leftParen, s'⟩ :: (ps ++ [⟨.rightParen, s''⟩]))
        (.call name args (s.merge s''))

/-- Some pieces form one expression or more, with commas between them. -/
inductive FormsAll : List Piece → List Expr → Prop
  | one {ps e} : Forms .sum ps e → FormsAll ps [e]
  | more {ps ps' e es} (s) : Forms .sum ps e → FormsAll ps' es → FormsAll (ps ++ ⟨.comma, s⟩ :: ps') (e :: es)

end

theorem Forms.toSum {level : Level} {ps : List Piece} {e : Expr} (h : Forms level ps e) : Forms .sum ps e :=
  .loosen (Level.sum_least_le level) h

theorem Forms.ofPrimary {level : Level} {ps : List Piece} {e : Expr} (h : Forms .primary ps e) : Forms level ps e :=
  .loosen (Level.least_le_primary level) h

mutual

/-- Without the spans the pieces derive the tree. -/
theorem Forms.derives : ∀ {level : Level} {ps : List Piece} {e : Expr}, Forms level ps e →
    Derives level (ps.map Piece.kind) e.tree
  | _, _, _, .loosen hl h => h.derives.loosen hl
  | _, _, _, .chain op s hl hr => by
    rw [List.map_append, List.map_cons, Expr.tree_joined]
    exact hl.derives.chain op hr.derives
  | _, _, _, .integer v s => .integer v
  | _, _, _, .decimal v s => .decimal v
  | _, _, _, .constant name v s => .constant name v
  | _, _, _, .group s s' h => by
    rw [List.map_cons, List.map_append, Expr.tree_withSpan]
    exact .group h.derives
  | _, _, _, .negate s h => by
    rw [List.map_cons, Expr.tree_negated]
    exact .negate h.derives
  | _, _, _, .bareCall name s s' s'' => .bareCall name
  | _, _, _, .call name s s' s'' h => by
    rw [List.map_cons, List.map_cons, List.map_append]
    exact .call name h.derivesAll

theorem FormsAll.derivesAll : ∀ {ps : List Piece} {es : List Expr}, FormsAll ps es →
    DerivesAll (ps.map Piece.kind) (Expr.trees es)
  | _, _, .one h => .one h.derives
  | _, _, .more s h hs => by
    rw [List.map_append, List.map_cons]
    exact .more h.derives hs.derivesAll

end

/-! ## Forming what derives -/

/-- The pieces form an expression with the tree. -/
def FormsTree (level : Level) (t : Tree) (ps : List Piece) : Prop := ∃ e, Forms level ps e ∧ e.tree = t

theorem exists_of_map_kind_eq_cons {ps : List Piece} {k : Token.Kind} {ks : List Token.Kind}
    (h : ps.map Piece.kind = k :: ks) : ∃ s ps', ps = ⟨k, s⟩ :: ps' ∧ ps'.map Piece.kind = ks := by
  obtain ⟨⟨_, s⟩, ps', rfl, rfl, hks⟩ := List.map_eq_cons_iff.1 h
  exact ⟨s, ps', rfl, hks⟩

theorem exists_of_map_kind_eq_append {ps : List Piece} {k : Token.Kind} {ks ks' : List Token.Kind}
    (h : ps.map Piece.kind = ks ++ k :: ks') :
    ∃ ps₁ s ps₂, ps = ps₁ ++ ⟨k, s⟩ :: ps₂ ∧ ps₁.map Piece.kind = ks ∧ ps₂.map Piece.kind = ks' := by
  obtain ⟨ps₁, rest, rfl, h₁, hrest⟩ := List.map_eq_append_iff.1 h
  obtain ⟨s, ps₂, rfl, h₂⟩ := exists_of_map_kind_eq_cons hrest
  exact ⟨ps₁, s, ps₂, rfl, h₁, h₂⟩

theorem FormsTree.loosen {level level' : Level} {t : Tree} {ps : List Piece} (h : FormsTree level t ps)
    (hl : level'.least ≤ level.least) : FormsTree level' t ps := by
  obtain ⟨e, he, ht⟩ := h
  exact ⟨e, .loosen hl he, ht⟩

theorem FormsTree.chain (op : Operator) {l r : Tree} {ks ks' : List Token.Kind} {ps : List Piece}
    (hl : ∀ {ps}, ps.map Piece.kind = ks → FormsTree op.leftLevel l ps)
    (hr : ∀ {ps}, ps.map Piece.kind = ks' → FormsTree op.rightLevel r ps)
    (hps : ps.map Piece.kind = ks ++ .operator op :: ks') : FormsTree op.level (.binary op l r) ps := by
  obtain ⟨ps₁, s, ps₂, rfl, h₁, h₂⟩ := exists_of_map_kind_eq_append hps
  obtain ⟨el, hel, rfl⟩ := hl h₁
  obtain ⟨er, her, rfl⟩ := hr h₂
  exact ⟨_, .chain op s hel her, Expr.tree_joined ..⟩

mutual

/-- Pieces whose kinds derive a tree form an expression with this tree. -/
theorem formsTree_of_derives : ∀ {level : Level} {ks : List Token.Kind} {t : Tree}, Derives level ks t →
    ∀ {ps : List Piece}, ps.map Piece.kind = ks → FormsTree level t ps
  | _, _, _, .product h, _, hps | _, _, _, .power h, _, hps | _, _, _, .primary h, _, hps =>
    (formsTree_of_derives h hps).loosen (by decide)
  | _, _, _, .sumChain hop hl hr, _, hps => by
    rcases hop with rfl | rfl
    · exact .chain .add (formsTree_of_derives hl) (formsTree_of_derives hr) hps
    · exact .chain .sub (formsTree_of_derives hl) (formsTree_of_derives hr) hps
  | _, _, _, .productChain hop hl hr, _, hps => by
    rcases hop with rfl | rfl | rfl
    · exact .chain .mul (formsTree_of_derives hl) (formsTree_of_derives hr) hps
    · exact .chain .div (formsTree_of_derives hl) (formsTree_of_derives hr) hps
    · exact .chain .rem (formsTree_of_derives hl) (formsTree_of_derives hr) hps
  | _, _, _, .powerChain hl hr, _, hps => .chain .pow (formsTree_of_derives hl) (formsTree_of_derives hr) hps
  | _, _, _, .integer v, _, hps => by
    obtain ⟨⟨_, s⟩, rfl, rfl⟩ := List.map_eq_singleton_iff.1 hps
    exact ⟨_, .integer v s, rfl⟩
  | _, _, _, .decimal v, _, hps => by
    obtain ⟨⟨_, s⟩, rfl, rfl⟩ := List.map_eq_singleton_iff.1 hps
    exact ⟨_, .decimal v s, rfl⟩
  | _, _, _, .constant name v, _, hps => by
    obtain ⟨⟨_, s⟩, rfl, rfl⟩ := List.map_eq_singleton_iff.1 hps
    exact ⟨_, .constant name v s, rfl⟩
  | _, _, _, .group h, _, hps => by
    obtain ⟨s, _, rfl, hrest⟩ := exists_of_map_kind_eq_cons hps
    obtain ⟨inner, s', _, rfl, hinner, hnil⟩ := exists_of_map_kind_eq_append hrest
    obtain rfl := List.map_eq_nil_iff.1 hnil
    obtain ⟨e, he, rfl⟩ := formsTree_of_derives h hinner
    exact ⟨_, .group s s' he, Expr.tree_withSpan ..⟩
  | _, _, _, .negate h, _, hps => by
    obtain ⟨s, _, rfl, hrest⟩ := exists_of_map_kind_eq_cons hps
    obtain ⟨e, he, rfl⟩ := formsTree_of_derives h hrest
    exact ⟨_, .negate s he, Expr.tree_negated ..⟩
  | _, _, _, .bareCall name, _, hps => by
    obtain ⟨s, _, rfl, hrest⟩ := exists_of_map_kind_eq_cons hps
    obtain ⟨s', _, rfl, hrest'⟩ := exists_of_map_kind_eq_cons hrest
    obtain ⟨⟨_, s''⟩, rfl, rfl⟩ := List.map_eq_singleton_iff.1 hrest'
    exact ⟨_, .bareCall name s s' s'', rfl⟩
  | _, _, _, .call name h, _, hps => by
    obtain ⟨s, _, rfl, hrest⟩ := exists_of_map_kind_eq_cons hps
    obtain ⟨s', _, rfl, hrest'⟩ := exists_of_map_kind_eq_cons hrest
    obtain ⟨inner, s'', _, rfl, hinner, hnil⟩ := exists_of_map_kind_eq_append hrest'
    obtain rfl := List.map_eq_nil_iff.1 hnil
    obtain ⟨es, hes, rfl⟩ := formsAll_of_derivesAll h hinner
    exact ⟨_, .call name s s' s'' hes, rfl⟩

theorem formsAll_of_derivesAll : ∀ {ks : List Token.Kind} {ts : List Tree}, DerivesAll ks ts →
    ∀ {ps : List Piece}, ps.map Piece.kind = ks → ∃ es, FormsAll ps es ∧ Expr.trees es = ts
  | _, _, .one h, _, hps => by
    obtain ⟨e, he, rfl⟩ := formsTree_of_derives h hps
    exact ⟨[e], .one he, rfl⟩
  | _, _, .more h hs, _, hps => by
    obtain ⟨ps₁, s, ps₂, rfl, h₁, h₂⟩ := exists_of_map_kind_eq_append hps
    obtain ⟨e, he, rfl⟩ := formsTree_of_derives h h₁
    obtain ⟨es, hes, rfl⟩ := formsAll_of_derivesAll hs h₂
    exact ⟨e :: es, .more s he hes, rfl⟩

end

end Reckon
