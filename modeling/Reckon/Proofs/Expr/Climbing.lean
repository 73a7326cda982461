import Reckon.Proofs.Expr.Forms
import Reckon.Proofs.Expr.Reading
/-!
# The parser reads the grammar

The parser has no function for each nonterminal: one loop takes operators as long as their precedence reaches a least
one. We prove that it accepts exactly what derives from the grammar, and that it gives the expression that the pieces
form, spans included.

That pieces which form an expression are read is an induction on how they form it. The loop has to be caught in the
middle of a chain, so `Level.Reads` says of a nonterminal that reading an expression comes down to going on with its
operators behind what is formed. That what is read is formed is an induction along the parser's own recursion; the
loop keeps that what it has read so far may be the left operand of the operator that comes next.
-/

namespace Reckon

open Token (Piece)

/-- The pieces do not begin with an operator of precedence `n` or above. -/
def StopsBelow (n : Nat) (ps : List Piece) : Prop := ∀ op s rest, ps = ⟨.operator op, s⟩ :: rest → op.precedence < n

theorem StopsBelow.mono {m n : Nat} {ps : List Piece} (h : StopsBelow m ps) (hmn : m ≤ n) : StopsBelow n ps :=
  fun op s rest e => Nat.lt_of_lt_of_le (h op s rest e) hmn

/-- In front of a closing parenthesis, a comma or the end, no operator follows. -/
theorem stopsBelow_of_ne {n : Nat} {k : Token.Kind} {s : Span} {ps : List Piece} (h : ∀ op, k ≠ .operator op) :
    StopsBelow n (⟨k, s⟩ :: ps) := by
  intro op s' rest he
  injection he with he
  injection he with he
  exact absurd he (h op)

theorem stopsBelow_nil {n : Nat} : StopsBelow n [] := by
  intro op s rest he
  cases he

/-- What an operator has on its left does not take the operator itself. -/
theorem stopsBelow_leftLevel (op : Operator) {s : Span} {ps : List Piece} :
    StopsBelow op.leftLevel.bound (⟨.operator op, s⟩ :: ps) := by
  intro op' _ _ he
  injection he with he
  injection he with he
  injection he with he
  exact he ▸ op.precedence_lt_leftLevel

theorem Cursor.precedence_lt {c : Cursor} {n : Nat} (h : StopsBelow n c.pieces) {op : Operator}
    (hk : c.kind = .operator op) : op.precedence < n :=
  h op _ _ (pieces_eq_cons hk (by simp))

theorem Cursor.readOperators_gives_self {c : Cursor} {n : Nat} {e : Expr} (h : StopsBelow n c.pieces) :
    (c.readOperators n e).Gives e c :=
  (readOperators_gives_of_lt fun _ hk => precedence_lt h hk).2 ⟨rfl, rfl⟩

/-! ## What is formed is read -/

/-- From `c` on, what derives from the nonterminal and forms `e` is read up to `rest`. For a nonterminal with chains
this says that reading an expression comes down to going on with the operators behind `e`. -/
def Level.Reads (level : Level) (c : Cursor) (e : Expr) (rest : List Piece) : Prop :=
  match level with
  | .primary => ∃ d, c.readOperand.Gives e d ∧ d.pieces = rest
  | level => ∀ n, n ≤ level.least → StopsBelow level.bound rest →
      ∃ d : Cursor, (c.readExpr n).Agrees (d.readOperators n e) ∧ d.pieces = rest

namespace Level.Reads

variable {level : Level} {c : Cursor} {e : Expr} {rest : List Piece}

theorem goOn (h : level.Reads c e rest) {n : Nat} (hn : n ≤ level.least) (hs : StopsBelow level.bound rest) :
    ∃ d : Cursor, (c.readExpr n).Agrees (d.readOperators n e) ∧ d.pieces = rest := by
  cases level with
  | sum | product | power => exact h n hn hs
  | primary =>
    obtain ⟨d, hg, hd⟩ := h
    exact ⟨d, Cursor.readExpr_agrees hg, hd⟩

/-- Where no operator of the least precedence follows, the whole expression has been read. -/
theorem gives (h : level.Reads c e rest) {n : Nat} (hn : n ≤ level.least) (hs : StopsBelow level.bound rest)
    (hs' : StopsBelow n rest) : ∃ d, (c.readExpr n).Gives e d ∧ d.pieces = rest := by
  obtain ⟨d, hg, rfl⟩ := h.goOn hn hs
  exact ⟨d, hg.gives (Cursor.readOperators_gives_self hs'), rfl⟩

/-- In front of what is no operator, an expression of the loosest nonterminal has been read. -/
theorem gives_sum (h : Level.sum.Reads c e rest) (hs : ∀ n, StopsBelow n rest) :
    ∃ d, (c.readExpr 0).Gives e d ∧ d.pieces = rest :=
  h.gives (Nat.zero_le _) (hs _) (hs _)

/-- A tighter nonterminal is read as part of a looser one. -/
theorem loosen {level' : Level} (h : level.Reads c e rest) (hl : level'.least ≤ level.least) : level'.Reads c e rest := by
  cases level' with
  | primary => exact Level.eq_primary hl ▸ h
  | sum | product | power => exact fun n hn hs => h.goOn (Nat.le_trans hn hl) (hs.mono (Level.bound_le hl))

/-- An operator is read with its operands. -/
theorem chain (op : Operator) {s : Span} {l r : Expr} {ps : List Piece}
    (hl : op.leftLevel.Reads c l (⟨.operator op, s⟩ :: ps))
    (hr : ∀ d : Cursor, d.pieces = ps → op.rightLevel.Reads d r rest) : op.level.Reads c (.joined op l r) rest := by
  suffices h : ∀ n, n ≤ op.level.least → StopsBelow op.level.bound rest →
      ∃ d : Cursor, (c.readExpr n).Agrees (d.readOperators n (.joined op l r)) ∧ d.pieces = rest by
    cases op <;> exact h
  intro n hn hs
  rw [op.least_level] at hn
  obtain ⟨m, hleft, hm⟩ := hl.goOn (Nat.le_trans hn op.precedence_le_leftLevel) (stopsBelow_leftLevel op)
  obtain ⟨hk, -, -, hps⟩ := Cursor.of_pieces_eq_cons hm
  -- The right operand stops where the whole chain does.
  obtain ⟨d, hright, hd⟩ :=
    (hr _ hps).gives (Nat.le_of_eq op.least_rightLevel.symm) (hs.mono op.bound_level_le) (op.bound_level ▸ hs)
  exact ⟨d, hleft.trans (Cursor.readOperators_agrees hk hn hright), hd⟩

end Level.Reads

theorem Cursor.kind_ne_rightParen {c d : Cursor} {n : Nat} {e : Expr} (h : (c.readExpr n).Gives e d) :
    c.kind ≠ .rightParen := by
  obtain ⟨left, m, hg, -⟩ := readExpr_gives.1 h
  exact fun hk => not_readOperand_gives (.inr (.inl hk)) hg

mutual

theorem reads_of_forms : ∀ {level : Level} {ps : List Piece} {e : Expr}, Forms level ps e →
    ∀ {c : Cursor} {rest : List Piece}, c.pieces = ps ++ rest → level.Reads c e rest
  | _, _, _, .loosen hl h, _, _, hc => (reads_of_forms h hc).loosen hl
  | _, _, _, .chain op s hl hr, _, _, hc => by
    -- The shorter chain is read up to the last operator, from which the loop goes on.
    rw [List.append_assoc] at hc
    exact Level.Reads.chain op (reads_of_forms hl hc) fun d hd => reads_of_forms hr hd
  | _, _, _, .integer v s, c, rest, hc => by
    obtain ⟨hk, rfl, -, hps⟩ := Cursor.of_pieces_eq_cons hc
    exact ⟨_, (Cursor.readOperand_gives_integer hk).2 ⟨rfl, rfl⟩, hps⟩
  | _, _, _, .decimal v s, c, rest, hc => by
    obtain ⟨hk, rfl, -, hps⟩ := Cursor.of_pieces_eq_cons hc
    exact ⟨_, (Cursor.readOperand_gives_decimal hk).2 ⟨rfl, rfl⟩, hps⟩
  | _, _, _, .constant name v s, c, rest, hc => by
    obtain ⟨hk, rfl, -, hps⟩ := Cursor.of_pieces_eq_cons hc
    exact ⟨_, (Cursor.readOperand_gives_constant hk).2 ⟨rfl, rfl⟩, hps⟩
  | _, _, _, .group s s' h, c, rest, hc => by
    rw [List.cons_append, List.append_assoc] at hc
    obtain ⟨hk, rfl, -, hps⟩ := Cursor.of_pieces_eq_cons hc
    obtain ⟨d, hg, hd⟩ := (reads_of_forms h hps).gives_sum fun _ => stopsBelow_of_ne (by simp)
    obtain ⟨hk', rfl, -, hrest⟩ := Cursor.of_pieces_eq_cons hd
    exact ⟨_, (Cursor.readOperand_gives_leftParen hk).2 ⟨_, d, hg, hk', rfl, rfl⟩, hrest⟩
  | _, _, _, .negate s h, c, rest, hc => by
    obtain ⟨hk, rfl, -, hps⟩ := Cursor.of_pieces_eq_cons hc
    obtain ⟨d, hg, hd⟩ := reads_of_forms h hps
    exact ⟨_, (Cursor.readOperand_gives_sub hk).2 ⟨_, hg, rfl⟩, hd⟩
  | _, _, _, .bareCall name s s' s'', c, rest, hc => by
    obtain ⟨hk, rfl, -, hps⟩ := Cursor.of_pieces_eq_cons hc
    obtain ⟨hk₁, -, -, hps₁⟩ := Cursor.of_pieces_eq_cons hps
    obtain ⟨hk₂, rfl, -, hps₂⟩ := Cursor.of_pieces_eq_cons hps₁
    refine ⟨_, (Cursor.readOperand_gives_function hk).2 (Cursor.readCall_gives.2 ⟨hk₁, [], _, ?_, hk₂, rfl, rfl⟩), hps₂⟩
    exact (Cursor.readArguments_gives_nil hk₂).2 ⟨rfl, rfl⟩
  | _, _, _, .call name s s' s'' h, c, rest, hc => by
    rw [List.cons_append, List.cons_append, List.append_assoc] at hc
    obtain ⟨hk, rfl, -, hps⟩ := Cursor.of_pieces_eq_cons hc
    obtain ⟨hk₁, -, -, hps₁⟩ := Cursor.of_pieces_eq_cons hps
    obtain ⟨d, hn, hg, hd⟩ := reads_of_formsAll h hps₁ (fun _ => stopsBelow_of_ne (by simp)) (by simp)
    obtain ⟨hk₂, rfl, -, hps₂⟩ := Cursor.of_pieces_eq_cons hd
    refine ⟨_, (Cursor.readOperand_gives_function hk).2 (Cursor.readCall_gives.2 ⟨hk₁, _, d, ?_, hk₂, rfl, rfl⟩), hps₂⟩
    exact (Cursor.readArguments_gives_list hn).2 hg

/-- Arguments are read in front of what is neither an operator nor a comma. -/
theorem reads_of_formsAll : ∀ {ps : List Piece} {es : List Expr}, FormsAll ps es →
    ∀ {c : Cursor} {rest : List Piece}, c.pieces = ps ++ rest → (∀ n, StopsBelow n rest) →
      (∀ s more, rest ≠ ⟨.comma, s⟩ :: more) →
      ∃ d, c.kind ≠ .rightParen ∧ c.readArgumentList.Gives es d ∧ d.pieces = rest
  | _, _, .one h, c, rest, hc, hs, hcomma => by
    obtain ⟨d, hg, hd⟩ := (reads_of_forms h hc).gives_sum hs
    refine ⟨d, Cursor.kind_ne_rightParen hg, Cursor.readArgumentList_gives.2 ⟨_, d, hg, .inr ⟨fun hk => ?_, rfl, rfl⟩⟩, hd⟩
    exact hcomma _ _ (hd.symm.trans (Cursor.pieces_eq_cons hk (by simp)))
  | _, _, .more s h hs, c, rest, hc, hstop, hcomma => by
    rw [List.append_assoc] at hc
    obtain ⟨m, hg, hm⟩ := (reads_of_forms h hc).gives_sum fun _ => stopsBelow_of_ne (by simp)
    obtain ⟨hk, -, -, hps⟩ := Cursor.of_pieces_eq_cons hm
    obtain ⟨d, -, hgs, hd⟩ := reads_of_formsAll hs hps hstop hcomma
    exact ⟨d, Cursor.kind_ne_rightParen hg, Cursor.readArgumentList_gives.2 ⟨_, m, hg, .inl ⟨hk, _, hgs, rfl⟩⟩, hd⟩

end

/-! ## What is read is formed -/

/-- What the pieces between two cursors form. -/
def FormsFrom (level : Level) (c d : Cursor) (e : Expr) : Prop := ∃ ps, c.Passes ps d ∧ Forms level ps e

/-- What has been read so far, and is `left`, may be the left operand of the operator that `c` stands on. -/
def MayGoOn (c : Cursor) (n : Nat) (ps : List Piece) (left : Expr) : Prop :=
  Forms (.ofLeast n) ps left ∧ ∀ op, c.kind = .operator op → Forms op.leftLevel ps left

theorem MayGoOn.of_primary {c : Cursor} {n : Nat} {ps : List Piece} {e : Expr} (h : Forms .primary ps e) :
    MayGoOn c n ps e :=
  ⟨h.ofPrimary, fun _ _ => h.ofPrimary⟩

theorem MayGoOn.of_chain {c : Cursor} {n : Nat} {op : Operator} {ps : List Piece} {e : Expr}
    (hp : n ≤ op.precedence) (h : Forms op.level ps e) (hs : StopsBelow op.rightPrecedence c.pieces) :
    MayGoOn c n ps e := by
  refine ⟨.loosen (Level.least_ofLeast_le (op.least_level ▸ hp)) h, fun next hk => .loosen ?_ h⟩
  exact Operator.least_leftLevel_le (Cursor.precedence_lt hs hk)

theorem forms_of_reads :
    (∀ c n e d, (Cursor.readExpr c n).Gives e d →
      FormsFrom (.ofLeast n) c d e ∧ StopsBelow n d.pieces) ∧
    (∀ c n left e d, (Cursor.readOperators c n left).Gives e d → ∀ ps, MayGoOn c n ps left →
      (∃ ps', c.Passes ps' d ∧ Forms (.ofLeast n) (ps ++ ps') e) ∧ StopsBelow n d.pieces) ∧
    (∀ c e d, (Cursor.readOperand c).Gives e d → FormsFrom .primary c d e) ∧
    (∀ c name start e d, (Cursor.readCall c name start).Gives e d →
      ∃ ps, c.Passes ps d ∧ Forms .primary (⟨.function name, start⟩ :: ps) e) ∧
    (∀ c args d, (Cursor.readArguments c).Gives args d →
      args = [] ∧ d = c ∧ c.kind = .rightParen ∨
        ∃ ps, c.Passes ps d ∧ FormsAll ps args ∧ StopsBelow 0 d.pieces ∧ d.kind ≠ .comma) ∧
    (∀ c args d, (Cursor.readArgumentList c).Gives args d →
      ∃ ps, c.Passes ps d ∧ FormsAll ps args ∧ StopsBelow 0 d.pieces ∧ d.kind ≠ .comma) := by
  -- The motives are the six parts in the order of the functions; only the loop's assumes what has been read before.
  apply Cursor.readExpr.mutual_induct
    (fun c n => ∀ e d, (c.readExpr n).Gives e d →
      FormsFrom (.ofLeast n) c d e ∧ StopsBelow n d.pieces)
    (fun c n left => ∀ e d, (c.readOperators n left).Gives e d → ∀ ps, MayGoOn c n ps left →
      (∃ ps', c.Passes ps' d ∧ Forms (.ofLeast n) (ps ++ ps') e) ∧ StopsBelow n d.pieces)
    (fun c => ∀ e d, c.readOperand.Gives e d → FormsFrom .primary c d e)
    (fun c name start => ∀ e d, (c.readCall name start).Gives e d →
      ∃ ps, c.Passes ps d ∧ Forms .primary (⟨.function name, start⟩ :: ps) e)
    (fun c => ∀ args d, c.readArguments.Gives args d →
      args = [] ∧ d = c ∧ c.kind = .rightParen ∨
        ∃ ps, c.Passes ps d ∧ FormsAll ps args ∧ StopsBelow 0 d.pieces ∧ d.kind ≠ .comma)
    (fun c => ∀ args d, c.readArgumentList.Gives args d →
      ∃ ps, c.Passes ps d ∧ FormsAll ps args ∧ StopsBelow 0 d.pieces ∧ d.kind ≠ .comma)
  case case1 => -- an operand and what follows it
    intro c n ihOperand ihOperators e d h
    obtain ⟨left, m, hl, hr⟩ := Cursor.readExpr_gives.1 h
    obtain ⟨ps, hc, hd⟩ := ihOperand left m hl
    obtain ⟨⟨ps', hm, he⟩, hs⟩ := ihOperators left m (hl.2 ▸ c.readOperand.remaining_le) e d hr ps (.of_primary hd)
    exact ⟨⟨ps ++ ps', hc.trans hm, he⟩, hs⟩
  case case2 => -- an operator that binds too loosely
    intro c n left op hk hp e d h ps hps
    obtain ⟨rfl, rfl⟩ := (Cursor.readOperators_gives_of_lt (by simpa [hk] using hp)).1 h
    refine ⟨⟨[], .refl c, by simpa using hps.1⟩, fun op' s rest he => ?_⟩
    obtain ⟨hk', -⟩ := Cursor.of_pieces_eq_cons he
    rw [hk] at hk'
    cases hk'
    exact hp
  case case3 => -- an operator, its right operand and what follows
    intro c n left op hk hp _ ihRight ihOperators e d h ps hps
    obtain ⟨right, m, hr, hrest⟩ := (Cursor.readOperators_gives_of_le hk (Nat.not_lt.1 hp)).1 h
    obtain ⟨⟨ps', hc, hd⟩, hs⟩ := ihRight right m hr
    rw [op.ofLeast_rightPrecedence] at hd
    have hchain : Forms op.level (ps ++ ⟨.operator op, c.current.span⟩ :: ps') (Expr.joined op left right) :=
      .chain op _ (hps.2 op hk) hd
    obtain ⟨⟨ps'', hm, he⟩, hs'⟩ := ihOperators right m (hr.2 ▸ (c.advance.readExpr _).remaining_le) e d hrest _
      (.of_chain (Nat.not_lt.1 hp) hchain hs)
    exact ⟨⟨_, .step hk (by simp) (hc.trans hm), by simpa using he⟩, hs'⟩
  case case4 => -- no operator
    intro c n left hk e d h ps hps
    obtain ⟨rfl, rfl⟩ := (Cursor.readOperators_gives_of_lt fun op h => (hk op h).elim).1 h
    refine ⟨⟨[], .refl c, by simpa using hps.1⟩, fun op s rest he => ?_⟩
    exact (hk op (Cursor.of_pieces_eq_cons he).1).elim
  case case5 => -- an integer
    intro c v hk e d h
    obtain ⟨rfl, rfl⟩ := (Cursor.readOperand_gives_integer hk).1 h
    exact ⟨_, .step hk (by simp) (.refl _), .integer v _⟩
  case case6 => -- a decimal
    intro c v hk e d h
    obtain ⟨rfl, rfl⟩ := (Cursor.readOperand_gives_decimal hk).1 h
    exact ⟨_, .step hk (by simp) (.refl _), .decimal v _⟩
  case case7 => -- a constant
    intro c name v hk e d h
    obtain ⟨rfl, rfl⟩ := (Cursor.readOperand_gives_constant hk).1 h
    exact ⟨_, .step hk (by simp) (.refl _), .constant name v _⟩
  case case8 => -- a call
    intro c name hk _ ih e d h
    obtain ⟨ps, hc, hd⟩ := ih e d ((Cursor.readOperand_gives_function hk).1 h)
    exact ⟨_, .step hk (by simp) hc, hd⟩
  case case9 => -- parentheses
    intro c hk _ ih e d h
    obtain ⟨inner, m, hg, hk', rfl, rfl⟩ := (Cursor.readOperand_gives_leftParen hk).1 h
    obtain ⟨⟨ps, hc, hd⟩, -⟩ := ih inner m hg
    exact ⟨_, .step hk (by simp) (hc.trans (.step hk' (by simp) (.refl _))), .group _ _ hd⟩
  case case10 => -- a sign
    intro c hk _ ih e d h
    obtain ⟨operand, hg, rfl⟩ := (Cursor.readOperand_gives_sub hk).1 h
    obtain ⟨ps, hc, hd⟩ := ih operand d hg
    exact ⟨_, .step hk (by simp) hc, .negate _ hd⟩
  case case11 => -- another operator
    intro c op hop hk e d h
    exact (Cursor.not_readOperand_gives (.inr (.inr (.inr ⟨op, hop, hk⟩))) h).elim
  case case12 => -- the end
    intro c hk e d h
    exact (Cursor.not_readOperand_gives (.inl hk) h).elim
  case case13 => -- a closing parenthesis
    intro c hk e d h
    exact (Cursor.not_readOperand_gives (.inr (.inl hk)) h).elim
  case case14 => -- a comma
    intro c hk e d h
    exact (Cursor.not_readOperand_gives (.inr (.inr (.inl hk))) h).elim
  case case15 => -- the parentheses of a call
    intro c name start hk _ ih e d h
    obtain ⟨-, args, m, hg, hk', rfl, rfl⟩ := Cursor.readCall_gives.1 h
    rcases ih args m hg with ⟨rfl, rfl, -⟩ | ⟨ps, hc, hd, -⟩
    · exact ⟨_, .step hk (by simp) (.step hk' (by simp) (.refl _)), .bareCall name _ _ _⟩
    · exact ⟨_, .step hk (by simp) (hc.trans (.step hk' (by simp) (.refl _))), .call name _ _ _ hd⟩
  case case16 => -- a function without parentheses
    intro c name start hk e d h
    exact (hk (Cursor.readCall_gives.1 h).1).elim
  case case17 => -- no arguments
    intro c hk args d h
    obtain ⟨rfl, rfl⟩ := (Cursor.readArguments_gives_nil hk).1 h
    exact .inl ⟨rfl, rfl, hk⟩
  case case18 => -- arguments
    intro c hk ih args d h
    exact .inr (ih args d ((Cursor.readArguments_gives_list hk).1 h))
  case case19 => -- an argument and what follows it
    intro c ihArg ihMore args d h
    obtain ⟨arg, m, hg, hrest⟩ := Cursor.readArgumentList_gives.1 h
    obtain ⟨⟨ps, hc, hd⟩, hs⟩ := ihArg arg m hg
    rcases hrest with ⟨hk, more, hg', rfl⟩ | ⟨hk, rfl, rfl⟩
    · obtain ⟨ps', hm, hd', hstop⟩ := ihMore m (hg.2 ▸ (c.readExpr 0).remaining_le) hk more d hg'
      exact ⟨_, hc.trans (.step hk (by simp) hm), .more _ hd hd', hstop⟩
    · exact ⟨ps, hc, .one hd, hs, hk⟩

/-! ## Complete expressions -/

/-- Tokens whose pieces form an expression are read to their end. -/
theorem ofTokens_of_forms {tokens : List Token} {e : Expr} (h : Forms .sum (Token.pieces tokens) e) :
    Expr.ofTokens tokens = .ok e := by
  have hc : (Cursor.ofTokens tokens).pieces = Token.pieces tokens ++ [] := by
    rw [Cursor.pieces_ofTokens, List.append_nil]
  obtain ⟨d, hg, hd⟩ := (reads_of_forms h hc).gives_sum fun _ => stopsBelow_nil
  exact (Cursor.readComplete_gives.2 ⟨hg, Cursor.isAtEnd_iff.2 hd⟩).1

/-- The pieces of tokens that are read to their end form the expression. -/
theorem forms_of_ofTokens {tokens : List Token} {e : Expr} (h : Expr.ofTokens tokens = .ok e) :
    Forms .sum (Token.pieces tokens) e := by
  obtain ⟨hg, hend⟩ := Cursor.readComplete_gives.1 ⟨h, rfl⟩
  obtain ⟨⟨ps, hc, hf⟩, -⟩ := forms_of_reads.1 _ _ _ _ hg
  have hps := hc.pieces_eq
  rw [Cursor.isAtEnd_iff.1 hend, List.append_nil, Cursor.pieces_ofTokens] at hps
  exact hps ▸ hf

/-- Tokens that derive are read to their end. -/
theorem ofTokens_of_derives {tokens : List Token} {t : Tree} (h : Derives .sum (Token.content tokens) t) :
    ∃ e, Expr.ofTokens tokens = .ok e ∧ e.tree = t := by
  obtain ⟨e, he, ht⟩ := formsTree_of_derives h (Token.map_kind_pieces tokens)
  exact ⟨e, ofTokens_of_forms he, ht⟩

/-- Tokens that are read to their end derive. -/
theorem derives_of_ofTokens {tokens : List Token} {e : Expr} (h : Expr.ofTokens tokens = .ok e) :
    Derives .sum (Token.content tokens) e.tree :=
  Token.map_kind_pieces tokens ▸ (forms_of_ofTokens h).derives

/-- Where tokens stand in the source plays no part in what tree they form. -/
theorem exists_ofTokens_of_kinds {tokens tokens' : List Token} (hk : tokens'.map Token.kind = tokens.map Token.kind)
    {e : Expr} (h : Expr.ofTokens tokens = .ok e) : ∃ e', Expr.ofTokens tokens' = .ok e' ∧ e'.tree = e.tree := by
  have hcontent : Token.content tokens' = Token.content tokens := by rw [Token.content, hk, Token.content]
  exact ofTokens_of_derives (hcontent ▸ derives_of_ofTokens h)

/-- The parser accepts exactly the tokens whose kinds, up to the first end of the input, derive from the grammar; it
gives the tree that they form, of which there is only one, and fails on all other tokens. -/
theorem ofTokens_reads_grammar (tokens : List Token) :
    (∀ t, Derives .sum (Token.content tokens) t ↔ ∃ e, Expr.ofTokens tokens = .ok e ∧ e.tree = t) ∧
      (∀ t t', Derives .sum (Token.content tokens) t → Derives .sum (Token.content tokens) t' → t = t') ∧
      ((∃ error, Expr.ofTokens tokens = .error error) ↔ ¬∃ t, Derives .sum (Token.content tokens) t) := by
  refine ⟨fun t => ⟨ofTokens_of_derives, ?_⟩, fun t t' h h' => ?_, ?_, fun h => ?_⟩
  · rintro ⟨e, he, rfl⟩
    exact derives_of_ofTokens he
  · obtain ⟨e, he, rfl⟩ := ofTokens_of_derives h
    obtain ⟨e', he', rfl⟩ := ofTokens_of_derives h'
    rw [he] at he'
    cases he'
    rfl
  · rintro ⟨error, herror⟩ ⟨t, h⟩
    obtain ⟨e, he, -⟩ := ofTokens_of_derives h
    rw [herror] at he
    cases he
  · cases ho : Expr.ofTokens tokens with
    | error error => exact ⟨error, rfl⟩
    | ok e => exact absurd ⟨e.tree, derives_of_ofTokens ho⟩ h

end Reckon
