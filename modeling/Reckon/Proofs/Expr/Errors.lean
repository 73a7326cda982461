import Reckon.Proofs.Expr.Climbing
import Reckon.Proofs.Expr.Stuck
import Reckon.Registry.Standard
import Reckon.Token.Lexer
/-!
# Errors at the earliest token

The parser fails exactly where reading gets stuck. One induction along its recursion finds the rule of `Stuck` behind
every error; another, along these rules, finds that all tokens with the same beginning fail there. So the tokens
before an error are the beginning of something complete, and with one token more they are not.
-/

namespace Reckon

open Token (Piece firstKind)

namespace Cursor

variable {c d : Cursor}

theorem kind_eq_firstKind (c : Cursor) : c.kind = firstKind c.pieces .eof := by
  by_cases he : c.kind = .eof
  · rw [pieces_eq_nil he]
    exact he
  · rw [pieces_eq_cons rfl he]
    rfl

theorem Passes.kind_eq {ps : List Piece} (h : c.Passes ps d) : c.kind = firstKind ps d.kind := by
  cases h with
  | refl => rfl
  | step hk _ _ => exact hk

/-- Behind an expression that takes every operator there is none. -/
theorem kind_ne_operator (h : StopsBelow 0 c.pieces) (op : Operator) : c.kind ≠ .operator op :=
  fun hk => Nat.not_lt_zero _ (precedence_lt h hk)

end Cursor

/-! ## Where reading fails it is stuck -/

/-- Between the cursors reading takes some pieces and gets stuck with the error. -/
def StuckFrom (goal : Goal) (c d : Cursor) (err : ParseError) : Prop :=
  ∃ ps k, c.Passes ps d ∧ Stuck goal ps d.kind k ∧ d.errorHere k = err

theorem stuckFrom_of_fails :
    (∀ c n err d, (Cursor.readExpr c n).FailsAt err d → StuckFrom (.expr n) c d err) ∧
    (∀ c n left err d, (Cursor.readOperators c n left).FailsAt err d → ∀ ps, MayGoOn c n ps left →
      ∃ ps' k, c.Passes ps' d ∧ Stuck (.expr n) (ps ++ ps') d.kind k ∧ d.errorHere k = err) ∧
    (∀ c err d, (Cursor.readOperand c).FailsAt err d → StuckFrom .operand c d err) ∧
    (∀ c name start err d, (Cursor.readCall c name start).FailsAt err d →
      ∃ ps k, c.Passes ps d ∧ Stuck .operand (⟨.function name, start⟩ :: ps) d.kind k ∧ d.errorHere k = err) ∧
    (∀ c err d, (Cursor.readArguments c).FailsAt err d → StuckFrom .arguments c d err) ∧
    (∀ c err d, (Cursor.readArgumentList c).FailsAt err d → StuckFrom .arguments c d err) := by
  -- As for what is read: six parts in the order of the functions, and the loop assumes what has been read before.
  apply Cursor.readExpr.mutual_induct
    (fun c n => ∀ err d, (c.readExpr n).FailsAt err d → StuckFrom (.expr n) c d err)
    (fun c n left => ∀ err d, (c.readOperators n left).FailsAt err d → ∀ ps, MayGoOn c n ps left →
      ∃ ps' k, c.Passes ps' d ∧ Stuck (.expr n) (ps ++ ps') d.kind k ∧ d.errorHere k = err)
    (fun c => ∀ err d, c.readOperand.FailsAt err d → StuckFrom .operand c d err)
    (fun c name start => ∀ err d, (c.readCall name start).FailsAt err d →
      ∃ ps k, c.Passes ps d ∧ Stuck .operand (⟨.function name, start⟩ :: ps) d.kind k ∧ d.errorHere k = err)
    (fun c => ∀ err d, c.readArguments.FailsAt err d → StuckFrom .arguments c d err)
    (fun c => ∀ err d, c.readArgumentList.FailsAt err d → StuckFrom .arguments c d err)
  case case1 => -- an operand and what follows it
    intro c n ihOperand ihOperators err d h
    rcases Cursor.readExpr_failsAt.1 h with h | ⟨left, m, hl, h⟩
    · obtain ⟨ps, k, hc, hs, he⟩ := ihOperand err d h
      exact ⟨ps, k, hc, .first hs, he⟩
    · obtain ⟨ps, hc, hf⟩ := forms_of_reads.2.2.1 _ _ _ hl
      obtain ⟨ps', k, hm, hs, he⟩ :=
        ihOperators left m (hl.2 ▸ c.readOperand.remaining_le) err d h ps (.of_primary hf)
      exact ⟨ps ++ ps', k, hc.trans hm, hs, he⟩
  case case2 => -- an operator that binds too loosely
    intro c n left op hk hp err d h
    exact absurd h (Cursor.not_readOperators_failsAt_of_lt (by simpa [hk] using hp))
  case case3 => -- an operator, its right operand and what follows
    intro c n left op hk hp _ ihRight ihOperators err d h ps hps
    rcases (Cursor.readOperators_failsAt_of_le hk (Nat.not_lt.1 hp)).1 h with h | ⟨right, m, hr, h⟩
    · obtain ⟨ps', k, hc, hs, he⟩ := ihRight err d h
      exact ⟨_, k, .step hk (by simp) hc, .right _ (Nat.not_lt.1 hp) (hps.2 op hk) hs, he⟩
    · obtain ⟨⟨ps', hc, hf⟩, hs⟩ := forms_of_reads.1 _ _ _ _ hr
      rw [op.ofLeast_rightPrecedence] at hf
      have hchain : Forms op.level (ps ++ ⟨.operator op, c.current.span⟩ :: ps') (Expr.joined op left right) :=
        .chain op _ (hps.2 op hk) hf
      obtain ⟨ps'', k, hm, hs', he⟩ := ihOperators right m (hr.2 ▸ (c.advance.readExpr _).remaining_le) err d h _
        (.of_chain (Nat.not_lt.1 hp) hchain hs)
      exact ⟨_, k, .step hk (by simp) (hc.trans hm), by simpa using hs', he⟩
  case case4 => -- no operator
    intro c n left hk err d h
    exact absurd h (Cursor.not_readOperators_failsAt_of_lt fun op h => (hk op h).elim)
  case case5 => -- an integer
    intro c v hk err d h
    exact absurd h (Cursor.not_readOperand_failsAt (.inl ⟨v, hk⟩))
  case case6 => -- a decimal
    intro c v hk err d h
    exact absurd h (Cursor.not_readOperand_failsAt (.inr (.inl ⟨v, hk⟩)))
  case case7 => -- a constant
    intro c name v hk err d h
    exact absurd h (Cursor.not_readOperand_failsAt (.inr (.inr ⟨name, v, hk⟩)))
  case case8 => -- a call
    intro c name hk _ ih err d h
    obtain ⟨ps, k, hc, hs, he⟩ := ih err d ((Cursor.readOperand_failsAt_function hk).1 h)
    exact ⟨_, k, .step hk (by simp) hc, hs, he⟩
  case case9 => -- parentheses
    intro c hk _ ih err d h
    rcases (Cursor.readOperand_failsAt_leftParen hk).1 h with h | ⟨inner, hg, hk', he⟩
    · obtain ⟨ps, k, hc, hs, he⟩ := ih err d h
      exact ⟨_, k, .step hk (by simp) hc, .group _ hs, he⟩
    · obtain ⟨⟨ps, hc, hf⟩, hs⟩ := forms_of_reads.1 _ _ _ _ hg
      exact ⟨_, _, .step hk (by simp) hc, .closing _ hf hk' (Cursor.kind_ne_operator hs), he⟩
  case case10 => -- a sign
    intro c hk _ ih err d h
    obtain ⟨ps, k, hc, hs, he⟩ := ih err d ((Cursor.readOperand_failsAt_sub hk).1 h)
    exact ⟨_, k, .step hk (by simp) hc, .sign _ hs, he⟩
  case case11 => -- another operator
    intro c op hop hk err d h
    have hr : c.kind.refusal? = some (.unexpectedOperator op) := by
      rw [hk]
      simp [Token.Kind.refusal?]
    obtain ⟨he, rfl⟩ := (Cursor.readOperand_failsAt_of_refusal hr).1 h
    exact ⟨[], _, .refl c, .start hr, he⟩
  case case12 => -- the end
    intro c hk err d h
    have hr : c.kind.refusal? = some .unexpectedEof := by rw [hk]; rfl
    obtain ⟨he, rfl⟩ := (Cursor.readOperand_failsAt_of_refusal hr).1 h
    exact ⟨[], _, .refl c, .start hr, he⟩
  case case13 => -- a closing parenthesis
    intro c hk err d h
    have hr : c.kind.refusal? = some (.unexpectedToken .rightParen) := by rw [hk]; rfl
    obtain ⟨he, rfl⟩ := (Cursor.readOperand_failsAt_of_refusal hr).1 h
    exact ⟨[], _, .refl c, .start hr, he⟩
  case case14 => -- a comma
    intro c hk err d h
    have hr : c.kind.refusal? = some (.unexpectedToken .comma) := by rw [hk]; rfl
    obtain ⟨he, rfl⟩ := (Cursor.readOperand_failsAt_of_refusal hr).1 h
    exact ⟨[], _, .refl c, .start hr, he⟩
  case case15 => -- the parentheses of a call
    intro c name start hk _ ih err d h
    rcases (Cursor.readCall_failsAt hk).1 h with h | ⟨args, hg, hk', he⟩
    · obtain ⟨ps, k, hc, hs, he⟩ := ih err d h
      refine ⟨_, k, .step hk (by simp) hc, .call name _ _ hs ?_, he⟩
      rw [← hc.kind_eq]
      exact (Cursor.readArguments_failsAt.1 h).1
    · rcases forms_of_reads.2.2.2.2.1 _ _ _ hg with ⟨-, rfl, hend⟩ | ⟨ps, hc, hf, hs, hcomma⟩
      · exact absurd hend hk'
      · exact ⟨_, _, .step hk (by simp) hc, .closingCall name _ _ hf hk' hcomma (Cursor.kind_ne_operator hs), he⟩
  case case16 => -- a function without parentheses
    intro c name start hk err d h
    obtain ⟨he, rfl⟩ := (Cursor.readCall_failsAt_of_ne hk).1 h
    exact ⟨[], _, .refl c, .opening name start hk, he⟩
  case case17 => -- no arguments
    intro c hk err d h
    exact absurd hk (Cursor.readArguments_failsAt.1 h).1
  case case18 => -- arguments
    intro c hk ih err d h
    exact ih err d (Cursor.readArguments_failsAt.1 h).2
  case case19 => -- an argument and what follows it
    intro c ihArg ihMore err d h
    rcases Cursor.readArgumentList_failsAt.1 h with h | ⟨arg, m, hg, hk, h⟩
    · obtain ⟨ps, k, hc, hs, he⟩ := ihArg err d h
      exact ⟨ps, k, hc, .argument hs, he⟩
    · obtain ⟨⟨ps, hc, hf⟩, -⟩ := forms_of_reads.1 _ _ _ _ hg
      obtain ⟨ps', k, hm, hs, he⟩ := ihMore m (hg.2 ▸ (c.readExpr 0).remaining_le) hk err d h
      exact ⟨_, k, hc.trans (.step hk (by simp) hm), .more _ hf hs, he⟩

/-! ## Where the reading of a complete expression stops -/

/-- Behind the pieces a token of the kind stands in the way of a complete expression, for the reason `err`. -/
inductive Breaks : List Piece → Token.Kind → ParseError.Kind → Prop
  | stuck {ps k err} : Stuck (.expr 0) ps k err → Breaks ps k err
  | trailing {ps e k} : Forms .sum ps e → k ≠ .eof → (∀ op, k ≠ .operator op) → Breaks ps k (.trailingInput k)

theorem Breaks.found {ps : List Piece} {k : Token.Kind} {err : ParseError.Kind} (h : Breaks ps k err) : err.found = k := by
  cases h with
  | stuck hs => exact hs.found
  | trailing => rfl

namespace Cursor

variable {c : Cursor} {err : ParseError}

theorem breaks_of_failsAt {d : Cursor} (h : c.readComplete.FailsAt err d) :
    ∃ ps k, c.Passes ps d ∧ Breaks ps d.kind k ∧ d.errorHere k = err := by
  rcases readComplete_failsAt.1 h with h | ⟨e, hg, hend, he⟩
  · obtain ⟨ps, k, hc, hs, he⟩ := stuckFrom_of_fails.1 _ _ _ _ h
    exact ⟨ps, k, hc, .stuck hs, he⟩
  · obtain ⟨⟨ps, hc, hf⟩, hs⟩ := forms_of_reads.1 _ _ _ _ hg
    exact ⟨ps, _, hc, .trailing hf hend (kind_ne_operator hs), he⟩

/-- On the way only tokens that do not end the input are passed. -/
theorem passes_readComplete (c : Cursor) : ∃ ps, c.Passes ps c.readComplete.cursor := by
  cases h : c.readComplete.outcome with
  | ok e =>
    obtain ⟨⟨ps, hc, -⟩, -⟩ := forms_of_reads.1 _ _ _ _ (readComplete_gives.1 ⟨h, rfl⟩).1
    exact ⟨ps, hc⟩
  | error err =>
    obtain ⟨ps, -, hc, -, -⟩ := breaks_of_failsAt ⟨h, rfl⟩
    exact ⟨ps, hc⟩

theorem kind_of_readComplete_ok {e : Expr} (h : c.readComplete.outcome = .ok e) : c.readComplete.cursor.kind = .eof :=
  Token.Kind.isEof_iff.1 (readComplete_gives.1 ⟨h, rfl⟩).2

/-- An error is about the token at which the reading has stopped. -/
theorem errorHere_of_readComplete (h : c.readComplete.outcome = .error err) :
    ∃ k, c.readComplete.cursor.errorHere k = err ∧ k.found = c.readComplete.cursor.kind := by
  obtain ⟨ps, k, -, hb, he⟩ := breaks_of_failsAt ⟨h, rfl⟩
  exact ⟨k, he, hb.found⟩

end Cursor

/-! ## Where reading is stuck it fails -/

/-- From the cursor the reading of what the goal asks for fails at `d` with the error. -/
def Goal.FailsAt : Goal → Cursor → ParseError → Cursor → Prop
  | expr n, c, err, d => (c.readExpr n).FailsAt err d
  | operand, c, err, d => c.readOperand.FailsAt err d
  | arguments, c, err, d => c.readArgumentList.FailsAt err d

theorem stopsBelow_of_firstKind {n : Nat} {rest : List Piece} (h : ∀ op, firstKind rest .eof ≠ .operator op) :
    StopsBelow n rest := by
  cases rest with
  | nil => exact stopsBelow_nil
  | cons p rest => exact stopsBelow_of_ne h

theorem Stuck.fails {goal : Goal} {ps : List Piece} {k : Token.Kind} {err : ParseError.Kind} (h : Stuck goal ps k err) :
    ∀ {c : Cursor} {rest : List Piece}, c.pieces = ps ++ rest → firstKind rest .eof = k →
      ∃ d, d.pieces = rest ∧ goal.FailsAt c (d.errorHere err) d := by
  induction h with
  | start h =>
    rintro c rest hc rfl
    rw [List.nil_append] at hc
    rw [← hc, ← c.kind_eq_firstKind] at h
    exact ⟨c, hc, (Cursor.readOperand_failsAt_of_refusal h).2 ⟨rfl, rfl⟩⟩
  | sign s _ ih =>
    intro c rest hc hk
    obtain ⟨hsign, -, -, hps⟩ := Cursor.of_pieces_eq_cons hc
    obtain ⟨d, hd, hf⟩ := ih hps hk
    exact ⟨d, hd, (Cursor.readOperand_failsAt_sub hsign).2 hf⟩
  | group s _ ih =>
    intro c rest hc hk
    obtain ⟨hopen, -, -, hps⟩ := Cursor.of_pieces_eq_cons hc
    obtain ⟨d, hd, hf⟩ := ih hps hk
    exact ⟨d, hd, (Cursor.readOperand_failsAt_leftParen hopen).2 (.inl hf)⟩
  | closing s hf hclose hop =>
    rintro c rest hc rfl
    obtain ⟨hopen, rfl, -, hps⟩ := Cursor.of_pieces_eq_cons hc
    obtain ⟨d, hg, rfl⟩ := (reads_of_forms hf hps).gives_sum fun _ => stopsBelow_of_firstKind hop
    rw [← d.kind_eq_firstKind] at hclose ⊢
    exact ⟨d, rfl, (Cursor.readOperand_failsAt_leftParen hopen).2 (.inr ⟨_, hg, hclose, rfl⟩)⟩
  | opening name s hopen =>
    rintro c rest hc rfl
    rw [List.singleton_append] at hc
    obtain ⟨hfun, -, -, hps⟩ := Cursor.of_pieces_eq_cons hc
    rw [← hps, ← c.advance.kind_eq_firstKind] at hopen ⊢
    refine ⟨c.advance, rfl, (Cursor.readOperand_failsAt_function hfun).2 ?_⟩
    exact (Cursor.readCall_failsAt_of_ne hopen).2 ⟨rfl, rfl⟩
  | call name s s' _ hclose ih =>
    rintro c rest hc rfl
    rw [List.cons_append, List.cons_append] at hc
    obtain ⟨hfun, -, -, hps⟩ := Cursor.of_pieces_eq_cons hc
    obtain ⟨hopen, -, -, hps'⟩ := Cursor.of_pieces_eq_cons hps
    obtain ⟨d, hd, hf⟩ := ih hps' rfl
    rw [← Token.firstKind_append, ← hps', ← Cursor.kind_eq_firstKind] at hclose
    refine ⟨d, hd, (Cursor.readOperand_failsAt_function hfun).2 ((Cursor.readCall_failsAt hopen).2 (.inl ?_))⟩
    exact Cursor.readArguments_failsAt.2 ⟨hclose, hf⟩
  | closingCall name s s' hf hclose hcomma hop =>
    rintro c rest hc rfl
    rw [List.cons_append, List.cons_append] at hc
    obtain ⟨hfun, -, -, hps⟩ := Cursor.of_pieces_eq_cons hc
    obtain ⟨hopen, rfl, -, hps'⟩ := Cursor.of_pieces_eq_cons hps
    obtain ⟨d, hne, hg, rfl⟩ := reads_of_formsAll hf hps' (fun _ => stopsBelow_of_firstKind hop) (by
      rintro s more rfl
      exact hcomma rfl)
    rw [← d.kind_eq_firstKind] at hclose ⊢
    refine ⟨d, rfl, (Cursor.readOperand_failsAt_function hfun).2 ((Cursor.readCall_failsAt hopen).2 (.inr ?_))⟩
    exact ⟨_, (Cursor.readArguments_gives_list hne).2 hg, hclose, rfl⟩
  | argument _ ih =>
    intro c rest hc hk
    obtain ⟨d, hd, hf⟩ := ih hc hk
    exact ⟨d, hd, Cursor.readArgumentList_failsAt.2 (.inl hf)⟩
  | more s hf _ ih =>
    intro c rest hc hk
    rw [List.append_assoc] at hc
    obtain ⟨m, hg, hm⟩ := (reads_of_forms hf hc).gives_sum fun _ => stopsBelow_of_ne (by simp)
    obtain ⟨hcomma, -, -, hps⟩ := Cursor.of_pieces_eq_cons hm
    obtain ⟨d, hd, hmore⟩ := ih hps hk
    exact ⟨d, hd, Cursor.readArgumentList_failsAt.2 (.inr ⟨_, m, hg, hcomma, hmore⟩)⟩
  | first _ ih =>
    intro c rest hc hk
    obtain ⟨d, hd, hf⟩ := ih hc hk
    exact ⟨d, hd, Cursor.readExpr_failsAt.2 (.inl hf)⟩
  | @right n op _ _ l _ err s hn hf _ ih =>
    intro c rest hc hk
    rw [List.append_assoc] at hc
    obtain ⟨m, hagree, hm⟩ :=
      (reads_of_forms hf hc).goOn (Nat.le_trans hn op.precedence_le_leftLevel) (stopsBelow_leftLevel op)
    obtain ⟨hop, -, -, hps⟩ := Cursor.of_pieces_eq_cons hm
    obtain ⟨d, hd, hright⟩ := ih hps hk
    have hloop : (m.readOperators n l).FailsAt (d.errorHere err) d :=
      (Cursor.readOperators_failsAt_of_le hop hn).2 (.inl hright)
    exact ⟨d, hd, hagree.1.trans hloop.1, hagree.2.trans hloop.2⟩

theorem Breaks.fails {c : Cursor} {ps rest : List Piece} {k : Token.Kind} {err : ParseError.Kind} (h : Breaks ps k err)
    (hc : c.pieces = ps ++ rest) (hk : firstKind rest .eof = k) :
    ∃ d, d.pieces = rest ∧ c.readComplete.FailsAt (d.errorHere err) d := by
  cases h with
  | stuck hs =>
    obtain ⟨d, hd, hf⟩ := hs.fails hc hk
    exact ⟨d, hd, Cursor.readComplete_failsAt.2 (.inl hf)⟩
  | trailing hf hend hop =>
    subst hk
    obtain ⟨d, hg, rfl⟩ := (reads_of_forms hf hc).gives_sum fun _ => stopsBelow_of_firstKind hop
    rw [← d.kind_eq_firstKind] at hend ⊢
    exact ⟨d, rfl, Cursor.readComplete_failsAt.2 (.inr ⟨_, hg, hend, rfl⟩)⟩

/-! ## The tokens before an error -/

mutual

/-- No token that ends the input has a place in an expression. -/
theorem Derives.ne_eof : ∀ {level : Level} {ks : List Token.Kind} {t : Tree}, Derives level ks t → ∀ k ∈ ks, k ≠ .eof
  | _, _, _, .product h | _, _, _, .power h | _, _, _, .primary h => h.ne_eof
  | _, _, _, .sumChain _ hl hr | _, _, _, .productChain _ hl hr | _, _, _, .powerChain hl hr =>
    List.forall_mem_append.2 ⟨hl.ne_eof, List.forall_mem_cons.2 ⟨nofun, hr.ne_eof⟩⟩
  | _, _, _, .integer v | _, _, _, .decimal v | _, _, _, .constant name v | _, _, _, .bareCall name => by simp
  | _, _, _, .group h =>
    List.forall_mem_cons.2 ⟨nofun, List.forall_mem_append.2 ⟨h.ne_eof, List.forall_mem_singleton.2 nofun⟩⟩
  | _, _, _, .negate h => List.forall_mem_cons.2 ⟨nofun, h.ne_eof⟩
  | _, _, _, .call name h =>
    List.forall_mem_cons.2 ⟨nofun, List.forall_mem_cons.2
      ⟨nofun, List.forall_mem_append.2 ⟨h.ne_eof, List.forall_mem_singleton.2 nofun⟩⟩⟩

theorem DerivesAll.ne_eof : ∀ {ks : List Token.Kind} {ts : List Tree}, DerivesAll ks ts → ∀ k ∈ ks, k ≠ .eof
  | _, _, .one h => h.ne_eof
  | _, _, .more h hs => List.forall_mem_append.2 ⟨h.ne_eof, List.forall_mem_cons.2 ⟨nofun, hs.ne_eof⟩⟩

end

/-- The token that ends the input behind the last of some tokens. -/
def Token.ending (tokens : List Token) : Token := { Cursor.ofTokens tokens with ahead := [] }.current

/-- The error is about the first of the tokens `behind`, or about the end if there are none, and it could not come
earlier. -/
structure Earliest (tokens passed behind : List Token) (error : ParseError) : Prop where
  split : tokens = passed ++ behind
  live : ∀ t ∈ passed, t.kind ≠ .eof
  span : error.span = (behind.headD (.ending tokens)).span
  location : error.location = (behind.headD (.ending tokens)).location
  found : error.kind.found = (behind.headD (.ending tokens)).kind
  viable : ∃ more e, Expr.ofTokens (passed ++ more) = .ok e
  dead : ∀ t rest, behind = t :: rest → ∀ more e, Expr.ofTokens (passed ++ t :: more) ≠ .ok e
  incomplete : (behind.headD (.ending tokens)).kind = .eof → ∀ e, Expr.ofTokens passed ≠ .ok e
  unclosed : ∀ s found, error.kind = .unclosed s found → (opened [] (passed.map Token.piece)).head? = some s
  trailing : ∀ found, error.kind = .trailingInput found → ∃ e, Expr.ofTokens passed = .ok e

namespace Token

variable {passed : List Token}

/-- Tokens whose kinds begin a derivation can be completed. -/
theorem exists_ofTokens_append (hp : ∀ t ∈ passed, t.kind ≠ .eof) {more : List Kind} {t : Tree}
    (h : Derives .sum (passed.map kind ++ more) t) : ∃ us e, Expr.ofTokens (passed ++ us) = .ok e := by
  have hmore : content (more.map ofKind) = more := by
    have hlive : ∀ t ∈ more.map ofKind, t.kind ≠ .eof := by
      intro t ht
      obtain ⟨k, hk, rfl⟩ := List.mem_map.1 ht
      exact h.ne_eof k (List.mem_append_right _ hk)
    rw [← map_kind_pieces, pieces_eq_map hlive, List.map_map, List.map_map]
    exact List.map_id more
  have hcontent : content (passed ++ more.map ofKind) = passed.map kind ++ more := by
    rw [← map_kind_pieces, pieces_append hp, List.map_append, map_kind_pieces, hmore, List.map_map]
    rfl
  obtain ⟨e, he, -⟩ := ofTokens_of_derives (hcontent ▸ h)
  exact ⟨_, e, he⟩

theorem firstKind_pieces (t : Token) (ts : List Token) : firstKind (pieces (t :: ts)) .eof = t.kind := by
  cases h : t.kind <;> simp [pieces, piece, firstKind, h, Kind.isEof]

/-- Tokens that break off are not read, whatever follows. -/
theorem ofTokens_ne_ok_of_breaks (hp : ∀ t ∈ passed, t.kind ≠ .eof) {k : Kind} {err : ParseError.Kind}
    (h : Breaks (passed.map piece) k err) {us : List Token} (hus : firstKind (pieces us) .eof = k) (e : Expr) :
    Expr.ofTokens (passed ++ us) ≠ .ok e := by
  intro ho
  have hc : (Cursor.ofTokens (passed ++ us)).pieces = passed.map piece ++ pieces us := by
    rw [Cursor.pieces_ofTokens, pieces_append hp]
  obtain ⟨d, -, hfails⟩ := h.fails hc hus
  cases hfails.1.symm.trans ho

end Token

/-- The tokens that have been passed lie before the current one, which is the first behind them or the end. -/
theorem exists_split_of_passes {tokens : List Token} {ps : List Piece} {d : Cursor}
    (h : (Cursor.ofTokens tokens).Passes ps d) : ∃ passed, tokens = passed ++ d.ahead ∧ passed.map Token.piece = ps ∧
      (∀ t ∈ passed, t.kind ≠ .eof) ∧ d.ahead.headD (.ending tokens) = d.current := by
  obtain ⟨passed, hc, hps, hlive⟩ := h.exists_passed
  have htokens := Cursor.ahead_ofTokens tokens
  refine ⟨passed, ?_, hps, hlive, ?_⟩
  · rw [← htokens, hc]
  · rw [Token.ending, hc]
    obtain ⟨ahead, endOffset, endLocation⟩ := d
    cases ahead <;> rfl

variable {tokens : List Token} {error : ParseError}

theorem firstKind_pieces_eq (behind tokens : List Token) :
    firstKind (Token.pieces behind) .eof = (behind.headD (.ending tokens)).kind := by
  cases behind with
  | nil => rfl
  | cons t ts => exact Token.firstKind_pieces t ts

/-- The parser fails just where the tokens before a token and its kind say so, and then at that token. -/
theorem ofTokens_eq_error_iff : Expr.ofTokens tokens = .error error ↔
    ∃ passed behind k, tokens = passed ++ behind ∧ (∀ t ∈ passed, t.kind ≠ .eof) ∧
      Breaks (passed.map Token.piece) (behind.headD (.ending tokens)).kind k ∧
      error = ⟨k, (behind.headD (.ending tokens)).span, (behind.headD (.ending tokens)).location⟩ := by
  constructor
  · intro h
    obtain ⟨ps, k, hc, hb, rfl⟩ := Cursor.breaks_of_failsAt (c := Cursor.ofTokens tokens) ⟨h, rfl⟩
    obtain ⟨passed, hsplit, rfl, hlive, hhere⟩ := exists_split_of_passes hc
    refine ⟨passed, _, k, hsplit, hlive, ?_, ?_⟩
    · rw [hhere]
      exact hb
    · rw [hhere]
      rfl
  · rintro ⟨passed, behind, k, hsplit, hlive, hb, rfl⟩
    have hpieces : (Cursor.ofTokens tokens).pieces = passed.map Token.piece ++ Token.pieces behind := by
      rw [Cursor.pieces_ofTokens, hsplit, Token.pieces_append hlive]
    obtain ⟨d, hd, hfails⟩ := hb.fails hpieces (firstKind_pieces_eq behind tokens)
    -- the cursor stands behind the tokens that have been passed, wherever these came from
    obtain ⟨ps, hc⟩ := (Cursor.ofTokens tokens).passes_readComplete
    rw [hfails.2] at hc
    have hps := hc.pieces_eq
    rw [hpieces, hd] at hps
    obtain ⟨passed', hsplit', hps', -, hhere⟩ := exists_split_of_passes hc
    have hlength : passed.length = passed'.length := by
      have hmap := congrArg List.length ((List.append_cancel_right hps).trans hps'.symm)
      rwa [List.length_map, List.length_map] at hmap
    obtain ⟨rfl, rfl⟩ := List.append_inj (hsplit.symm.trans hsplit') hlength
    rw [hhere]
    exact hfails.1

theorem Earliest.of_stuck {d : Cursor} (h : StuckFrom (.expr 0) (Cursor.ofTokens tokens) d error) :
    ∃ passed, Earliest tokens passed d.ahead error := by
  obtain ⟨ps, k, hc, hs, rfl⟩ := h
  obtain ⟨passed, hsplit, rfl, hlive, hhere⟩ := exists_split_of_passes hc
  refine ⟨passed, hsplit, hlive, by rw [hhere]; rfl, by rw [hhere]; rfl, by rw [hhere]; exact hs.found, ?_, ?_, ?_, ?_, ?_⟩
  · obtain ⟨more, t, ht⟩ := hs.viable
    rw [List.map_map] at ht
    exact Token.exists_ofTokens_append hlive ht
  · intro t rest hbehind more e
    refine Token.ofTokens_ne_ok_of_breaks hlive (.stuck hs) ?_ e
    rw [Token.firstKind_pieces, Cursor.kind, ← hhere, hbehind]
    rfl
  · intro hend e
    rw [← List.append_nil passed]
    refine Token.ofTokens_ne_ok_of_breaks hlive (.stuck hs) ?_ e
    rw [Cursor.kind, ← hhere, hend]
    rfl
  · exact fun s found he => hs.innermost he []
  · exact fun found he => absurd he hs.ne_trailingInput

theorem Earliest.of_forms {d : Cursor} {e : Expr} (h : FormsFrom .sum (Cursor.ofTokens tokens) d e)
    (hs : StopsBelow 0 d.pieces) (hend : d.kind ≠ .eof) (he : d.errorHere (.trailingInput d.kind) = error) :
    ∃ passed, Earliest tokens passed d.ahead error := by
  obtain ⟨ps, hc, hf⟩ := h
  subst he
  obtain ⟨passed, hsplit, rfl, hlive, hhere⟩ := exists_split_of_passes hc
  have hpassed : Expr.ofTokens passed = .ok e := by
    refine ofTokens_of_forms ?_
    rw [Token.pieces_eq_map hlive]
    exact hf
  have hop := Cursor.kind_ne_operator hs
  refine ⟨passed, hsplit, hlive, by rw [hhere]; rfl, by rw [hhere]; rfl, by rw [hhere]; rfl, ?_, ?_, ?_, nofun, ?_⟩
  · exact ⟨[], e, by rwa [List.append_nil]⟩
  · intro t rest hbehind more e'
    refine Token.ofTokens_ne_ok_of_breaks hlive (.trailing hf hend hop) ?_ e'
    rw [Token.firstKind_pieces, Cursor.kind, ← hhere, hbehind]
    rfl
  · intro hk
    rw [hhere] at hk
    exact absurd hk hend
  · exact fun _ _ => ⟨e, hpassed⟩

/-- An error of the parser comes at the first token that cannot follow the tokens before it. What is read before it
can be completed, an unclosed parenthesis is the innermost one that is open there, and trailing input follows
something complete. -/
theorem earliest_of_error (h : Expr.ofTokens tokens = .error error) :
    ∃ passed behind, Earliest tokens passed behind error := by
  rcases Cursor.readComplete_failsAt.1 (⟨h, rfl⟩ : (Cursor.ofTokens tokens).readComplete.FailsAt error _) with
    h | ⟨e, hg, hend, he⟩
  · obtain ⟨passed, hearliest⟩ := Earliest.of_stuck (stuckFrom_of_fails.1 _ _ _ _ h)
    exact ⟨passed, _, hearliest⟩
  · obtain ⟨hf, hs⟩ := forms_of_reads.1 _ _ _ _ hg
    obtain ⟨passed, hearliest⟩ := Earliest.of_forms hf hs hend he
    exact ⟨passed, _, hearliest⟩

/-- A comma inside of parentheses that are no call's. -/
theorem earliest_of_error_comma : ∃ tokens error passed behind, Token.lex .standard "sin((1, 2)" = .ok tokens ∧
    Expr.ofTokens tokens = .error error ∧ error.span = ⟨6, 7⟩ ∧ Earliest tokens passed behind error := by
  have hspan : ((Token.lex .standard "sin((1, 2)").toOption.map fun tokens => match Expr.ofTokens tokens with
      | .ok _ => none
      | .error error => some error.span) = some (some ⟨6, 7⟩) := by decide +kernel
  cases hl : Token.lex .standard "sin((1, 2)" with
  | error err =>
    rw [hl] at hspan
    cases hspan
  | ok tokens =>
    rw [hl] at hspan
    cases he : Expr.ofTokens tokens with
    | ok e => simp [Except.toOption, he] at hspan
    | error error =>
      obtain ⟨passed, behind, hearliest⟩ := earliest_of_error he
      exact ⟨tokens, error, passed, behind, rfl, he, by simpa [Except.toOption, he] using hspan, hearliest⟩

end Reckon
