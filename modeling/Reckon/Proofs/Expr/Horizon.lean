import Reckon.Proofs.Expr.Errors
/-!
# Nothing is seen behind the end

However a cursor is called, the tokens that it hands over are those in front of the end, each of them once and in
their order, and behind the last of them it stands on the token that ends the input and stays there. What a reading
gives depends on these tokens only: it is the same whatever follows the end, and whether a token marks the end or the
cursor finds it behind the last one.
-/

namespace Reckon

/-! ## Live tokens and their end -/

namespace Token

/-- Whether the token ends the input. -/
def ends (t : Token) : Bool := t.kind.isEof

/-- The tokens in front of the first that ends the input. -/
def live (tokens : List Token) : List Token := tokens.takeWhile fun t => !t.ends

/-- The first token that ends the input. If there is none, it lies where the last token stops, or at the start of the
source. -/
def horizon (tokens : List Token) : Token :=
  (tokens.find? ends).getD
    ⟨.eof, .point ((tokens.getLast?.map fun t => t.span.stop).getD 0), (tokens.getLast?.map location).getD .first⟩

variable {tokens passed behind : List Token} {t : Token}

theorem ends_iff : t.ends = true ↔ t.kind = .eof := Kind.isEof_iff

theorem ends_eq_false (h : t.kind ≠ .eof) : t.ends = false := by
  rw [← Bool.not_eq_true, ends_iff]
  exact h

theorem ending_eq (tokens : List Token) : ending tokens =
    ⟨.eof, .point ((tokens.getLast?.map fun t => t.span.stop).getD 0), (tokens.getLast?.map location).getD .first⟩ := by
  unfold ending Cursor.ofTokens
  cases tokens.getLast? <;> rfl

theorem live_cons_of_end (h : t.kind = .eof) (behind : List Token) : live (t :: behind) = [] :=
  List.takeWhile_cons_of_neg (by rw [ends_iff.2 h]; decide)

theorem live_append (h : ∀ t ∈ passed, t.kind ≠ .eof) (behind : List Token) :
    live (passed ++ behind) = passed ++ live behind :=
  List.takeWhile_append_of_pos fun t ht => by rw [ends_eq_false (h t ht), Bool.not_false]

theorem ne_eof_of_mem_live (h : t ∈ live tokens) : t.kind ≠ .eof := by
  have hlive := List.all_eq_true.1 List.all_takeWhile t h
  intro he
  rw [ends_iff.2 he] at hlive
  cases hlive

theorem map_piece_live (tokens : List Token) : (live tokens).map piece = pieces tokens := by
  unfold live pieces
  rw [List.takeWhile_map]
  rfl

theorem find?_ends_append (h : ∀ t ∈ passed, t.kind ≠ .eof) (behind : List Token) :
    (passed ++ behind).find? ends = behind.find? ends := by
  have hnone : passed.find? ends = none := List.find?_eq_none.2 fun t ht he => h t ht (ends_iff.1 he)
  rw [List.find?_append, hnone, Option.none_or]

/-- Behind live tokens comes the next of them, or the end. -/
theorem headD_behind (h : ∀ t ∈ passed, t.kind ≠ .eof) (hsplit : tokens = passed ++ behind) :
    behind.headD (ending tokens) = (live behind).headD (horizon tokens) := by
  have hfind := find?_ends_append h behind
  rw [← hsplit] at hfind
  cases behind with
  | nil =>
    rw [horizon, hfind, ← ending_eq]
    rfl
  | cons t behind =>
    by_cases he : t.kind = .eof
    · rw [live_cons_of_end he, horizon, hfind, List.find?_cons_of_pos (ends_iff.2 he)]
      rfl
    · rw [← List.singleton_append, live_append (List.forall_mem_singleton.2 he)]
      rfl

theorem kind_horizon (tokens : List Token) : (horizon tokens).kind = .eof := by
  unfold horizon
  cases hfind : tokens.find? ends with
  | none => rfl
  | some t => exact ends_iff.1 (List.find?_some hfind)

/-- Other tokens behind the end change neither the live tokens nor the end. -/
theorem live_and_horizon (tokens rest : List Token) : live (live tokens ++ horizon tokens :: rest) = live tokens ∧
    horizon (live tokens ++ horizon tokens :: rest) = horizon tokens := by
  have hlive : ∀ t ∈ live tokens, t.kind ≠ .eof := fun _ => ne_eof_of_mem_live
  have hend := kind_horizon tokens
  constructor
  · rw [live_append hlive, live_cons_of_end hend, List.append_nil]
  · rw [horizon, find?_ends_append hlive, List.find?_cons_of_pos (ends_iff.2 hend)]
    rfl

end Token

open Token (live horizon)

variable {tokens tokens' : List Token}

/-! ## Reading -/

/-- What is read is decided by the live tokens and the end of the input. -/
theorem ofTokens_congr (hlive : live tokens = live tokens') (hhorizon : horizon tokens = horizon tokens') :
    Expr.ofTokens tokens = Expr.ofTokens tokens' := by
  cases h : Expr.ofTokens tokens with
  | ok e =>
    have hforms := forms_of_ofTokens h
    rw [← Token.map_piece_live, hlive, Token.map_piece_live] at hforms
    exact (ofTokens_of_forms hforms).symm
  | error error =>
    obtain ⟨passed, behind, k, hsplit, hpassed, hbreaks, rfl⟩ := ofTokens_eq_error_iff.1 h
    -- the other tokens begin with the same ones, and the same token or end comes behind them
    obtain ⟨behind', hsplit'⟩ : ∃ behind', tokens' = passed ++ behind' := by
      have hprefix : passed <+: tokens' := by
        refine List.IsPrefix.trans ?_ (List.takeWhile_prefix fun t => !t.ends)
        rw [← live, ← hlive, hsplit, Token.live_append hpassed]
        exact List.prefix_append ..
      exact hprefix.imp fun _ => Eq.symm
    have hbehind : live behind = live behind' := by
      rw [hsplit, hsplit', Token.live_append hpassed, Token.live_append hpassed] at hlive
      exact List.append_cancel_left hlive
    have hhead : behind.headD (.ending tokens) = behind'.headD (.ending tokens') := by
      rw [Token.headD_behind hpassed hsplit, Token.headD_behind hpassed hsplit', hbehind, hhorizon]
    rw [hhead] at hbreaks ⊢
    exact (ofTokens_eq_error_iff.2 ⟨passed, behind', k, hsplit', hpassed, hbreaks, rfl⟩).symm

/-! ## Calls -/

namespace Cursor

/-- What a cursor is asked to do. -/
inductive Call where
  | advance
  | eat (kind : Token.Kind)
  | check (kind : Token.Kind)
  | isAtEnd
  | kind

/-- What it answers. -/
inductive Answer where
  | token (t : Token)
  | eaten (found : Option Token)
  | truth (b : Bool)
  | kind (k : Token.Kind)

/-- The token that is handed over, unless it ends the input. -/
def Answer.passed? : Answer → Option Token
  | token t => if t.ends then none else some t
  | eaten found => found.filter fun t => !t.ends
  | truth _ => none
  | kind _ => none

/-- The answer to a call. -/
def answer (c : Cursor) : Call → Answer
  | .advance => .token c.current
  | .eat k => .eaten ((c.eat? k).map Prod.fst)
  | .check k => .truth (c.check k)
  | .isAtEnd => .truth c.isAtEnd
  | .kind => .kind c.kind

/-- The cursor after a call. -/
def after (c : Cursor) : Call → Cursor
  | .advance => c.advance
  | .eat k => ((c.eat? k).map Prod.snd).getD c
  | .check _ => c
  | .isAtEnd => c
  | .kind => c

/-- The cursor after some calls. -/
def afterAll (c : Cursor) (calls : List Call) : Cursor := calls.foldl after c

/-- The tokens that some calls hand over. -/
def passed (c : Cursor) : List Call → List Token
  | [] => []
  | call :: calls => (c.answer call).passed?.toList ++ (c.after call).passed calls

variable {c : Cursor} {calls : List Call} {call : Call}

theorem advance_of_end (h : c.kind = .eof) : c.advance = c := by
  unfold kind current at h
  unfold advance
  split
  · rfl
  · next t ts hahead =>
    rw [hahead] at h
    exact if_pos (Token.ends_iff.2 h)

theorem eq_of_advance (h : c.kind ≠ .eof) : c = { c.advance with ahead := c.current :: c.advance.ahead } := by
  obtain ⟨ahead, endOffset, endLocation⟩ := c
  cases ahead with
  | nil => exact absurd rfl h
  | cons t ts =>
    have hne : t.kind.isEof = false := Token.ends_eq_false h
    simp only [advance, current, hne, Bool.false_eq_true, if_false]

/-- A call leaves the cursor where it is, or hands over the current token and moves on to the next one. -/
theorem after_cases (c : Cursor) (call : Call) : ((c.answer call).passed? = none ∧ c.after call = c) ∨
    (c.kind ≠ .eof ∧ (c.answer call).passed? = some c.current ∧ c.after call = c.advance) := by
  have hadvance : (c.current.ends = true ∧ c.advance = c) ∨ (c.kind ≠ .eof ∧ c.current.ends = false) := by
    by_cases h : c.kind = .eof
    · exact .inl ⟨Token.ends_iff.2 h, advance_of_end h⟩
    · exact .inr ⟨h, Token.ends_eq_false h⟩
  cases call with
  | advance =>
    rcases hadvance with ⟨hend, hstill⟩ | ⟨hne, hend⟩
    · exact .inl ⟨if_pos hend, hstill⟩
    · exact .inr ⟨hne, if_neg (by rw [hend]; decide), rfl⟩
  | eat k =>
    by_cases hcheck : c.check k = true
    · have heat : c.eat? k = some (c.current, c.advance) := if_pos hcheck
      rcases hadvance with ⟨hend, hstill⟩ | ⟨hne, hend⟩
      · refine .inl ⟨?_, ?_⟩
        · simp [answer, heat, Answer.passed?, hend]
        · simp [after, heat, hstill]
      · refine .inr ⟨hne, ?_, ?_⟩
        · simp [answer, heat, Answer.passed?, hend]
        · simp [after, heat]
    · have heat : c.eat? k = none := if_neg hcheck
      exact .inl ⟨by rw [answer, heat]; rfl, by rw [after, heat]; rfl⟩
  | check k => exact .inl ⟨rfl, rfl⟩
  | isAtEnd => exact .inl ⟨rfl, rfl⟩
  | kind => exact .inl ⟨rfl, rfl⟩

/-- What calls hand over are tokens that were ahead and are so no more. -/
theorem eq_of_afterAll (calls : List Call) : ∀ c : Cursor,
    c = { c.afterAll calls with ahead := c.passed calls ++ (c.afterAll calls).ahead } ∧
      ∀ t ∈ c.passed calls, t.kind ≠ .eof := by
  induction calls with
  | nil => exact fun c => ⟨rfl, List.forall_mem_nil _⟩
  | cons call calls ih =>
    intro c
    obtain ⟨hc, hpassed⟩ := ih (c.after call)
    rw [afterAll, List.foldl_cons, ← afterAll, passed]
    rcases after_cases c call with ⟨hnone, hstill⟩ | ⟨hne, hsome, hmoved⟩
    · rw [hnone]
      rw [hstill] at hc hpassed ⊢
      exact ⟨hc, hpassed⟩
    · rw [hsome]
      rw [hmoved] at hc hpassed ⊢
      refine ⟨?_, List.forall_mem_cons.2 ⟨hne, hpassed⟩⟩
      have hfirst := eq_of_advance hne
      rw [hc] at hfirst
      exact hfirst

theorem afterAll_of_end (h : c.kind = .eof) (calls : List Call) : c.afterAll calls = c := by
  induction calls with
  | nil => rfl
  | cons call calls ih =>
    rcases after_cases c call with ⟨-, hstill⟩ | ⟨hne, -, -⟩
    · rw [afterAll, List.foldl_cons, hstill]
      exact ih
    · exact absurd h hne

/-- The cursor has handed over the tokens `passed` of those that it began with. -/
structure Walked (c : Cursor) (tokens passed : List Token) : Prop where
  /-- They are the first of the live tokens, each of them once and in their order. -/
  front : passed <+: live tokens
  /-- The current token is the next of the live ones, or the end behind the last of them. -/
  current : c.current = ((live tokens).drop passed.length).headD (horizon tokens)
  /-- A call that hands over no token but an end changes nothing. -/
  still : ∀ call, (c.answer call).passed? = none → c.after call = c
  /-- Behind the last of the live tokens to advance hands over the end, and no calls change anything. -/
  stays : passed = live tokens → c.answer .advance = .token (horizon tokens) ∧ ∀ calls, c.afterAll calls = c

theorem walked_afterAll (tokens : List Token) (calls : List Call) :
    ((ofTokens tokens).afterAll calls).Walked tokens ((ofTokens tokens).passed calls) := by
  obtain ⟨hc, hpassed⟩ := eq_of_afterAll calls (ofTokens tokens)
  generalize (ofTokens tokens).afterAll calls = d at hc ⊢
  generalize (ofTokens tokens).passed calls = passed at hc hpassed ⊢
  have hsplit : tokens = passed ++ d.ahead := by
    rw [← ahead_ofTokens tokens, hc]
  have hlive : live tokens = passed ++ live d.ahead := by
    rw [← Token.live_append hpassed, ← hsplit]
  have hcurrent : d.current = (live d.ahead).headD (horizon tokens) := by
    rw [← Token.headD_behind hpassed hsplit, Token.ending, hc]
    obtain ⟨ahead, endOffset, endLocation⟩ := d
    cases ahead <;> rfl
  refine ⟨⟨_, hlive.symm⟩, ?_, fun call hnone => ?_, fun hall => ?_⟩
  · rw [hlive, List.drop_left, hcurrent]
  · rcases after_cases d call with ⟨-, hstill⟩ | ⟨-, hsome, -⟩
    · exact hstill
    · rw [hnone] at hsome
      cases hsome
  · have hnil : live d.ahead = [] := by
      rw [hall] at hlive
      exact List.self_eq_append_right.1 hlive
    rw [hnil] at hcurrent
    have hend : d.kind = .eof := by
      rw [kind, hcurrent]
      exact Token.kind_horizon tokens
    exact ⟨congrArg Answer.token hcurrent, afterAll_of_end hend⟩

end Cursor

/-- Any calls take a cursor along the live tokens up to their end and no further. A reading sees no more than these:
it gives the same whatever tokens follow the end, and with the end put behind tokens that have none. -/
theorem walked_up_to_horizon (tokens : List Token) (calls : List Cursor.Call) :
    ((Cursor.ofTokens tokens).afterAll calls).Walked tokens ((Cursor.ofTokens tokens).passed calls) ∧
      ∀ rest, Expr.ofTokens (live tokens ++ horizon tokens :: rest) = Expr.ofTokens tokens := by
  refine ⟨Cursor.walked_afterAll tokens calls, fun rest => ?_⟩
  obtain ⟨hlive, hhorizon⟩ := Token.live_and_horizon tokens rest
  exact ofTokens_congr hlive hhorizon

end Reckon
