import Mathlib.Logic.Function.Iterate
import Reckon.Proofs.Expr.Errors
import Reckon.Proofs.Token.Splitting
/-!
# Reading on where a reading has stopped

A cursor is left where a reading of a complete expression has stopped, whether it has failed or not, and another
reading may begin there. Between the two nothing but tokens has been passed, none of which ends the input; so the
cursor stands as if it were a new one on the tokens that are left, and the next reading does not know of those before
it.
-/

namespace Reckon

open Token (Piece)

namespace Cursor

variable {c d : Cursor}

/-- Only the last of the tokens says where the input ends. -/
theorem ofTokens_append (front : List Token) {tokens : List Token} (hne : tokens ≠ []) :
    ofTokens (front ++ tokens) = { ofTokens tokens with ahead := front ++ tokens } := by
  unfold ofTokens
  rw [List.getLast?_append, List.getLast?_eq_some_getLast hne]
  rfl

/-- A cursor that has passed tokens stands as a new one on what is left would. -/
theorem Passes.eq_ofTokens {tokens : List Token} {ps : List Piece} (h : (ofTokens tokens).Passes ps d)
    (hne : d.ahead ≠ []) : d = ofTokens d.ahead := by
  obtain ⟨passed, hcursor, -, -⟩ := h.exists_passed
  have hsplit : tokens = passed ++ d.ahead := by
    rw [← ahead_ofTokens tokens, hcursor]
  rw [hsplit, ofTokens_append passed hne, mk.injEq] at hcursor
  calc d
    _ = ⟨d.ahead, d.endOffset, d.endLocation⟩ := rfl
    _ = ⟨(ofTokens d.ahead).ahead, (ofTokens d.ahead).endOffset, (ofTokens d.ahead).endLocation⟩ := by
      rw [ahead_ofTokens, hcursor.2.1, hcursor.2.2]
    _ = ofTokens d.ahead := rfl

/-! ## Many readings -/

/-- At the end of the input there is nothing to read. -/
theorem readComplete_of_end (h : c.kind = .eof) : c.readComplete.FailsAt (c.errorHere .unexpectedEof) c := by
  have hrefuse : c.kind.refusal? = some .unexpectedEof := by rw [h]; rfl
  exact readComplete_failsAt.2 (.inl (readExpr_failsAt.2 (.inl ((readOperand_failsAt_of_refusal hrefuse).2 ⟨rfl, rfl⟩))))

/-- Where the cursor gets to by `n` readings of complete expressions, each of which begins where the one before has
stopped. -/
def resumed (c : Cursor) (n : Nat) : Cursor := (fun d => d.readComplete.cursor)^[n] c

theorem resumed_succ (c : Cursor) (n : Nat) : c.resumed (n + 1) = (c.resumed n).readComplete.cursor :=
  Function.iterate_succ_apply' _ n c

theorem passes_resumed (c : Cursor) (n : Nat) : ∃ ps, c.Passes ps (c.resumed n) := by
  induction n with
  | zero => exact ⟨[], .refl c⟩
  | succ n ih =>
    obtain ⟨ps, hc⟩ := ih
    obtain ⟨ps', hc'⟩ := (c.resumed n).passes_readComplete
    rw [← resumed_succ] at hc'
    exact ⟨ps ++ ps', hc.trans hc'⟩

/-- A reading that has not moved is repeated forever. -/
theorem resumed_of_still {k j : Nat} (h : c.resumed (k + 1) = c.resumed k) (hj : k ≤ j) : c.resumed j = c.resumed k := by
  obtain ⟨n, rfl⟩ := Nat.exists_eq_add_of_le' hj
  rw [resumed_succ] at h
  rw [resumed, Function.iterate_add_apply]
  exact Function.iterate_fixed h n

end Cursor

/-! ## Places in the tokens -/

/-- The token `ending` is the first of the tokens that ends the input, and `live` are those before it. -/
structure EndsAt (tokens live : List Token) (ending : Token) : Prop where
  split : ∃ rest, tokens = live ++ ending :: rest
  live : ∀ t ∈ live, t.kind ≠ .eof
  ending : ending.kind = .eof

theorem exists_endsAt {tokens : List Token} (h : ∃ t ∈ tokens, t.kind = .eof) :
    ∃ live ending, EndsAt tokens live ending := by
  obtain ⟨t, ht, hk⟩ := h
  have hsome : (tokens.find? fun t => t.kind.isEof).isSome = true :=
    List.find?_isSome.2 ⟨t, ht, Token.Kind.isEof_iff.2 hk⟩
  obtain ⟨ending, hfind⟩ := Option.isSome_iff_exists.1 hsome
  obtain ⟨hend, live, rest, hsplit, hlive⟩ := List.find?_eq_some_iff_append.1 hfind
  refine ⟨live, ending, ⟨rest, hsplit⟩, fun t ht he => ?_, Token.Kind.isEof_iff.1 hend⟩
  have hnot := hlive t ht
  rw [Token.Kind.isEof_iff.2 he] at hnot
  cases hnot

/-- The cursor stands on the token number `n`, as a new one on the tokens from there on would, and not behind the end.
-/
structure Cursor.StandsAt (d : Cursor) (tokens live : List Token) (n : Nat) : Prop where
  token : tokens[n]? = some d.current
  anew : d = ofTokens (tokens.drop n)
  within : n ≤ live.length

theorem Cursor.StandsAt.remaining_eq {d : Cursor} {tokens live : List Token} {n : Nat} (h : d.StandsAt tokens live n) :
    tokens.length - d.remaining = n := by
  obtain ⟨hn, -⟩ := List.getElem?_eq_some_iff.1 h.token
  have hremaining : d.remaining = tokens.length - n := by
    rw [h.anew, remaining, ahead_ofTokens, List.length_drop]
  omega

namespace EndsAt

variable {tokens live : List Token} {ending : Token} {ps : List Piece} {d : Cursor}

/-- Tokens in front that do not end the input are live. -/
theorem length_le {passed behind : List Token} (h : EndsAt tokens live ending) (hsplit : tokens = passed ++ behind)
    (hpassed : ∀ t ∈ passed, t.kind ≠ .eof) : passed.length ≤ live.length := by
  obtain ⟨rest, htokens⟩ := h.split
  rw [hsplit] at htokens
  rcases List.append_eq_append_iff.1 htokens with ⟨more, rfl, -⟩ | ⟨more, rfl, hbehind⟩
  · simp
  · cases more with
    | nil => simp
    | cons t more =>
      obtain ⟨rfl, -⟩ := List.cons.inj hbehind
      exact absurd h.ending (hpassed ending (by simp))

/-- A cursor that passes tokens does not get behind the end. -/
theorem exists_standsAt (h : EndsAt tokens live ending) (hc : (Cursor.ofTokens tokens).Passes ps d) :
    ∃ n, d.StandsAt tokens live n := by
  obtain ⟨passed, hsplit, -, hpassed, -⟩ := exists_split_of_passes hc
  have hwithin := h.length_le hsplit hpassed
  obtain ⟨t, ts, hahead⟩ : ∃ t ts, d.ahead = t :: ts := by
    refine List.exists_cons_of_ne_nil fun hnil => ?_
    obtain ⟨rest, htokens⟩ := h.split
    have hlength := congrArg List.length (hsplit.symm.trans htokens)
    rw [hnil, List.append_nil, List.length_append, List.length_cons] at hlength
    omega
  refine ⟨passed.length, ?_, ?_, hwithin⟩
  · rw [hsplit, hahead, Cursor.current, hahead]
    simp
  · rw [hsplit, List.drop_left]
    exact hc.eq_ofTokens (by simp [hahead])

/-- Where the input ends the cursor has left all live tokens behind. -/
theorem of_kind {n : Nat} (h : EndsAt tokens live ending) (hd : d.StandsAt tokens live n) (hk : d.kind = .eof) :
    n = live.length ∧ d.current = ending := by
  obtain ⟨rest, rfl⟩ := h.split
  have htoken := hd.token
  rcases Nat.lt_or_eq_of_le hd.within with hlt | rfl
  · rw [List.getElem?_append_left hlt] at htoken
    exact absurd hk (h.live _ (List.mem_of_getElem? htoken))
  · rw [List.getElem?_append_right (Nat.le_refl _), Nat.sub_self, List.getElem?_cons_zero] at htoken
    exact ⟨rfl, (Option.some.inj htoken).symm⟩

end EndsAt

/-! ## Sessions -/

/-- The number of tokens that `k` readings of complete expressions leave behind. -/
def Token.place (tokens : List Token) (k : Nat) : Nat :=
  tokens.length - ((Cursor.ofTokens tokens).resumed k).remaining

/-- What comes of a reading of a complete expression behind `k` others. -/
def Token.outcome (tokens : List Token) (k : Nat) : Except ParseError Expr :=
  ((Cursor.ofTokens tokens).resumed k).readComplete.outcome

open Token (place outcome)

/-- What is true of a reading behind `k` others: it begins at the place where the last of them has stopped. -/
structure Resumption (tokens live : List Token) (ending : Token) (k : Nat) : Prop where
  stands : (Cursor.ofTokens tokens).resumed k = Cursor.ofTokens (tokens.drop (place tokens k))
  /-- It does not know of the readings before it. -/
  afresh : outcome tokens k = Expr.ofTokens (tokens.drop (place tokens k))
  onward : place tokens k ≤ place tokens (k + 1)
  within : place tokens k ≤ live.length
  /-- Behind an expression there is nothing but the end. -/
  ok : ∀ e, outcome tokens k = .ok e → place tokens (k + 1) = live.length ∧
    ∀ j, k < j → outcome tokens j = .error ⟨.unexpectedEof, ending.span, ending.location⟩
  /-- An error is about the token at which the reading has stopped. -/
  error : ∀ err, outcome tokens k = .error err → ∃ t, tokens[place tokens (k + 1)]? = some t ∧
    err.span = t.span ∧ err.location = t.location ∧ err.kind.found = t.kind
  still : ∀ err, outcome tokens k = .error err → place tokens (k + 1) = place tokens k →
    ∀ j, k ≤ j → outcome tokens j = .error err

variable {tokens live : List Token} {ending : Token}

theorem EndsAt.standsAt_place (h : EndsAt tokens live ending) (k : Nat) :
    ((Cursor.ofTokens tokens).resumed k).StandsAt tokens live (place tokens k) := by
  obtain ⟨ps, hc⟩ := (Cursor.ofTokens tokens).passes_resumed k
  obtain ⟨n, hn⟩ := h.exists_standsAt hc
  rwa [← hn.remaining_eq] at hn

theorem EndsAt.resumption (h : EndsAt tokens live ending) (k : Nat) : Resumption tokens live ending k where
  stands := (h.standsAt_place k).anew
  afresh := by
    rw [outcome, (h.standsAt_place k).anew]
    rfl
  onward := by
    rw [place, place, Cursor.resumed_succ]
    exact Nat.sub_le_sub_left (Cursor.readComplete _).remaining_le _
  within := (h.standsAt_place k).within
  ok e he := by
    have hkind := Cursor.kind_of_readComplete_ok he
    rw [← Cursor.resumed_succ] at hkind
    obtain ⟨hplace, hcurrent⟩ := h.of_kind (h.standsAt_place (k + 1)) hkind
    obtain ⟨houtcome, hstill⟩ := Cursor.readComplete_of_end hkind
    rw [← Cursor.resumed_succ] at hstill
    refine ⟨hplace, fun j hj => ?_⟩
    rw [outcome, Cursor.resumed_of_still hstill hj, houtcome, Cursor.errorHere, hcurrent]
  error err he := by
    obtain ⟨kind, rfl, hfound⟩ := Cursor.errorHere_of_readComplete he
    rw [← Cursor.resumed_succ] at hfound ⊢
    exact ⟨_, (h.standsAt_place (k + 1)).token, rfl, rfl, hfound⟩
  still err he hplace j hj := by
    have hstill : (Cursor.ofTokens tokens).resumed (k + 1) = (Cursor.ofTokens tokens).resumed k := by
      rw [(h.standsAt_place (k + 1)).anew, (h.standsAt_place k).anew, hplace]
    rw [outcome, Cursor.resumed_of_still hstill hj]
    exact he

theorem Token.place_zero (tokens : List Token) : place tokens 0 = 0 := by
  show tokens.length - (Cursor.ofTokens tokens).ahead.length = 0
  rw [Cursor.ahead_ofTokens, Nat.sub_self]

/-- Complete expressions may be read from tokens again and again, and every reading begins anew where the one before
has stopped. It stops at the end when it succeeds and at the token of its error when it fails, and a reading that
passes nothing is repeated by all that follow. -/
theorem resumption_of_tokens (h : ∃ t ∈ tokens, t.kind = .eof) :
    ∃ live ending, EndsAt tokens live ending ∧ place tokens 0 = 0 ∧ ∀ k, Resumption tokens live ending k := by
  obtain ⟨live, ending, hends⟩ := exists_endsAt h
  exact ⟨live, ending, hends, Token.place_zero tokens, hends.resumption⟩

/-- The first reading stops at the second number, the next one reads from there on, and then there is only the end. -/
theorem resumption_of_tokens_juxtaposed : ∃ tokens live ending, Token.lex .standard "1 2 + 3" = .ok tokens ∧
    (∃ t ∈ tokens, t.kind = .eof) ∧ EndsAt tokens live ending ∧ (∀ k, Resumption tokens live ending k) ∧
    place tokens 1 = 1 ∧ place tokens 2 = 4 ∧
    ∀ j, 1 < j → outcome tokens j = .error ⟨.unexpectedEof, ending.span, ending.location⟩ := by
  have hplaces : ((Token.lex .standard "1 2 + 3").toOption.map fun tokens =>
      (place tokens 1, place tokens 2, (outcome tokens 1).toBool)) = some (1, 4, true) := by decide +kernel
  cases hl : Token.lex .standard "1 2 + 3" with
  | error err =>
    rw [hl] at hplaces
    cases hplaces
  | ok tokens =>
    rw [hl] at hplaces
    injection hplaces with hplaces
    injection hplaces with hfirst hplaces
    injection hplaces with hsecond hread
    obtain ⟨init, last, rfl, hlast, -⟩ := Token.exists_init_of_lex hl
    have hend : ∃ t ∈ init ++ [last], t.kind = .eof := ⟨last, by simp, hlast⟩
    obtain ⟨live, ending, hends, -, hall⟩ := resumption_of_tokens hend
    refine ⟨_, live, ending, rfl, hend, hends, hall, hfirst, hsecond, ?_⟩
    cases he : outcome (init ++ [last]) 1 with
    | error err =>
      rw [he] at hread
      cases hread
    | ok e => exact ((hall 1).ok e he).2

end Reckon
