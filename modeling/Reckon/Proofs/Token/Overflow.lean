import Reckon.Proofs.Source.Overflow
import Reckon.Proofs.Token.Offsets
/-!
# Lexing sources of any size

A source may be so long that a line or a column does not fit into 32 bits. `lexIn?` is the lexer by offsets in either
build: it gives nothing when a counter panics, and wrong locations when one wraps. Locations are all that suffers. The
kinds of the tokens are those that the lexer with unlimited counters finds (`lexIn?_of_lex`, `lex_of_lexIn?`), and the
one way to get no tokens from a source that has some is a panic of a checked counter, which takes 2 ^ 30 bytes
(`RunsOver`).
-/

namespace Reckon

/-! ## Locations -/

/-- The location behind the character as the counters hold it, unless one of them panics. -/
def Location.advanceIn? (o : Overflow) (l : Location) (afterReturn : Bool) (c : Char) : Option Location :=
  let next := l.advance afterReturn c
  (o.hold? next.line).bind fun line => (o.hold? next.column).map fun column => ⟨line, column, next.offset⟩

namespace Location

variable {l next : Location} {afterReturn : Bool} {c : Char}

theorem advanceIn?_panics (l : Location) (afterReturn : Bool) (c : Char) :
    l.advanceIn? .panics afterReturn c = l.advance? afterReturn c := by
  simp only [advanceIn?, advance?, Overflow.hold?_panics]
  by_cases hline : (l.advance afterReturn c).line ≤ Span.maxOffset
  · by_cases hcolumn : (l.advance afterReturn c).column ≤ Span.maxOffset
    · simp only [hline, hcolumn, and_self, if_true, Option.bind_some, Option.map_some]
    · simp only [hline, hcolumn, and_false, if_true, if_false, Option.bind_some, Option.map_none]
  · simp only [hline, false_and, if_false, Option.bind_none]

theorem exists_advanceIn?_wraps (l : Location) (afterReturn : Bool) (c : Char) :
    ∃ next, l.advanceIn? .wraps afterReturn c = some next :=
  ⟨_, by rw [advanceIn?, Overflow.hold?_wraps, Option.bind_some, Overflow.hold?_wraps, Option.map_some]⟩

/-- What the checks let pass is the same without them. -/
theorem advanceIn?_of_panics (h : l.advanceIn? .panics afterReturn c = some next) (o : Overflow) :
    l.advanceIn? o afterReturn c = some next := by
  rw [advanceIn?_panics, advance?, Option.ite_none_right_eq_some] at h
  obtain ⟨⟨hline, hcolumn⟩, hnext⟩ := h
  rw [advanceIn?, o.hold?_of_le hline, Option.bind_some, o.hold?_of_le hcolumn, Option.map_some, ← hnext]

end Location

namespace Watch

/-- Walks over a text. -/
def passIn? (o : Overflow) : List Char → Location → Bool → Option (Location × Bool)
  | [], location, afterReturn => some (location, afterReturn)
  | c :: cs, location, afterReturn =>
    (location.advanceIn? o afterReturn c).bind fun next => passIn? o cs next (c = '\r')

/-- Walks on to a byte offset, or to the end if that comes first. -/
def locateIn? (o : Overflow) (w : Watch) (offset : Nat) : Option Watch :=
  let stop := min offset (byteLength w.source)
  if w.location.offset < stop then
    (slice? w.source w.location.offset stop).bind fun text =>
      (passIn? o text w.location w.afterReturn).map fun reached =>
        ⟨w.source, { reached.1 with offset := min stop Span.maxOffset }, reached.2⟩
  else some w

theorem passIn?_panics (text : List Char) (l : Location) (afterReturn : Bool) :
    passIn? .panics text l afterReturn = pass? text l afterReturn := by
  induction text generalizing l afterReturn with
  | nil => rfl
  | cons c cs ih =>
    rw [passIn?, pass?, Location.advanceIn?_panics]
    exact congrArg _ (funext fun next => ih next _)

theorem locateIn?_panics (w : Watch) (offset : Nat) : w.locateIn? .panics offset = w.locate? offset := by
  unfold locateIn? locate?
  simp only [passIn?_panics]

theorem passIn?_of_panics {text : List Char} {l : Location} {afterReturn : Bool} {reached : Location × Bool}
    (h : passIn? .panics text l afterReturn = some reached) (o : Overflow) :
    passIn? o text l afterReturn = some reached := by
  induction text generalizing l afterReturn with
  | nil => exact h
  | cons c cs ih =>
    obtain ⟨next, hnext, hrest⟩ := Option.bind_eq_some_iff.1 h
    rw [passIn?, Location.advanceIn?_of_panics hnext, Option.bind_some]
    exact ih hrest

theorem locateIn?_of_panics {w w' : Watch} {offset : Nat} (h : w.locateIn? .panics offset = some w') (o : Overflow) :
    w.locateIn? o offset = some w' := by
  unfold locateIn? at h ⊢
  dsimp only at h ⊢
  split at h
  · next hlt =>
    obtain ⟨text, htext, hpass⟩ := Option.bind_eq_some_iff.1 h
    obtain ⟨reached, hreached, rfl⟩ := Option.map_eq_some_iff.1 hpass
    rw [if_pos hlt, htext, Option.bind_some, passIn?_of_panics hreached, Option.map_some]
  · next hle => rw [if_neg hle, h]

theorem exists_passIn?_wraps (text : List Char) (l : Location) (afterReturn : Bool) :
    ∃ reached, passIn? .wraps text l afterReturn = some reached := by
  induction text generalizing l afterReturn with
  | nil => exact ⟨_, rfl⟩
  | cons c cs ih =>
    obtain ⟨next, hnext⟩ := l.exists_advanceIn?_wraps afterReturn c
    rw [passIn?, hnext]
    exact ih next _

end Watch

/-! ## Sources of single bytes -/

/-- Every character takes one byte. -/
def Bytewise (cs : List Char) : Prop := ∀ c ∈ cs, c.utf8Size = 1

namespace Bytewise

variable {cs : List Char}

theorem byteLength_eq (h : Bytewise cs) : byteLength cs = cs.length := by
  induction cs with
  | nil => rfl
  | cons c cs ih =>
    obtain ⟨hc, hcs⟩ := List.forall_mem_cons.1 h
    rw [byteLength, hc, ih hcs, List.length_cons, Nat.add_comm]

/-- No offset up to the end is inside a character. -/
theorem exists_slice? (h : Bytewise cs) {start stop : Nat} (hstart : start ≤ stop) (hstop : stop ≤ byteLength cs) :
    ∃ text, slice? cs start stop = some text := by
  rw [h.byteLength_eq] at hstop
  have hsplit : cs.take start ++ ((cs.drop start).take (stop - start) ++ (cs.drop start).drop (stop - start)) = cs := by
    rw [List.take_append_drop, List.take_append_drop]
  have hfront : Bytewise (cs.take start) := fun c hc => h c (List.mem_of_mem_take hc)
  have htext : Bytewise ((cs.drop start).take (stop - start)) := fun c hc =>
    h c (List.mem_of_mem_drop (List.mem_of_mem_take hc))
  have hslice := slice?_append (cs.take start) ((cs.drop start).take (stop - start)) ((cs.drop start).drop (stop - start))
  rw [hsplit, hfront.byteLength_eq, htext.byteLength_eq, List.length_take, List.length_take, List.length_drop,
    Nat.min_eq_left (by omega), Nat.min_eq_left (by omega), Nat.add_sub_cancel' hstart] at hslice
  exact ⟨_, hslice⟩

/-- A walk along it goes on to any offset when its counters wrap. -/
theorem exists_locateIn?_wraps {w : Watch} (h : Bytewise w.source) (offset : Nat) :
    ∃ w', w.locateIn? .wraps offset = some w' ∧ w'.source = w.source := by
  unfold Watch.locateIn?
  dsimp only
  split
  · next hlt =>
    obtain ⟨text, htext⟩ := h.exists_slice? (Nat.le_of_lt hlt) (Nat.min_le_right _ _)
    obtain ⟨reached, hreached⟩ := Watch.exists_passIn?_wraps text w.location w.afterReturn
    rw [htext, Option.bind_some, hreached]
    exact ⟨_, rfl, rfl⟩
  · exact ⟨w, rfl, rfl⟩

end Bytewise

theorem utf8Size_of_isAlphanum {c : Char} (h : c.isAlphanum = true) : c.utf8Size = 1 := by
  rw [Char.utf8Size_eq_one_iff]
  rcases Bool.or_eq_true_iff.1 h with halpha | hdigit
  · rcases Bool.or_eq_true_iff.1 halpha with hupper | hlower
    · have hle : c.val ≤ 'Z'.val := (of_decide_eq_true hupper).2
      exact UInt32.le_trans hle (by decide)
    · have hle : c.val ≤ 'z'.val := of_decide_eq_true (Bool.and_eq_true_iff.1 hlower).2
      exact UInt32.le_trans hle (by decide)
  · have hle : c.val ≤ '9'.val := of_decide_eq_true (Bool.and_eq_true_iff.1 hdigit).2
    exact UInt32.le_trans hle (by decide)

theorem Shape.utf8Size_of_alphabet {s : Shape} {c : Char} (h : s.alphabet c = true) : c.utf8Size = 1 := by
  have hdigit (hc : c.isDigit = true) : c.utf8Size = 1 := utf8Size_of_isAlphanum (by simp [Char.isAlphanum, hc])
  cases s with
  | name => exact utf8Size_of_isAlphanum h
  | integer => exact hdigit h
  | decimal =>
    simp only [alphabet, Bool.or_eq_true, beq_iff_eq] at h
    rcases h with h | rfl
    · exact hdigit h
    · rfl
  | leftParen | rightParen | comma =>
    cases eq_of_beq h
    rfl
  | operator op =>
    cases op with
    | pow =>
      simp only [alphabet, Bool.or_eq_true, beq_iff_eq] at h
      rcases h with rfl | rfl <;> rfl
    | _ =>
      cases eq_of_beq h
      rfl

theorem Shape.utf8Size_of_isBlank {c : Char} (h : isBlank c = true) : c.utf8Size = 1 := by
  simp only [isBlank, Bool.or_eq_true, beq_iff_eq] at h
  rcases h with ((rfl | rfl) | rfl) | rfl <;> rfl

namespace Token

variable {o : Overflow} {r : Registry} {source : String} {w : Watch} {here here' : Nat} {cs text after : List Char}
  {pieces : List Piece}

/-- A source that splits into lexemes is made of single bytes. -/
theorem Splits.bytewise (h : Splits r here cs pieces) : Bytewise cs := by
  induction h with
  | done => exact List.forall_mem_nil _
  | blank hb _ ih => exact List.forall_mem_cons.2 ⟨Shape.utf8Size_of_isBlank hb, ih⟩
  | lexeme hm _ _ ih =>
    exact List.forall_mem_append.2 ⟨fun c hc => Shape.utf8Size_of_alphabet (hm.isMatch.alphabet c hc), ih⟩

/-! ## The lexer -/

/-- The tokens of the rest of a source, where the lexer is ahead of the walk and texts and locations are found by
offsets. -/
def lexFromIn? (o : Overflow) (r : Registry) (w : Watch) (here : Nat) : List Char → Option (Except LexError (List Token))
  | [] => (w.locateIn? o here).map fun w => .ok [atEnd w.location]
  | c :: rest =>
    if Shape.isBlank c then lexFromIn? o r w (here + c.utf8Size) rest
    else
      (w.locateIn? o here).bind fun w =>
        match Shape.longest? c rest with
        | none =>
          (dropBytes? here w.source).map fun ahead =>
            let c := ahead.headD '\x00'
            .error ⟨.unrecognizedCharacter c, .ofRange here (here + c.utf8Size), w.location⟩
        | some (shape, more) =>
          let stop := here + byteLength (c :: more)
          match r.kindOf (c :: more) shape with
          | .error kind => some (.error ⟨kind, .ofRange here stop, w.location⟩)
          | .ok kind =>
            (lexFromIn? o r w stop (rest.drop more.length)).map fun
              | .error e => .error e
              | .ok tokens => .ok (⟨kind, .ofRange here stop, w.location⟩ :: tokens)
  termination_by source => source.length

/-- The tokens of a source, found by offsets in either build. There are none, nor an error, when something panics. -/
def lexIn? (o : Overflow) (r : Registry) (source : String) : Option (Except LexError (List Token)) :=
  lexFromIn? o r (.ofSource source.toList) 0 source.toList

section
variable {c : Char} {rest more : List Char} {shape : Shape} (hb : ¬Shape.isBlank c = true)

theorem lexFromIn?_blank (hb : Shape.isBlank c = true) :
    lexFromIn? o r w here (c :: cs) = lexFromIn? o r w (here + c.utf8Size) cs := by
  rw [lexFromIn?, if_pos hb]

include hb

theorem lexFromIn?_unrecognized (hl : Shape.longest? c rest = none) : lexFromIn? o r w here (c :: rest) =
    (w.locateIn? o here).bind fun w => (dropBytes? here w.source).map fun ahead =>
      let c := ahead.headD '\x00'
      .error ⟨.unrecognizedCharacter c, .ofRange here (here + c.utf8Size), w.location⟩ := by
  rw [lexFromIn?, if_neg hb]
  simp only [hl]

variable (hl : Shape.longest? c rest = some (shape, more))
include hl

theorem lexFromIn?_unknown {kind : LexError.Kind} (hk : r.kindOf (c :: more) shape = .error kind) :
    lexFromIn? o r w here (c :: rest) = (w.locateIn? o here).bind fun w =>
      some (.error ⟨kind, .ofRange here (here + byteLength (c :: more)), w.location⟩) := by
  rw [lexFromIn?, if_neg hb]
  simp only [hl, hk]

theorem lexFromIn?_lexeme {kind : Kind} (hk : r.kindOf (c :: more) shape = .ok kind) :
    lexFromIn? o r w here (c :: rest) = (w.locateIn? o here).bind fun w =>
      (lexFromIn? o r w (here + byteLength (c :: more)) (rest.drop more.length)).map
        (Except.map (⟨kind, .ofRange here (here + byteLength (c :: more)), w.location⟩ :: ·)) := by
  rw [lexFromIn?, if_neg hb]
  simp only [hl, hk]
  refine congrArg _ (funext fun w => congrArg (Option.map · _) (funext fun result => ?_))
  cases result <;> rfl

end

/-- With the checks it is the lexer that gives nothing when something goes wrong. -/
theorem lexFromIn?_panics (r : Registry) (here' : Nat) (cs : List Char) :
    ∀ w here, lexFromIn? .panics r w here cs = lexFrom? r w here cs := by
  -- The offset of the scan plays no part; its recursion is that of both lexers.
  induction here', cs using scan.induct r with
  | case1 here' =>
    intro w here
    rw [lexFromIn?, lexFrom?, Watch.locateIn?_panics]
  | case2 here' c rest hb ih =>
    intro w here
    rw [lexFromIn?_blank hb, lexFrom?, if_pos hb, ih]
  | case3 here' c rest hb hl =>
    intro w here
    rw [lexFromIn?_unrecognized hb hl, lexFrom?, if_neg hb, Watch.locateIn?_panics]
    simp only [hl]
  | case4 here' c rest hb shape more hl kind hk =>
    intro w here
    rw [lexFromIn?_unknown hb hl hk, lexFrom?, if_neg hb, Watch.locateIn?_panics]
    simp only [hl, hk]
  | case5 here' c rest hb shape more hl kind hk e he ih
  | case6 here' c rest hb shape more hl kind hk pieces he ih =>
    intro w here
    rw [lexFromIn?_lexeme hb hl hk, lexFrom?, if_neg hb, Watch.locateIn?_panics]
    simp only [hl, hk, ih]
    refine congrArg _ (funext fun w => congrArg (Option.map · _) (funext fun result => ?_))
    cases result <;> rfl

/-- Where the checks let everything pass, the other build lexes the same. -/
theorem lexFromIn?_of_panics (o : Overflow) (r : Registry) (here' : Nat) (cs : List Char) :
    ∀ w here result, lexFromIn? .panics r w here cs = some result → lexFromIn? o r w here cs = some result := by
  induction here', cs using scan.induct r with
  | case1 here' =>
    intro w here result h
    rw [lexFromIn?] at h ⊢
    obtain ⟨w', hw, rfl⟩ := Option.map_eq_some_iff.1 h
    rw [Watch.locateIn?_of_panics hw, Option.map_some]
  | case2 here' c rest hb ih =>
    intro w here result h
    rw [lexFromIn?_blank hb] at h ⊢
    exact ih _ _ _ h
  | case3 here' c rest hb hl =>
    intro w here result h
    rw [lexFromIn?_unrecognized hb hl] at h ⊢
    obtain ⟨w', hw, h⟩ := Option.bind_eq_some_iff.1 h
    rw [Watch.locateIn?_of_panics hw, Option.bind_some, h]
  | case4 here' c rest hb shape more hl kind hk =>
    intro w here result h
    rw [lexFromIn?_unknown hb hl hk] at h ⊢
    obtain ⟨w', hw, h⟩ := Option.bind_eq_some_iff.1 h
    rw [Watch.locateIn?_of_panics hw, Option.bind_some, h]
  | case5 here' c rest hb shape more hl kind hk e he ih
  | case6 here' c rest hb shape more hl kind hk pieces he ih =>
    intro w here result h
    rw [lexFromIn?_lexeme hb hl hk] at h ⊢
    obtain ⟨w', hw, h⟩ := Option.bind_eq_some_iff.1 h
    obtain ⟨behind, hbehind, rfl⟩ := Option.map_eq_some_iff.1 h
    rw [Watch.locateIn?_of_panics hw, Option.bind_some, ih _ _ _ hbehind, Option.map_some]

/-! ## Kinds of tokens -/

/-- The kinds of the tokens, all that a wrong location leaves as it is. -/
def kindsOf (result : Except LexError (List Token)) : Option (List Kind) := result.toOption.map (·.map kind)

theorem kindsOf_map_cons (t : Token) (result : Except LexError (List Token)) :
    kindsOf (result.map (t :: ·)) = (kindsOf result).map (t.kind :: ·) := by
  cases result <;> rfl

/-- What is lexed in either build, if anything, has the kinds of the pieces. -/
theorem kindsOf_of_lexFromIn? (o : Overflow) (r : Registry) (here' : Nat) (cs : List Char) :
    ∀ w here result, lexFromIn? o r w here cs = some result →
      kindsOf result = (scan r here' cs).toOption.map (·.map Piece.kind) := by
  induction here', cs using scan.induct r with
  | case1 here' =>
    intro w here result h
    rw [lexFromIn?] at h
    obtain ⟨w', -, rfl⟩ := Option.map_eq_some_iff.1 h
    rw [scan]
    rfl
  | case2 here' c rest hb ih =>
    intro w here result h
    rw [lexFromIn?_blank hb] at h
    rw [scan_blank hb]
    exact ih _ _ _ h
  | case3 here' c rest hb hl =>
    intro w here result h
    rw [lexFromIn?_unrecognized hb hl] at h
    obtain ⟨w', -, h⟩ := Option.bind_eq_some_iff.1 h
    obtain ⟨ahead, -, rfl⟩ := Option.map_eq_some_iff.1 h
    rw [scan, if_neg hb]
    simp only [hl]
    rfl
  | case4 here' c rest hb shape more hl kind hk =>
    intro w here result h
    rw [lexFromIn?_unknown hb hl hk] at h
    obtain ⟨w', -, h⟩ := Option.bind_eq_some_iff.1 h
    cases h
    rw [scan, if_neg hb]
    simp only [hl, hk]
    rfl
  | case5 here' c rest hb shape more hl kind hk e he ih
  | case6 here' c rest hb shape more hl kind hk pieces he ih =>
    intro w here result h
    rw [lexFromIn?_lexeme hb hl hk] at h
    obtain ⟨w', -, h⟩ := Option.bind_eq_some_iff.1 h
    obtain ⟨behind, hbehind, rfl⟩ := Option.map_eq_some_iff.1 h
    rw [kindsOf_map_cons, ih _ _ _ hbehind, scan, if_neg hb]
    simp only [hl, hk, he]
    rfl

/-- Counters that wrap stop no lexer. -/
theorem Splits.exists_lexFromIn?_wraps (h : Splits r here' cs pieces) (hw : Bytewise w.source) (here : Nat) :
    ∃ result, lexFromIn? .wraps r w here cs = some result := by
  induction h generalizing w here with
  | done =>
    obtain ⟨w', hlocate, -⟩ := hw.exists_locateIn?_wraps here
    rw [lexFromIn?, hlocate]
    exact ⟨_, rfl⟩
  | blank hb _ ih =>
    rw [lexFromIn?_blank hb]
    exact ih hw _
  | @lexeme here' shape text after kind pieces hm hk _ ih =>
    obtain ⟨w', hlocate, hsource⟩ := hw.exists_locateIn?_wraps here
    obtain ⟨c, more, rfl⟩ := List.exists_cons_of_ne_nil hm.isMatch.ne_nil
    have hb : ¬Shape.isBlank c = true := by simp [hm.isMatch.not_isBlank List.mem_cons_self]
    have hl := Shape.longest?_eq_some_iff.2 ⟨after, rfl, hm⟩
    obtain ⟨behind, hbehind⟩ := ih (hsource ▸ hw) (here + byteLength (c :: more))
    rw [List.cons_append, lexFromIn?_lexeme hb hl hk, hlocate, Option.bind_some, List.drop_left, hbehind]
    exact ⟨_, rfl⟩

/-! ## Either build -/

theorem lexIn?_panics (r : Registry) (source : String) : lexIn? .panics r source = lex? r source :=
  lexFromIn?_panics r 0 _ _ _

/-- On a source of less than 2 ^ 30 bytes neither build goes wrong. -/
theorem lexIn?_eq (o : Overflow) (r : Registry) (hsize : source.utf8ByteSize < 2 ^ 30) :
    lexIn? o r source = some (lex r source) :=
  lexFromIn?_of_panics o r 0 _ _ _ _ ((lexIn?_panics r source).trans (lex?_eq r hsize))

/-- A checked counter panics in the lexer, in a source that is long enough for that. Nothing else is wrong with the
source: it is lexed when the counters wrap. -/
structure RunsOver (o : Overflow) (r : Registry) (source : String) : Prop where
  checked : o = .panics
  panics : lexIn? o r source = none
  wraps : ∃ tokens, lexIn? .wraps r source = some (.ok tokens)
  size : 2 ^ 30 ≤ source.utf8ByteSize

/-- Below 2 ^ 30 bytes nothing runs over. -/
theorem not_runsOver_of_lt (hsize : source.utf8ByteSize < 2 ^ 30) : ¬RunsOver o r source := fun h =>
  Nat.not_lt.2 h.size hsize

theorem not_runsOver_wraps : ¬RunsOver .wraps r source := fun h => absurd h.checked (by decide)

variable {tokens : List Token}

theorem kindsOf_of_lexIn? {result : Except LexError (List Token)} (h : lexIn? o r source = some result) :
    kindsOf result = kindsOf (lex r source) := by
  rw [kindsOf_of_lexFromIn? o r 0 source.toList _ _ _ h, ← forget_lex]
  cases lex r source with
  | error e => rfl
  | ok tokens => simp [kindsOf, forget, Except.toOption, piece]

theorem kindsOf_eq_some_iff {result : Except LexError (List Token)} {ks : List Kind} :
    kindsOf result = some ks ↔ ∃ tokens, result = .ok tokens ∧ tokens.map kind = ks := by
  cases result with
  | error e => simp [kindsOf, Except.toOption]
  | ok tokens => simp [kindsOf, Except.toOption]

/-- A source that is lexed in either build is lexed to tokens of these kinds. -/
theorem lex_of_lexIn? (h : lexIn? o r source = some (.ok tokens)) :
    ∃ tokens', lex r source = .ok tokens' ∧ tokens'.map kind = tokens.map kind :=
  kindsOf_eq_some_iff.1 ((kindsOf_of_lexIn? h).symm.trans (kindsOf_eq_some_iff.2 ⟨tokens, rfl, rfl⟩))

/-- A source that is lexed has tokens of these kinds in either build, unless a checked counter runs over. -/
theorem lexIn?_of_lex (o : Overflow) (h : lex r source = .ok tokens) :
    (∃ tokens', lexIn? o r source = some (.ok tokens') ∧ tokens'.map kind = tokens.map kind) ∨ RunsOver o r source := by
  have hsplits : Splits r 0 source.toList (tokens.map piece) := lex_eq_ok_iff.1 ⟨tokens, h, rfl⟩
  have hkinds {o : Overflow} {result : Except LexError (List Token)} (hr : lexIn? o r source = some result) :
      ∃ tokens', result = .ok tokens' ∧ tokens'.map kind = tokens.map kind :=
    kindsOf_eq_some_iff.1 ((kindsOf_of_lexIn? hr).trans (kindsOf_eq_some_iff.2 ⟨tokens, h, rfl⟩))
  obtain ⟨result, hwraps⟩ := hsplits.exists_lexFromIn?_wraps (w := .ofSource source.toList) hsplits.bytewise 0
  obtain ⟨tokens', rfl, -⟩ := hkinds hwraps
  cases hl : lexIn? o r source with
  | some result =>
    obtain ⟨tokens'', rfl, hk⟩ := hkinds hl
    exact .inl ⟨tokens'', rfl, hk⟩
  | none =>
    refine .inr ⟨?_, hl, ⟨tokens', hwraps⟩, Nat.le_of_not_lt fun hsize => ?_⟩
    · cases o with
      | panics => rfl
      | wraps => cases hwraps.symm.trans hl
    · cases (lexIn?_eq o r hsize).symm.trans hl

/-! ## Counters that do run over -/

/-- A tab takes four columns, so a checked counter panics in a row of them when the columns do not fit. -/
theorem passIn?_tabs {n : Nat} {l : Location} (afterReturn : Bool) (hline : l.line ≤ Span.maxOffset)
    (hcolumn : l.column ≤ Span.maxOffset) (h : Span.maxOffset < l.column + 4 * n) :
    Watch.passIn? .panics (List.replicate n '\t') l afterReturn = none := by
  induction n generalizing l afterReturn with
  | zero => omega
  | succ n ih =>
    have hadvance : l.advance afterReturn '\t' = ⟨l.line, l.column + 4, l.offset + '\t'.utf8Size⟩ := rfl
    rw [List.replicate_succ, Watch.passIn?, Location.advanceIn?_panics, Location.advance?, hadvance]
    by_cases hfits : l.column + 4 ≤ Span.maxOffset
    · rw [if_pos ⟨hline, hfits⟩, Option.bind_some]
      exact ih _ hline hfits (by dsimp only; omega)
    · rw [if_neg fun hand => hfits hand.2]
      rfl

theorem splits_tabs (r : Registry) (here n : Nat) :
    Splits r here (List.replicate n '\t') [⟨.eof, .point (here + n)⟩] := by
  induction n generalizing here with
  | zero => exact .done here
  | succ n ih =>
    have hnext := ih (here + 1)
    rw [Nat.add_assoc, Nat.add_comm 1] at hnext
    exact .blank rfl hnext

theorem lexFromIn?_tabs (o : Overflow) (r : Registry) (w : Watch) (here n : Nat) :
    lexFromIn? o r w here (List.replicate n '\t') = (w.locateIn? o (here + n)).map fun w => .ok [atEnd w.location] := by
  induction n generalizing here with
  | zero => rw [List.replicate_zero, lexFromIn?, Nat.add_zero]
  | succ n ih =>
    have hsize : '\t'.utf8Size = 1 := rfl
    rw [List.replicate_succ, lexFromIn?_blank rfl, hsize, ih, Nat.add_assoc, Nat.add_comm 1]

/-- A source of 2 ^ 30 tabs or more has no tokens but the end, and the column of the end does not fit. -/
theorem runsOver_tabs (r : Registry) {n : Nat} (h : 2 ^ 30 ≤ n) :
    RunsOver .panics r (String.ofList (List.replicate n '\t')) := by
  have hlist : (String.ofList (List.replicate n '\t')).toList = List.replicate n '\t' := String.toList_ofList
  have hbytes : Bytewise (List.replicate n '\t') := (splits_tabs r 0 n).bytewise
  have hlength : byteLength (List.replicate n '\t') = n := by rw [hbytes.byteLength_eq, List.length_replicate]
  obtain ⟨tokens, hlex, -⟩ := lex_eq_ok_iff.2 (hlist.symm ▸ splits_tabs r 0 n)
  refine (lexIn?_of_lex .panics hlex).resolve_left ?_
  rintro ⟨tokens', hpanics, -⟩
  have hslice : slice? (List.replicate n '\t') 0 n = some (List.replicate n '\t') := by
    have hwhole := slice?_append [] (List.replicate n '\t') []
    rwa [List.append_nil, byteLength, List.nil_append, Nat.zero_add, hlength] at hwhole
  have hpass : Watch.passIn? .panics (List.replicate n '\t') .first false = none := by
    refine passIn?_tabs false (by decide) (by decide) ?_
    unfold Span.maxOffset Location.first
    omega
  have hlocate : (Watch.ofSource (List.replicate n '\t')).locateIn? .panics (0 + n) = none := by
    unfold Watch.locateIn? Watch.ofSource
    simp only [hlength, Nat.zero_add, Nat.min_self]
    rw [if_pos (show Location.first.offset < n from Nat.lt_of_lt_of_le (by decide) h)]
    rw [show slice? _ Location.first.offset n = _ from hslice, Option.bind_some, hpass]
    rfl
  rw [lexIn?, hlist, lexFromIn?_tabs, hlocate] at hpanics
  cases hpanics

end Token

end Reckon
