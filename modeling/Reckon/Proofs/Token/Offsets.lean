import Reckon.Proofs.Token.Splitting
/-!
# Lexing by offsets

The lexer goes along the characters of a source, and its counters have no limit. Seen from below, a source is a run of
bytes, a text is cut out of it by two offsets, and offsets, lines and columns have 32 bits. Then there are things that
can go wrong: offsets behind the end or inside a character, and counters that run over. `lex?` lexes in this way and
gives nothing when something has gone wrong. `lex?_eq` says that nothing does, for every source of less than 2 ^ 30
bytes: the offsets lie between characters since the lexer itself has come past them, and no column grows by more than
four with each byte.
-/

namespace Reckon

/-! ## Cutting by bytes -/

/-- The text behind the first bytes, unless there are too few or a character is cut. -/
def dropBytes? : Nat → List Char → Option (List Char)
  | 0, cs => some cs
  | _ + 1, [] => none
  | n + 1, c :: cs => if c.utf8Size ≤ n + 1 then dropBytes? (n + 1 - c.utf8Size) cs else none

/-- The text of the first bytes, unless there are too few or a character is cut. -/
def takeBytes? : Nat → List Char → Option (List Char)
  | 0, _ => some []
  | _ + 1, [] => none
  | n + 1, c :: cs => if c.utf8Size ≤ n + 1 then (takeBytes? (n + 1 - c.utf8Size) cs).map (c :: ·) else none

/-- The text between two offsets, unless they are in the wrong order, behind the end or inside a character. -/
def slice? (source : List Char) (start stop : Nat) : Option (List Char) :=
  if start ≤ stop then (dropBytes? start source).bind (takeBytes? (stop - start)) else none

theorem dropBytes?_append (before after : List Char) : dropBytes? (byteLength before) (before ++ after) = some after := by
  induction before with
  | nil => simp [byteLength, dropBytes?]
  | cons c cs ih =>
    have hc := c.utf8Size_pos
    obtain ⟨n, hn⟩ : ∃ n, c.utf8Size + byteLength cs = n + 1 := ⟨_, (Nat.succ_pred_eq_of_pos (by omega)).symm⟩
    rw [byteLength, List.cons_append, hn, dropBytes?, if_pos (by omega), ← hn, Nat.add_sub_cancel_left, ih]

theorem takeBytes?_append (text after : List Char) : takeBytes? (byteLength text) (text ++ after) = some text := by
  induction text with
  | nil => simp [byteLength, takeBytes?]
  | cons c cs ih =>
    have hc := c.utf8Size_pos
    obtain ⟨n, hn⟩ : ∃ n, c.utf8Size + byteLength cs = n + 1 := ⟨_, (Nat.succ_pred_eq_of_pos (by omega)).symm⟩
    rw [byteLength, List.cons_append, hn, takeBytes?, if_pos (by omega), ← hn, Nat.add_sub_cancel_left, ih]
    rfl

/-- Offsets between characters cut out what lies between them. -/
theorem slice?_append (before text after : List Char) :
    slice? (before ++ (text ++ after)) (byteLength before) (byteLength before + byteLength text) = some text := by
  rw [slice?, if_pos (Nat.le_add_right _ _), dropBytes?_append, Option.bind_some, Nat.add_sub_cancel_left,
    takeBytes?_append]

/-! ## Counters of 32 bits -/

namespace Location

/-- The location behind the character, unless a counter runs over. -/
def advance? (l : Location) (afterReturn : Bool) (c : Char) : Option Location :=
  let next := l.advance afterReturn c
  if next.line ≤ Span.maxOffset ∧ next.column ≤ Span.maxOffset then some next else none

/-- A line takes a byte at least, and a column a quarter of one. -/
structure Bounded (l : Location) : Prop where
  line : l.line ≤ l.offset + 1
  column : l.column ≤ 4 * l.offset + 1

theorem Bounded.advance {l : Location} (h : l.Bounded) (afterReturn : Bool) (c : Char) :
    (l.advance afterReturn c).Bounded := by
  have hc := c.utf8Size_pos
  obtain ⟨hline, hcolumn⟩ := h
  unfold Location.advance
  split
  · exact ⟨by simp only; omega, by simp only; omega⟩
  · split
    · exact ⟨by simp only; omega, by simp only; omega⟩
    · split
      · exact ⟨by simp only; omega, by simp only [tabWidth]; omega⟩
      · exact ⟨by simp only; omega, by simp only; omega⟩

/-- Before the offset 2 ^ 30 no counter runs over. -/
theorem Bounded.advance? {l : Location} (h : l.Bounded) (afterReturn : Bool) (c : Char)
    (hsize : l.offset + c.utf8Size < 2 ^ 30) : l.advance? afterReturn c = some (l.advance afterReturn c) := by
  have hnext := h.advance afterReturn c
  have hline := hnext.line
  have hcolumn := hnext.column
  rw [Tracker.offset_advance] at hline hcolumn
  unfold Location.advance?
  exact if_pos ⟨by unfold Span.maxOffset; omega, by unfold Span.maxOffset; omega⟩

end Location

/-- A walk along a source that is cut by offsets. -/
structure Watch where
  source : List Char
  location : Location
  afterReturn : Bool

namespace Watch

/-- A walk that has not begun. -/
def ofSource (source : List Char) : Watch := ⟨source, .first, false⟩

/-- Walks over a text. -/
def pass? : List Char → Location → Bool → Option (Location × Bool)
  | [], location, afterReturn => some (location, afterReturn)
  | c :: cs, location, afterReturn => (location.advance? afterReturn c).bind fun next => pass? cs next (c = '\r')

/-- Walks on to a byte offset, or to the end if that comes first. -/
def locate? (w : Watch) (offset : Nat) : Option Watch :=
  let stop := min offset (byteLength w.source)
  if w.location.offset < stop then
    (slice? w.source w.location.offset stop).bind fun text =>
      (pass? text w.location w.afterReturn).map fun reached =>
        ⟨w.source, { reached.1 with offset := min stop Span.maxOffset }, reached.2⟩
  else some w

/-- The walk stands where the tracker stands, and its counters are small. -/
structure Follows (w : Watch) (t : Tracker) : Prop where
  location : w.location = t.location
  afterReturn : w.afterReturn = t.afterReturn
  passed : ∃ passed, w.source = passed ++ t.ahead ∧ byteLength passed = t.location.offset
  bounded : t.location.Bounded

theorem follows_ofSource (source : List Char) : (ofSource source).Follows (.ofSource source) :=
  ⟨rfl, rfl, ⟨[], rfl, rfl⟩, ⟨Nat.le_refl _, Nat.le_refl _⟩⟩

theorem pass?_eq (text rest : List Char) {l : Location} (afterReturn : Bool) (h : l.Bounded) {here : Nat}
    (hhere : l.offset + byteLength text = here) (hsize : here < 2 ^ 30) :
    pass? text l afterReturn = some ((Tracker.walk here (text ++ rest) l afterReturn).location,
      (Tracker.walk here (text ++ rest) l afterReturn).afterReturn) ∧
    (Tracker.walk here (text ++ rest) l afterReturn).location.Bounded := by
  induction text generalizing l afterReturn with
  | nil =>
    rw [byteLength, Nat.add_zero] at hhere
    cases rest with
    | nil => exact ⟨rfl, h⟩
    | cons c rest =>
      rw [List.nil_append, Tracker.walk, if_neg (by omega)]
      exact ⟨rfl, h⟩
  | cons c text ih =>
    have hpos := c.utf8Size_pos
    rw [byteLength] at hhere
    rw [List.cons_append, Tracker.walk, if_pos (by omega), pass?, h.advance? _ _ (by omega), Option.bind_some]
    exact ih _ (h.advance _ _) (by rw [Tracker.offset_advance]; omega)

/-- Between characters of a short source every step of the walk succeeds. -/
theorem Follows.locate? {w : Watch} {t : Tracker} (h : w.Follows t) (hsize : byteLength w.source < 2 ^ 30)
    {gap cs : List Char} {here : Nat} (ht : t.ahead = gap ++ cs) (hhere : t.location.offset + byteLength gap = here) :
    ∃ w', w.locate? here = some w' ∧ w'.source = w.source ∧ w'.Follows (t.locate here) := by
  obtain ⟨source, location, afterReturn⟩ := w
  obtain ⟨ahead, _, _⟩ := t
  obtain ⟨rfl, rfl, ⟨passed, hsource, hpassed⟩, hb⟩ := h
  dsimp only at *
  subst ht hsource
  have hlen : byteLength (passed ++ (gap ++ cs)) = here + byteLength cs := by
    rw [byteLength_append, byteLength_append]
    omega
  obtain ⟨hpass, hb'⟩ := pass?_eq gap cs afterReturn hb hhere (by omega)
  obtain ⟨hahead, hoffset⟩ := @Tracker.walk_append gap cs here location afterReturn hhere
  unfold Tracker.locate Watch.locate?
  dsimp only
  generalize Tracker.walk here (gap ++ cs) location afterReturn = reached at *
  obtain ⟨_, ⟨line, column, offset⟩, afterReturn'⟩ := reached
  subst hahead hoffset
  dsimp only at *
  rw [hlen, Nat.min_eq_left (Nat.le_add_right _ _)]
  refine ⟨⟨_, ⟨line, column, _⟩, afterReturn'⟩, ?_, rfl, rfl, rfl, ⟨passed ++ gap, (List.append_assoc ..).symm, ?_⟩, hb'⟩
  · split
    · rw [← hhere, ← hpassed, slice?_append, Option.bind_some, hpass, Option.map_some, hpassed, hhere]
      have hmin : min offset Span.maxOffset = offset := by
        unfold Span.maxOffset
        omega
      rw [hmin]
    · cases gap with
      | nil =>
        rw [pass?, Option.some.injEq, Prod.mk.injEq] at hpass
        rw [hpass.1, hpass.2]
      | cons c gap =>
        have hc := c.utf8Size_pos
        rw [byteLength] at hhere
        omega
  · rw [byteLength_append, hpassed, hhere]

end Watch

namespace Token

/-- The tokens of the rest of a source, where the lexer is ahead of the walk and texts and locations are found by
offsets. -/
def lexFrom? (r : Registry) (w : Watch) (here : Nat) : List Char → Option (Except LexError (List Token))
  | [] => (w.locate? here).map fun w => .ok [atEnd w.location]
  | c :: rest =>
    if Shape.isBlank c then lexFrom? r w (here + c.utf8Size) rest
    else
      (w.locate? here).bind fun w =>
        match Shape.longest? c rest with
        | none =>
          (dropBytes? here w.source).map fun ahead =>
            let c := ahead.headD '\x00'
            .error ⟨.unrecognizedCharacter c, .ofRange here (here + c.utf8Size), w.location⟩
        | some (shape, more) =>
          let stop := here + byteLength (c :: more)
          match r.kindOf (c :: more) shape with
          | .error kind => some (.error ⟨kind, .ofRange here stop, w.location⟩)
          | .ok kind =>
            (lexFrom? r w stop (rest.drop more.length)).map fun
              | .error e => .error e
              | .ok tokens => .ok (⟨kind, .ofRange here stop, w.location⟩ :: tokens)
  termination_by source => source.length

/-- The tokens of a source, found by offsets. There are none, nor an error, when something has gone wrong. -/
def lex? (r : Registry) (source : String) : Option (Except LexError (List Token)) :=
  lexFrom? r (.ofSource source.toList) 0 source.toList

theorem ofRange_eq {start stop size : Nat} (hsize : size < 2 ^ 30) (hstart : start ≤ stop) (hstop : stop ≤ size) :
    Span.ofRange start stop = ⟨start, stop⟩ := by
  rw [Span.ofRange, Span.maxOffset, Nat.min_eq_left (by omega), Nat.min_eq_left (by omega)]

/-- The lexer stands at `here`, before the rest `cs` of the source that the walk goes along behind it. -/
structure Before (w : Watch) (t : Tracker) (here : Nat) (cs : List Char) : Prop where
  follows : w.Follows t
  gap : ∃ gap, t.ahead = gap ++ cs ∧ t.location.offset + byteLength gap = here
  size : byteLength w.source < 2 ^ 30

namespace Before

variable {w : Watch} {t : Tracker} {here : Nat} {cs : List Char}

theorem exists_front (h : Before w t here cs) : ∃ front, w.source = front ++ cs ∧ byteLength front = here := by
  obtain ⟨passed, hsource, hpassed⟩ := h.follows.passed
  obtain ⟨gap, ht, hhere⟩ := h.gap
  exact ⟨passed ++ gap, by rw [hsource, ht, List.append_assoc], by rw [byteLength_append, hpassed, hhere]⟩

theorem dropBytes?_eq (h : Before w t here cs) : dropBytes? here w.source = some cs := by
  obtain ⟨front, hsource, rfl⟩ := h.exists_front
  rw [hsource]
  exact dropBytes?_append front cs

/-- No text ahead is too far off for a span. -/
theorem ofRange (h : Before w t here cs) {text : List Char} (ht : text <+: cs) :
    Span.ofRange here (here + byteLength text) = ⟨here, here + byteLength text⟩ := by
  obtain ⟨front, hsource, rfl⟩ := h.exists_front
  obtain ⟨after, rfl⟩ := ht
  refine ofRange_eq h.size (Nat.le_add_right _ _) ?_
  rw [hsource, byteLength_append, byteLength_append]
  omega

theorem skip {c : Char} (h : Before w t here (c :: cs)) : Before w t (here + c.utf8Size) cs := by
  obtain ⟨gap, ht, hhere⟩ := h.gap
  refine ⟨h.follows, ⟨gap ++ [c], by rw [ht, List.append_assoc]; rfl, ?_⟩, h.size⟩
  rw [byteLength_append, byteLength, byteLength]
  omega

/-- The walk catches up with the lexer. -/
theorem locate? (h : Before w t here cs) : ∃ w', w.locate? here = some w' ∧ w'.location = (t.locate here).location ∧
    ∀ text after, cs = text ++ after → Before w' (t.locate here) (here + byteLength text) after := by
  obtain ⟨gap, ht, hhere⟩ := h.gap
  obtain ⟨w', hw, hsource, hf⟩ := h.follows.locate? h.size ht hhere
  obtain ⟨hahead, hoffset⟩ := Tracker.locate_of_ahead ht hhere
  refine ⟨w', hw, hf.location, ?_⟩
  rintro text after rfl
  exact ⟨hf, ⟨text, hahead, by rw [hoffset]⟩, hsource ▸ h.size⟩

end Before

theorem lexFrom?_eq (r : Registry) (t : Tracker) (here : Nat) (cs : List Char) :
    ∀ w, Before w t here cs → lexFrom? r w here cs = some (lexFrom r t here cs) := by
  induction t, here, cs using lexFrom.induct r with
  | case1 t here =>
    intro w h
    obtain ⟨w', hw, hl, -⟩ := h.locate?
    rw [lexFrom?, lexFrom, hw, Option.map_some, hl]
  | case2 t here c rest hb ih =>
    intro w h
    rw [lexFrom?, lexFrom, if_pos hb, if_pos hb]
    exact ih w h.skip
  | case3 t here c rest hb hl =>
    intro w h
    obtain ⟨w', hw, hloc, hnext⟩ := h.locate?
    have hdrop := (hnext [] (c :: rest) rfl).dropBytes?_eq
    have hspan := h.ofRange (List.prefix_append [c] rest)
    rw [lexFrom?, lexFrom, if_neg hb, if_neg hb, hw, Option.bind_some]
    simp only [byteLength, Nat.add_zero] at hdrop hspan
    simp only [hl, hdrop, Option.map_some, List.headD_cons, hspan, hloc]
  | case4 t here c rest hb shape more hl kind hk =>
    intro w h
    obtain ⟨w', hw, hloc, -⟩ := h.locate?
    obtain ⟨-, after, rfl, -⟩ := Shape.matches_of_longest? hl
    have hspan := h.ofRange (List.prefix_append (c :: more) after)
    rw [lexFrom?, lexFrom, if_neg hb, if_neg hb, hw, Option.bind_some]
    simp only [hl, hk, hspan, hloc]
  | case5 t here c rest hb t' shape more hl span kind hk e he ih
  | case6 t here c rest hb t' shape more hl span kind hk tokens he ih =>
    intro w h
    obtain ⟨w', hw, hloc, hnext⟩ := h.locate?
    obtain ⟨-, after, rfl, -⟩ := Shape.matches_of_longest? hl
    have hspan := h.ofRange (List.prefix_append (c :: more) after)
    have hrest := ih w' (by rw [List.drop_left]; exact hnext (c :: more) after rfl)
    rw [lexFrom?, lexFrom, if_neg hb, if_neg hb, hw, Option.bind_some]
    simp only [hl, hk, hspan, hloc]
    rw [show here + byteLength (c :: more) = span.stop from rfl, hrest, he]
    rfl

/-- On a source of less than 2 ^ 30 bytes nothing goes wrong. -/
theorem lex?_eq (r : Registry) {source : String} (hsize : source.utf8ByteSize < 2 ^ 30) :
    lex? r source = some (lex r source) := by
  refine lexFrom?_eq r _ 0 source.toList _ ⟨Watch.follows_ofSource _, ⟨[], rfl, rfl⟩, ?_⟩
  show byteLength source.toList < 2 ^ 30
  rwa [byteLength_toList]

end Token

end Reckon
