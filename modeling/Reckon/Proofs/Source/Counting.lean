import Reckon.Proofs.Token.Lexeme
import Reckon.Source.Line
/-!
# Lines and columns counted from the start

The tracker counts lines and columns as it goes along, and remembers whether it stands behind a carriage return. The
line of an offset is found by going over the source again, with a look at the character ahead. Both are compared with
what a text says by itself: how many line breaks begin in it, and what follows the last of them. `Tracker.walk_eq` and
`Line.ofOffset_eq` say that both count the same, except at an offset inside a line break, which only the tracker
counts as behind it.
-/

namespace Reckon

/-! ## Counting in a text -/

/-- The number of line breaks that begin in a text. -/
def breaks : List Char → Nat
  | [] => 0
  | '\r' :: '\n' :: cs => breaks cs + 1
  | c :: cs => if Line.isBreak c then breaks cs + 1 else breaks cs

/-- The text behind the last character that breaks a line. -/
def lastLine (cs : List Char) : List Char := (cs.reverse.takeWhile (!Line.isBreak ·)).reverse

/-- The text up to the last character that breaks a line. -/
def earlierLines (cs : List Char) : List Char := (cs.reverse.dropWhile (!Line.isBreak ·)).reverse

/-- The columns that a text takes. -/
def columns : List Char → Nat
  | [] => 0
  | c :: cs => (if c = '\t' then Location.tabWidth else 1) + columns cs

/-- Whether the text ends with a carriage return. -/
def endsInReturn (cs : List Char) : Bool := cs.getLast? = some '\r'

/-- The location behind a text. -/
def Location.behind (cs : List Char) : Location := ⟨breaks cs + 1, columns (lastLine cs) + 1, byteLength cs⟩

/-- The text has no character that breaks a line. -/
def Unbroken (cs : List Char) : Prop := ∀ c ∈ cs, Line.isBreak c = false

variable {cs ds front line : List Char} {c : Char}

theorem earlierLines_append_lastLine (cs : List Char) : earlierLines cs ++ lastLine cs = cs := by
  rw [earlierLines, lastLine, ← List.reverse_append, List.takeWhile_append_dropWhile, List.reverse_reverse]

theorem unbroken_lastLine (cs : List Char) : Unbroken (lastLine cs) := by
  intro c hc
  have hp := mem_takeWhile (List.mem_reverse.1 hc)
  simpa using hp

/-- A line begins at the start of the source or behind a break. -/
theorem isBreak_of_getLast?_earlierLines (h : c ∈ (earlierLines cs).getLast?) : Line.isBreak c = true := by
  rw [earlierLines, List.getLast?_reverse] at h
  have hnot := notAhead_dropWhile (!Line.isBreak ·) cs.reverse c h
  simpa using hnot

/-- There is one way to cut the last line off. -/
theorem lastLine_eq (hline : Unbroken line) (hfront : ∀ c ∈ front.getLast?, Line.isBreak c = true) :
    lastLine (front ++ line) = line ∧ earlierLines (front ++ line) = front := by
  have hrun : ∀ c ∈ line.reverse, (!Line.isBreak c) = true := fun c hc => by simp [hline c (List.mem_reverse.1 hc)]
  have hstop : NotAhead (!Line.isBreak ·) front.reverse := fun c hc => by
    rw [List.head?_reverse] at hc
    simp [hfront c hc]
  rw [lastLine, earlierLines, List.reverse_append, takeWhile_append_of_notAhead hrun hstop,
    dropWhile_append_of_notAhead hrun hstop, List.reverse_reverse, List.reverse_reverse]
  exact ⟨rfl, rfl⟩

/-- What is in front of a break is on earlier lines. -/
theorem lastLine_append_cons (cs ds : List Char) (hc : Line.isBreak c = true) :
    lastLine (cs ++ c :: ds) = lastLine ds ∧ earlierLines (cs ++ c :: ds) = cs ++ c :: earlierLines ds := by
  have hsplit : cs ++ c :: ds = (cs ++ c :: earlierLines ds) ++ lastLine ds := by
    rw [List.append_assoc, List.cons_append, earlierLines_append_lastLine]
  rw [hsplit]
  refine lastLine_eq (unbroken_lastLine ds) fun d hd => ?_
  rw [List.getLast?_append, List.getLast?_cons, Option.some_or] at hd
  cases hlast : (earlierLines ds).getLast? with
  | none =>
    rw [hlast] at hd
    cases hd
    exact hc
  | some e =>
    rw [hlast] at hd
    cases hd
    exact isBreak_of_getLast?_earlierLines hlast

/-- What has no break in it is on the last line. -/
theorem lastLine_append (cs : List Char) (h : Unbroken ds) :
    lastLine (cs ++ ds) = lastLine cs ++ ds ∧ earlierLines (cs ++ ds) = earlierLines cs := by
  have hsplit : cs ++ ds = earlierLines cs ++ (lastLine cs ++ ds) := by
    rw [← List.append_assoc, earlierLines_append_lastLine]
  rw [hsplit]
  refine lastLine_eq ?_ fun d hd => isBreak_of_getLast?_earlierLines hd
  exact fun c hc => (List.mem_append.1 hc).elim (unbroken_lastLine cs c) (h c)

theorem columns_append (cs ds : List Char) : columns (cs ++ ds) = columns cs + columns ds := by
  induction cs with
  | nil => exact (Nat.zero_add _).symm
  | cons c cs ih => rw [List.cons_append, columns, columns, ih, Nat.add_assoc]

/-- A tab takes three columns more than another character. -/
theorem columns_eq (cs : List Char) : columns cs = cs.length + 3 * cs.count '\t' := by
  induction cs with
  | nil => rfl
  | cons c cs ih =>
    rw [columns, ih, List.length_cons]
    by_cases hc : c = '\t'
    · subst hc
      rw [if_pos rfl, List.count_cons_self, Location.tabWidth]
      omega
    · rw [if_neg hc, List.count_cons_of_ne hc]
      omega

theorem breaks_cons (h : ¬(c = '\r' ∧ cs.head? = some '\n')) :
    breaks (c :: cs) = (if Line.isBreak c then 1 else 0) + breaks cs := by
  rw [breaks]
  · split
    · exact Nat.add_comm _ _
    · exact (Nat.zero_add _).symm
  · rintro cs' rfl rfl
    exact h ⟨rfl, rfl⟩

theorem endsInReturn_append_singleton (cs : List Char) (c : Char) : endsInReturn (cs ++ [c]) = decide (c = '\r') := by
  simp [endsInReturn]

theorem endsInReturn_cons_cons (c d : Char) (cs : List Char) : endsInReturn (c :: d :: cs) = endsInReturn (d :: cs) := by
  rw [endsInReturn, List.getLast?_cons_cons]
  rfl

/-- A line feed right behind a carriage return begins no break. -/
theorem breaks_append_singleton (cs : List Char) (c : Char) : breaks (cs ++ [c]) =
    breaks cs + if Line.isBreak c && !(c == '\n' && endsInReturn cs) then 1 else 0 := by
  induction cs using breaks.induct with
  | case1 =>
    rw [List.nil_append, breaks_cons (by simp)]
    simp [breaks, endsInReturn]
  | case2 cs ih =>
    have hlast : endsInReturn ('\r' :: '\n' :: cs) = endsInReturn cs := by
      cases cs with
      | nil => rfl
      | cons d cs => rw [endsInReturn_cons_cons, endsInReturn_cons_cons]
    rw [List.cons_append, List.cons_append, breaks, breaks, ih, hlast]
    omega
  | case3 d cs hne hd ih | case4 d cs hne hd ih =>
    cases cs with
    | nil =>
      by_cases hcr : d = '\r' ∧ c = '\n'
      · obtain ⟨rfl, rfl⟩ := hcr
        rfl
      · have hpair : ¬(d = '\r' ∧ [c].head? = some '\n') := by simpa using hcr
        rw [List.singleton_append, breaks_cons hpair, breaks_cons (by simp), breaks_cons (by simp)]
        simp only [endsInReturn]
        grind
    | cons e es =>
      have hpair : ¬(d = '\r' ∧ (e :: es).head? = some '\n') := by
        rintro ⟨rfl, he⟩
        cases he
        exact hne es rfl rfl
      have hpair' : ¬(d = '\r' ∧ (e :: es ++ [c]).head? = some '\n') := hpair
      rw [List.cons_append, breaks_cons hpair', breaks_cons hpair, ih, endsInReturn_cons_cons]
      omega

theorem lastLine_append_break (cs : List Char) (hc : Line.isBreak c = true) : lastLine (cs ++ [c]) = [] :=
  (lastLine_append_cons cs [] hc).1

theorem lastLine_of_endsInReturn (h : endsInReturn cs = true) : lastLine cs = [] := by
  obtain ⟨init, rfl⟩ := List.getLast?_eq_some_iff.1 (of_decide_eq_true h)
  exact lastLine_append_break init rfl

/-! ## The tracker -/

namespace Location

theorem advance_lineFeed (l : Location) : l.advance true '\n' = { l with offset := l.offset + '\n'.utf8Size } := rfl

theorem advance_of_isBreak (l : Location) {afterReturn : Bool} (hc : Line.isBreak c = true)
    (hfeed : ¬(c = '\n' ∧ afterReturn = true)) : l.advance afterReturn c = ⟨l.line + 1, 1, l.offset + c.utf8Size⟩ := by
  have hor : c = '\n' ∨ c = '\r' := by simpa [Line.isBreak] using hc
  have hfalse : (decide (c = '\n') && afterReturn) = false := by simpa using hfeed
  unfold advance
  simp only [hfalse, Bool.false_eq_true, if_false, decide_eq_true_eq, Bool.or_eq_true, if_pos hor]

theorem advance_of_not_isBreak (l : Location) (afterReturn : Bool) (hc : Line.isBreak c = false) :
    l.advance afterReturn c = ⟨l.line, l.column + columns [c], l.offset + c.utf8Size⟩ := by
  have hne : c ≠ '\n' ∧ c ≠ '\r' := by simpa [Line.isBreak] using hc
  unfold advance
  by_cases htab : c = '\t'
  · subst htab
    rfl
  · simp [hne, htab, columns]

/-- One character more, and one step further. -/
theorem behind_append_singleton (cs : List Char) (c : Char) :
    behind (cs ++ [c]) = (behind cs).advance (endsInReturn cs) c := by
  have hoffset : byteLength (cs ++ [c]) = byteLength cs + c.utf8Size := byteLength_append cs [c]
  rw [behind, breaks_append_singleton, hoffset]
  cases hc : Line.isBreak c with
  | true =>
    rw [lastLine_append_break cs hc]
    by_cases hfeed : c = '\n' ∧ endsInReturn cs = true
    · -- The line has begun behind the carriage return already.
      obtain ⟨rfl, hlast⟩ := hfeed
      rw [hlast, advance_lineFeed, behind, lastLine_of_endsInReturn hlast]
      rfl
    · have hfalse : (c == '\n' && endsInReturn cs) = false := by simpa using hfeed
      rw [advance_of_isBreak _ hc hfeed, hfalse]
      rfl
  | false =>
    have hline : Unbroken [c] := List.forall_mem_singleton.2 hc
    rw [(lastLine_append cs hline).1, columns_append, advance_of_not_isBreak _ _ hc, Nat.add_right_comm (columns _)]
    rfl

end Location

namespace Tracker

/-- The tracker has walked over a text. -/
structure Stands (t : Tracker) (passed : List Char) : Prop where
  location : t.location = .behind passed
  afterReturn : t.afterReturn = endsInReturn passed

variable {t : Tracker} {passed gap after : List Char}

theorem stands_ofSource (source : List Char) : (ofSource source).Stands [] := ⟨rfl, rfl⟩

theorem walk_eq (passed gap after : List Char) :
    walk (byteLength (passed ++ gap)) (gap ++ after) (.behind passed) (endsInReturn passed) =
      ⟨after, .behind (passed ++ gap), endsInReturn (passed ++ gap)⟩ := by
  induction gap generalizing passed with
  | nil =>
    rw [List.append_nil, List.nil_append]
    cases after with
    | nil => rfl
    | cons c after => exact if_neg (Nat.lt_irrefl _)
  | cons c gap ih =>
    have hpos := c.utf8Size_pos
    have hlt : (Location.behind passed).offset < byteLength (passed ++ c :: gap) := by
      simp only [Location.behind, byteLength_append, byteLength]
      omega
    rw [List.cons_append, walk, if_pos hlt, ← Location.behind_append_singleton, ← endsInReturn_append_singleton passed,
      List.append_cons, ih]

/-- The tracker goes on over the text up to the offset that it is asked for. -/
theorem Stands.locate (h : t.Stands passed) (ht : t.ahead = gap ++ after) :
    (t.locate (byteLength (passed ++ gap))).Stands (passed ++ gap) ∧
      (t.locate (byteLength (passed ++ gap))).ahead = after := by
  rw [Tracker.locate, ht, h.location, h.afterReturn, walk_eq]
  exact ⟨⟨rfl, rfl⟩, rfl⟩

end Tracker

/-! ## The line of an offset -/

/-- The end of the first text is not inside a line break. -/
def NotInBreak (before after : List Char) : Prop := ¬(endsInReturn before = true ∧ after.head? = some '\n')

theorem NotInBreak.tail {before after : List Char} (h : NotInBreak (c :: before) after) : NotInBreak before after := by
  rintro ⟨hlast, hfeed⟩
  cases before with
  | nil => cases hlast
  | cons d before => exact h ⟨by rwa [endsInReturn_cons_cons], hfeed⟩

namespace Line

variable {before after : List Char} {line : Line} {offset here : Nat}

theorem scan_other (hc : isBreak c = false) : scan offset line here (c :: cs) = scan offset line (here + c.utf8Size) cs := by
  rw [scan, if_neg (by simp [hc])]
  rintro cs' rfl -
  cases hc

theorem scan_break (hc : isBreak c = true) (hpair : ¬(c = '\r' ∧ cs.head? = some '\n')) (h : here + 1 ≤ offset) :
    scan offset line here (c :: cs) = scan offset ⟨line.number + 1, here + 1, cs⟩ (here + 1) cs := by
  rw [scan, if_pos hc, if_pos h]
  rintro cs' rfl rfl
  exact hpair ⟨rfl, rfl⟩

theorem utf8Size_of_isBreak (hc : isBreak c = true) : c.utf8Size = 1 := by
  have hor : c = '\n' ∨ c = '\r' := by simpa [isBreak] using hc
  rcases hor with rfl | rfl <;> rfl

/-- No line begins behind the offset. -/
theorem scan_of_le (h : offset ≤ here) (cs : List Char) : scan offset line here cs = line := by
  induction line, here, cs using scan.induct offset with
  | case1 line here => rw [scan]
  | case2 line here cs hle => omega
  | case3 line here cs hle => rw [scan, if_neg hle]
  | case4 line here c cs hpair hc hle => omega
  | case5 line here c cs hpair hc hle => rw [scan, if_pos hc, if_neg hle]; exact hpair
  | case6 line here c cs hpair hc ih => rw [scan_other (by simpa using hc), ih (by omega)]

theorem scan_pair (h : here + 2 ≤ offset) : scan offset line here ('\r' :: '\n' :: cs) =
    scan offset ⟨line.number + 1, here + 2, cs⟩ (here + 2) cs := by
  rw [scan, if_pos h]

/-- The line at the end of a text, which begins behind the last break in it. -/
theorem scan_eq (number start : Nat) {seg : List Char} (hseg : Unbroken seg) (hbreak : NotInBreak before after)
    (hhere : start + byteLength seg = here) (hoffset : here + byteLength before = offset) :
    scan offset ⟨number, start, seg ++ (before ++ after)⟩ here (before ++ after) =
      ⟨number + breaks before, start + byteLength (earlierLines (seg ++ before)), lastLine (seg ++ before) ++ after⟩ := by
  -- `seg` is what has been passed of the current line; behind a break none of the next line has been.
  have hnil : Unbroken [] := List.forall_mem_nil _
  induction before using breaks.induct generalizing number start here seg with
  | case1 =>
    obtain ⟨hlast, hearlier⟩ := lastLine_append [] hseg
    rw [List.nil_append] at hlast hearlier
    rw [scan_of_le (by rw [← hoffset]; exact Nat.le_refl _), List.append_nil, hlast, hearlier]
    rfl
  | case2 cs ih =>
    have hreturn : '\r'.utf8Size = 1 := rfl
    have hfeed : '\n'.utf8Size = 1 := rfl
    simp only [byteLength, hreturn, hfeed] at hoffset
    have hnext := ih (number + 1) (here + 2) hnil hbreak.tail.tail (Nat.add_zero _) (by omega)
    obtain ⟨hlast, hearlier⟩ := @lastLine_append_cons '\n' (seg ++ ['\r']) cs rfl
    rw [← List.append_cons] at hlast hearlier
    rw [List.cons_append, List.cons_append, scan_pair (by omega), hlast, hearlier, breaks]
    refine hnext.trans ?_
    simp only [List.nil_append, byteLength_append, byteLength, hreturn, hfeed, Line.mk.injEq, and_true]
    omega
  | case3 c cs hne hc ih =>
    have hsize := utf8Size_of_isBreak hc
    rw [byteLength, hsize] at hoffset
    have hpair : ¬(c = '\r' ∧ (cs ++ after).head? = some '\n') := by
      rintro ⟨rfl, hfeed⟩
      cases cs with
      | nil => exact hbreak ⟨rfl, hfeed⟩
      | cons d cs =>
        cases hfeed
        exact hne cs rfl rfl
    have hnext := ih (number + 1) (here + 1) hnil hbreak.tail (Nat.add_zero _) (by omega)
    obtain ⟨hlast, hearlier⟩ := lastLine_append_cons seg cs hc
    rw [List.cons_append, scan_break hc hpair (by omega), hlast, hearlier, breaks, if_pos hc]
    · refine hnext.trans ?_
      simp only [List.nil_append, byteLength_append, byteLength, hsize, Line.mk.injEq, and_true]
      omega
    · exact hne
  | case4 c cs hne hc ih =>
    rw [Bool.not_eq_true] at hc
    have hseg' : Unbroken (seg ++ [c]) := List.forall_mem_append.2 ⟨hseg, List.forall_mem_singleton.2 hc⟩
    rw [byteLength] at hoffset
    have hhere' : start + byteLength (seg ++ [c]) = here + c.utf8Size := by
      rw [byteLength_append, ← hhere, Nat.add_assoc]
      rfl
    have hnext := ih number start hseg' hbreak.tail hhere' (by omega)
    rw [← List.append_cons, ← List.append_cons] at hnext
    rw [List.cons_append, scan_other hc, hnext, breaks, if_neg (by simp [hc])]
    exact hne

/-- Behind a text that does not end inside a line break, the line is the last line of the text and what follows it. -/
theorem ofOffset_eq (h : NotInBreak before after) : ofOffset (before ++ after) (byteLength before) =
    ⟨breaks before + 1, byteLength (earlierLines before), lastLine before ++ after⟩ := by
  have hscan := scan_eq 1 0 (List.forall_mem_nil _) h rfl rfl
  rw [List.nil_append, List.nil_append, Nat.add_comm 1, byteLength, Nat.zero_add, Nat.zero_add, Nat.zero_add] at hscan
  exact hscan

/-- On its line, an offset has as many characters before it as the last line of the text. -/
theorem column_ofOffset (h : NotInBreak before after) :
    (ofOffset (before ++ after) (byteLength before)).column (byteLength before) = (lastLine before).length + 1 := by
  have hsize : byteLength before = byteLength (earlierLines before) + byteLength (lastLine before) := by
    rw [← byteLength_append, earlierLines_append_lastLine]
  rw [ofOffset_eq h, column, hsize, Nat.add_sub_cancel_left, charsWithin_byteLength]

end Line

end Reckon
