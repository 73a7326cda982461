import Reckon.Proofs.Diagnostic.Place
import Reckon.Proofs.Source.Lines
import Reckon.Proofs.Source.Overflow
/-!
# The line that is cut out for an offset

For any offset, also behind the end of the source or inside a character, a line is cut out of the source: the offset is
moved back to a boundary, the bytes up to there are gone through one by one for the number of the line and its start,
and the text is what follows up to the next line break. Number and column have 32 bits, so that in a source of 2 ^ 32
bytes they run over. `excerpt?_eq` says what comes of that in either build, and that nothing else goes wrong.
`excerpt?_isLineOf` says which line this is by the terminators of the source. A terminator is a span, so that of a
carriage return with a line feed is never split.
-/

namespace Reckon

variable {source front back cs earlier text rest : List Char} {offset here number start : Nat} {c : Char}
  {bs : List UInt8} {o : Overflow}

/-! ## Terminators -/

/-- Where the line terminators of a text lie, if the text begins at `here`. -/
def terminators (here : Nat) : List Char → List Span
  | [] => []
  | '\r' :: '\n' :: cs => ⟨here, here + 2⟩ :: terminators (here + 2) cs
  | c :: cs => if Line.isBreak c then ⟨here, here + 1⟩ :: terminators (here + 1) cs else terminators (here + c.utf8Size) cs

theorem terminators_break (hc : Line.isBreak c = true) (hpair : ¬(c = '\r' ∧ cs.head? = some '\n')) :
    terminators here (c :: cs) = ⟨here, here + 1⟩ :: terminators (here + 1) cs := by
  rw [terminators, if_pos hc]
  rintro cs' rfl rfl
  exact hpair ⟨rfl, rfl⟩

theorem terminators_other (hc : Line.isBreak c = false) : terminators here (c :: cs) = terminators (here + c.utf8Size) cs := by
  rw [terminators, if_neg (by simp [hc])]
  rintro cs' rfl -
  cases hc

/-- Every line break that begins in a text is a terminator. -/
theorem length_terminators (here : Nat) (cs : List Char) : (terminators here cs).length = breaks cs := by
  induction here, cs using terminators.induct with
  | case1 here => rfl
  | case2 here cs ih => rw [terminators, breaks, List.length_cons, ih]
  | case3 here c cs hne hc ih =>
    have hpair := Line.not_pair_of hne
    rw [terminators_break hc hpair, breaks_cons hpair, if_pos hc, List.length_cons, ih, Nat.add_comm]
  | case4 here c cs hne hc ih =>
    rw [terminators_other (by simpa using hc), breaks_cons (Line.not_pair_of hne), if_neg hc, ih, Nat.zero_add]

theorem within_of_mem_terminators {t : Span} (h : t ∈ terminators here cs) :
    here ≤ t.start ∧ t.start < t.stop ∧ t.stop ≤ here + byteLength cs := by
  have hreturn : '\r'.utf8Size = 1 := rfl
  have hfeed : '\n'.utf8Size = 1 := rfl
  induction here, cs using terminators.induct with
  | case1 here => cases h
  | case2 here cs ih =>
    rw [terminators] at h
    simp only [byteLength, hreturn, hfeed]
    rcases List.mem_cons.1 h with rfl | h
    · exact ⟨Nat.le_refl _, Nat.lt_add_of_pos_right Nat.two_pos, Nat.add_le_add_left (by omega) here⟩
    · have hwithin := ih h
      omega
  | case3 here c cs hne hc ih =>
    rw [terminators_break hc (Line.not_pair_of hne)] at h
    rw [byteLength, Line.utf8Size_of_isBreak hc]
    rcases List.mem_cons.1 h with rfl | h
    · exact ⟨Nat.le_refl _, Nat.lt_succ_self _, Nat.add_le_add_left (by omega) here⟩
    · have hwithin := ih h
      omega
  | case4 here c cs hne hc ih =>
    rw [terminators_other (by simpa using hc)] at h
    have hwithin := ih h
    rw [byteLength]
    omega

/-- Where a text is not cut inside a line break, its terminators are those of the parts. -/
theorem terminators_append (here : Nat) (h : NotInBreak front back) :
    terminators here (front ++ back) = terminators here front ++ terminators (here + byteLength front) back := by
  have hreturn : '\r'.utf8Size = 1 := rfl
  have hfeed : '\n'.utf8Size = 1 := rfl
  induction here, front using terminators.induct with
  | case1 here => rfl
  | case2 here cs ih =>
    have hsize : here + byteLength ('\r' :: '\n' :: cs) = here + 2 + byteLength cs := by
      simp only [byteLength, hreturn, hfeed]
      omega
    rw [List.cons_append, List.cons_append, terminators, terminators, ih h.tail.tail, hsize, List.cons_append]
  | case3 here c cs hne hc ih =>
    have hpair : ¬(c = '\r' ∧ (cs ++ back).head? = some '\n') := by
      rintro ⟨rfl, hhead⟩
      cases cs with
      | nil => exact h ⟨rfl, hhead⟩
      | cons d cs =>
        cases hhead
        exact hne cs rfl rfl
    rw [List.cons_append, terminators_break hc hpair, terminators_break hc (Line.not_pair_of hne), ih h.tail, byteLength,
      Line.utf8Size_of_isBreak hc, Nat.add_assoc, List.cons_append]
  | case4 here c cs hne hc ih =>
    have hother : Line.isBreak c = false := by simpa using hc
    rw [List.cons_append, terminators_other hother, terminators_other hother, ih h.tail, byteLength, Nat.add_assoc]

theorem notInBreak_return (cs back : List Char) : NotInBreak cs ('\r' :: back) := by
  rintro ⟨-, hfeed⟩
  cases hfeed

/-- A text whose last character breaks a line ends with a terminator. -/
theorem exists_terminator_of_getLast? (here : Nat) (hlast : cs.getLast? = some c) (hc : Line.isBreak c = true) :
    ∃ t ∈ terminators here cs, t.stop = here + byteLength cs := by
  obtain ⟨before, rfl⟩ := List.getLast?_eq_some_iff.1 hlast
  by_cases hbreak : NotInBreak before [c]
  · have hpair : ¬(c = '\r' ∧ ([] : List Char).head? = some '\n') := by
      rintro ⟨-, hfeed⟩
      cases hfeed
    have hsize : byteLength [c] = 1 := Line.utf8Size_of_isBreak hc
    rw [terminators_append here hbreak, terminators_break hc hpair]
    refine ⟨_, List.mem_append_right _ List.mem_cons_self, ?_⟩
    rw [byteLength_append, hsize, Nat.add_assoc]
  · -- The line feed belongs to the carriage return before it.
    obtain ⟨hend, hhead⟩ := Decidable.not_not.1 hbreak
    obtain ⟨before, rfl⟩ := List.getLast?_eq_some_iff.1 (of_decide_eq_true hend)
    cases hhead
    have hsize : byteLength ['\r', '\n'] = 2 := rfl
    rw [List.append_assoc, List.singleton_append, terminators_append here (notInBreak_return before ['\n'])]
    refine ⟨_, List.mem_append_right _ List.mem_cons_self, ?_⟩
    rw [byteLength_append, hsize, Nat.add_assoc]

/-! ## Where an offset is moved -/

/-- The last offset up to `n` that does not cut a character. -/
def lastBoundary (source : List Char) : Nat → Nat
  | 0 => 0
  | n + 1 => if (dropBytes? (n + 1) source).isSome then n + 1 else lastBoundary source n

theorem exists_front_of_dropBytes? {n : Nat} {cs : List Char} (h : dropBytes? n source = some cs) :
    ∃ front, source = front ++ cs ∧ byteLength front = n := by
  induction n, source using dropBytes?.induct with
  | case1 source =>
    rw [dropBytes?] at h
    cases h
    exact ⟨[], rfl, rfl⟩
  | case2 n => cases h
  | case3 n c source hle ih =>
    rw [dropBytes?, if_pos hle] at h
    obtain ⟨front, rfl, hfront⟩ := ih h
    exact ⟨c :: front, rfl, by rw [byteLength]; omega⟩
  | case4 n c source hle =>
    rw [dropBytes?, if_neg hle] at h
    cases h

/-- A source is cut between two characters at the last place that is not behind an offset. -/
structure MovedBack (source : List Char) (offset here : Nat) : Prop where
  boundary : ∃ front back, source = front ++ back ∧ byteLength front = here
  le : here ≤ offset
  greatest : ∀ front back, source = front ++ back → byteLength front ≤ offset → byteLength front ≤ here

theorem movedBack_lastBoundary (source : List Char) (offset : Nat) : MovedBack source offset (lastBoundary source offset) := by
  induction offset with
  | zero => exact ⟨⟨[], source, rfl, rfl⟩, Nat.le_refl _, fun _ _ _ hle => hle⟩
  | succ n ih =>
    rw [lastBoundary]
    split
    case isTrue hdrop =>
      obtain ⟨back, hback⟩ := Option.isSome_iff_exists.1 hdrop
      obtain ⟨front, hsource, hfront⟩ := exists_front_of_dropBytes? hback
      exact ⟨⟨front, back, hsource, hfront⟩, Nat.le_refl _, fun _ _ _ hle => hle⟩
    case isFalse hdrop =>
      refine ⟨ih.boundary, Nat.le_succ_of_le ih.le, fun front back hsource hle => ih.greatest front back hsource ?_⟩
      refine Nat.le_of_lt_succ (Nat.lt_of_le_of_ne hle fun heq => hdrop ?_)
      have hdrop := dropBytes?_append front back
      rw [heq, ← hsource] at hdrop
      exact Option.isSome_iff_exists.2 ⟨back, hdrop⟩

namespace MovedBack

theorem onBoundary (h : MovedBack source offset here) : OnBoundary source here := by
  obtain ⟨front, back, hsource, rfl⟩ := h.boundary
  exact .between hsource

theorem le_byteLength (h : MovedBack source offset here) : here ≤ byteLength source := by
  obtain ⟨front, back, rfl, rfl⟩ := h.boundary
  rw [byteLength_append]
  exact Nat.le_add_right _ _

/-- The same fronts of a source end at or before the one offset and the other. -/
theorem le_iff (h : MovedBack source (min offset (byteLength source)) here) (hsource : source = front ++ back) :
    byteLength front ≤ offset ↔ byteLength front ≤ here := by
  have hsize := congrArg byteLength hsource
  rw [byteLength_append] at hsize
  have hle := h.le
  have hgreatest := h.greatest front back hsource
  omega

/-- The offset that is moved back has the same line. -/
theorem ofOffset_eq (h : MovedBack source (min offset (byteLength source)) here) :
    Line.ofOffset source offset = Line.ofOffset source here := by
  refine Line.scan_congr fun front back hsource _ => ?_
  rw [Nat.zero_add]
  exact h.le_iff hsource

end MovedBack

/-- What matters of a number of bytes is which fronts of a text fit into it. -/
theorem charsWithin_congr {m n : Nat}
    (h : ∀ front back, cs = front ++ back → (byteLength front ≤ m ↔ byteLength front ≤ n)) :
    charsWithin m cs = charsWithin n cs := by
  induction cs generalizing m n with
  | nil => rfl
  | cons c cs ih =>
    have hone := h [c] cs rfl
    rw [byteLength, byteLength, Nat.add_zero] at hone
    rw [charsWithin, charsWithin]
    by_cases hle : c.utf8Size ≤ m
    · rw [if_pos hle, if_pos (hone.1 hle)]
      refine congrArg (· + 1) (ih fun front back hcs => ?_)
      have hfront := h (c :: front) back (by rw [hcs]; rfl)
      rw [byteLength] at hfront
      have hle' := hone.1 hle
      omega
    · rw [if_neg hle, if_neg ((not_congr hone).1 hle)]

/-- How many characters of a line come before an offset. -/
def Line.passed (l : Line) (offset : Nat) : Nat := charsWithin (offset - l.start) l.chars

/-- The offset that is moved back has the same characters of its line before it. -/
theorem MovedBack.passed_eq (h : MovedBack source (min offset (byteLength source)) here) :
    (Line.ofOffset source offset).passed offset = (Line.ofOffset source here).passed here := by
  obtain ⟨earlier, text, rest, hline, hfound⟩ := h.onBoundary.exists_lineOf
  have hle := hline.start_le
  have hmoved := h.le
  rw [h.ofOffset_eq, hfound]
  refine charsWithin_congr fun front back (hahead : text ++ rest = front ++ back) => ?_
  have hsource : source = (earlier ++ front) ++ back := by rw [hline.source_eq, hahead, List.append_assoc]
  have hiff := h.le_iff hsource
  rw [byteLength_append] at hiff
  change byteLength front ≤ offset - byteLength earlier ↔ byteLength front ≤ here - byteLength earlier
  omega

/-! ## Byte by byte -/

/-- The bytes of a text in UTF-8. -/
def bytesOf (cs : List Char) : List UInt8 := cs.flatMap String.utf8EncodeChar

/-- The number and the start of the line of an offset, where `number` and `start` are those of the current line and
`here` is the offset of the given bytes. Nothing comes out where a byte behind the last one is looked at, or the
counter panics. -/
def lineAt? (o : Overflow) (offset number start here : Nat) : List UInt8 → Option (Nat × Nat)
  | [] => if here < offset then none else some (number, start)
  | 0x0D :: 0x0A :: bs =>
    -- An offset at the line feed stays on the line that the pair ends.
    if here + 1 < offset then (o.hold? (number + 1)).bind fun next => lineAt? o offset next (here + 2) (here + 2) bs
    else some (number, start)
  | b :: bs =>
    if here < offset then
      if b = 0x0A ∨ b = 0x0D then (o.hold? (number + 1)).bind fun next => lineAt? o offset next (here + 1) (here + 1) bs
      else lineAt? o offset number start (here + 1) bs
    else some (number, start)

theorem bytesOf_pair (cs : List Char) : bytesOf ('\r' :: '\n' :: cs) = 0x0D :: 0x0A :: bytesOf cs := rfl

theorem bytesOf_cons (c : Char) (cs : List Char) : bytesOf (c :: cs) = String.utf8EncodeChar c ++ bytesOf cs := rfl

/-- Of the bytes of a character, those below 0x80 are the character itself. -/
theorem toNat_of_mem_utf8EncodeChar {b : UInt8} (h : b ∈ String.utf8EncodeChar c) : b.toNat = c.toNat ∨ 0x80 ≤ b.toNat := by
  have hval : c.val.toNat = c.toNat := rfl
  revert h
  fun_cases String.utf8EncodeChar <;> simp only [List.mem_cons, List.not_mem_nil, or_false]
  · rintro rfl
    rw [UInt8.toNat_ofNat']
    omega
  · rintro (rfl | rfl) <;> rw [UInt8.toNat_ofNat'] <;> omega
  · rintro (rfl | rfl | rfl) <;> rw [UInt8.toNat_ofNat'] <;> omega
  · rintro (rfl | rfl | rfl | rfl) <;> rw [UInt8.toNat_ofNat'] <;> omega

/-- A character that breaks no line has no byte that does. -/
theorem plain_of_mem_utf8EncodeChar {b : UInt8} (hc : Line.isBreak c = false) (h : b ∈ String.utf8EncodeChar c) :
    ¬(b = 0x0A ∨ b = 0x0D) := by
  have hnot : c ≠ '\n' ∧ c ≠ '\r' := by simpa [Line.isBreak] using hc
  have hsame := toNat_of_mem_utf8EncodeChar h
  rintro (rfl | rfl)
  · exact hnot.1 (Char.toNat_inj.1 (hsame.resolve_right (by decide)).symm)
  · exact hnot.2 (Char.toNat_inj.1 (hsame.resolve_right (by decide)).symm)

/-- A text begins with a line feed if its first byte is one. -/
theorem head?_of_head?_bytesOf (h : (bytesOf cs).head? = some 0x0A) : cs.head? = some '\n' := by
  cases cs with
  | nil => cases h
  | cons d cs =>
    obtain ⟨b, bs, hbytes⟩ := List.exists_cons_of_ne_nil (@String.utf8EncodeChar_ne_nil d)
    rw [bytesOf_cons, hbytes] at h
    obtain rfl : b = 0x0A := Option.some.inj h
    have hmem : (0x0A : UInt8) ∈ String.utf8EncodeChar d := by
      rw [hbytes]
      exact List.mem_cons_self
    have hsame := (toNat_of_mem_utf8EncodeChar hmem).resolve_right (by decide)
    exact congrArg some (Char.toNat_inj.1 hsame.symm)

theorem lineAt?_of_le (h : offset ≤ here) : lineAt? o offset number start here bs = some (number, start) := by
  fun_cases lineAt? o offset number start here bs with
  | case1 hlt => omega
  | case3 bs hlt => omega
  | case5 => omega
  | case6 => omega
  | _ => rfl

theorem lineAt?_plain {b : UInt8} (hb : ¬(b = 0x0A ∨ b = 0x0D)) :
    lineAt? o offset number start here (b :: bs) = lineAt? o offset number start (here + 1) bs := by
  rw [lineAt?, if_neg hb]
  · split
    · rfl
    · rw [lineAt?_of_le (by omega)]
  · rintro bs' rfl -
    exact hb (.inr rfl)

/-- Bytes in which no line ends are passed over. -/
theorem lineAt?_append {plain : List UInt8} (h : ∀ b ∈ plain, ¬(b = 0x0A ∨ b = 0x0D)) :
    lineAt? o offset number start here (plain ++ bs) = lineAt? o offset number start (here + plain.length) bs := by
  induction plain generalizing here with
  | nil => rfl
  | cons b plain ih =>
    obtain ⟨hb, hplain⟩ := List.forall_mem_cons.1 h
    rw [List.cons_append, lineAt?_plain hb, ih hplain, List.length_cons, Nat.add_assoc, Nat.add_comm 1]

theorem lineAt?_break {b : UInt8} (hb : b = 0x0A ∨ b = 0x0D) (hpair : ¬(b = 0x0D ∧ bs.head? = some 0x0A)) (h : here < offset) :
    lineAt? o offset number start here (b :: bs) =
      (o.hold? (number + 1)).bind fun next => lineAt? o offset next (here + 1) (here + 1) bs := by
  rw [lineAt?, if_pos h, if_pos hb]
  rintro bs' rfl rfl
  exact hpair ⟨rfl, rfl⟩

theorem Line.number_le_scan (offset : Nat) (line : Line) (here : Nat) (cs : List Char) :
    line.number ≤ (scan offset line here cs).number := by
  induction line, here, cs using scan.induct offset with
  | case1 line here => exact Nat.le_of_eq (by rw [scan])
  | case2 line here cs hle ih =>
    rw [scan_pair hle]
    exact Nat.le_of_succ_le ih
  | case3 line here cs hle => exact Nat.le_of_eq (by rw [scan, if_neg hle])
  | case4 line here c cs hne hc hle ih =>
    rw [scan_break hc (not_pair_of hne) hle]
    exact Nat.le_of_succ_le ih
  | case5 line here c cs hne hc hle => exact Nat.le_of_eq (by rw [scan_break_of_lt hc (not_pair_of hne) hle])
  | case6 line here c cs hne hc ih =>
    rw [scan_other (by simpa using hc)]
    exact ih

/-- The walk over the bytes finds the line that the walk over the characters finds, with its number as the counter
holds it. -/
theorem lineAt?_bytesOf {line : Line} (hend : offset ≤ here + byteLength cs)
    (hnumber : o.hold? line.number = some number) :
    lineAt? o offset number line.start here (bytesOf cs) =
      (o.hold? (Line.scan offset line here cs).number).map (·, (Line.scan offset line here cs).start) := by
  have hreturn : '\r'.utf8Size = 1 := rfl
  have hfeed : '\n'.utf8Size = 1 := rfl
  induction line, here, cs using Line.scan.induct offset generalizing number with
  | case1 line here =>
    rw [Line.scan, hnumber]
    exact lineAt?_of_le hend
  | case2 line here cs hle ih =>
    simp only [byteLength, hreturn, hfeed] at hend
    rw [Line.scan_pair hle, bytesOf_pair, lineAt?, if_pos (Nat.lt_of_succ_le hle)]
    have hmono := Line.number_le_scan offset ⟨line.number + 1, here + 2, cs⟩ (here + 2) cs
    exact Overflow.bind_hold?_succ hnumber hmono fun next hnext => ih (by omega) hnext
  | case3 line here cs hle => rw [Line.scan, if_neg hle, bytesOf_pair, lineAt?, if_neg (by omega), hnumber, Option.map_some]
  | case4 line here c cs hne hc hle ih =>
    have hpair := Line.not_pair_of hne
    have hor : c = '\n' ∨ c = '\r' := by simpa [Line.isBreak] using hc
    rw [byteLength, Line.utf8Size_of_isBreak hc] at hend
    have hbreak : lineAt? o offset number line.start here (bytesOf (c :: cs)) =
        (o.hold? (number + 1)).bind fun next => lineAt? o offset next (here + 1) (here + 1) (bytesOf cs) := by
      rcases hor with rfl | rfl
      · exact lineAt?_break (.inl rfl) (by rintro ⟨hb, -⟩; cases hb) hle
      · exact lineAt?_break (.inr rfl) (fun h => hpair ⟨rfl, head?_of_head?_bytesOf h.2⟩) hle
    rw [Line.scan_break hc hpair hle, hbreak]
    have hmono := Line.number_le_scan offset ⟨line.number + 1, here + 1, cs⟩ (here + 1) cs
    exact Overflow.bind_hold?_succ hnumber hmono fun next hnext => ih (by omega) hnext
  | case5 line here c cs hne hc hle =>
    rw [Line.scan_break_of_lt hc (Line.not_pair_of hne) hle, lineAt?_of_le (by omega), hnumber, Option.map_some]
  | case6 line here c cs hne hc ih =>
    have hother : Line.isBreak c = false := by simpa using hc
    rw [byteLength] at hend
    rw [Line.scan_other hother, bytesOf_cons, lineAt?_append fun b hb => plain_of_mem_utf8EncodeChar hother hb,
      String.length_utf8EncodeChar]
    exact ih (by omega) hnumber

/-! ## The line that is cut out -/

/-- A line that is cut out of a source, and the column of an offset on it. -/
structure Excerpt where
  number : Nat
  column : Nat
  start : Nat
  text : List Char

/-- The line with the column of an offset on it. -/
def Line.excerpt (l : Line) (offset : Nat) : Excerpt := ⟨l.number, l.column offset, l.start, l.text⟩

/-- The line of an offset, with what 32 bits hold of its number and of the column. -/
def Excerpt.ofOffset (source : List Char) (offset : Nat) : Excerpt :=
  let line := Line.ofOffset source offset
  ⟨Overflow.low line.number, Overflow.low (line.column offset), line.start, line.text⟩

/-- Cuts the line of an offset out of the source, with its number and its column as the counters hold them. -/
def excerpt? (o : Overflow) (source : List Char) (offset : Nat) : Option Excerpt :=
  let here := lastBoundary source (min offset (byteLength source))
  (lineAt? o here 1 0 0 (bytesOf source)).bind fun line =>
    (dropBytes? line.2 source).bind fun ahead =>
      (slice? source line.2 here).bind fun passed =>
        (o.after? passed.length).bind fun column =>
          (slice? source line.2 (line.2 + byteLength (ahead.takeWhile (!Line.isBreak ·)))).map fun text =>
            ⟨line.1, column, line.2, text⟩

theorem takeWhile_of_lineOf (h : LineOf source offset earlier text rest) :
    (text ++ rest).takeWhile (!Line.isBreak ·) = text :=
  takeWhile_append_of_notAhead (fun c hc => by simp [h.unbroken c hc]) fun c hc => by simp [h.complete c hc]

/-- The text of a line up to a place on it, or between the two characters that end it. -/
theorem LineOf.exists_passed (h : LineOf source here earlier text rest) (hsource : source = front ++ back)
    (hfront : byteLength front = here) : ∃ passed ahead, source = earlier ++ (passed ++ ahead) ∧
      byteLength earlier + byteLength passed = here ∧
      charsWithin (here - byteLength earlier) (text ++ rest) = passed.length := by
  obtain ⟨passed, rfl, hahead⟩ := exists_between (h.source_eq.symm.trans hsource) (by rw [hfront]; exact h.start_le)
  rw [byteLength_append] at hfront
  have hpassed : here - byteLength earlier = byteLength passed := by omega
  exact ⟨passed, back, by rw [hsource, List.append_assoc], hfront, by rw [hpassed, hahead, charsWithin_byteLength]⟩

/-- Only counters go wrong when a line is cut out. -/
theorem excerpt?_eq (o : Overflow) (source : List Char) (offset : Nat) : excerpt? o source offset =
    (o.hold? (Line.ofOffset source offset).number).bind fun number =>
      (o.after? ((Line.ofOffset source offset).passed offset)).map fun column =>
        ⟨number, column, (Line.ofOffset source offset).start, (Line.ofOffset source offset).text⟩ := by
  have hmoved := movedBack_lastBoundary source (min offset (byteLength source))
  rw [hmoved.passed_eq, hmoved.ofOffset_eq]
  unfold excerpt?
  dsimp only
  generalize lastBoundary source (min offset (byteLength source)) = here at hmoved
  obtain ⟨front, back, hsource, hfront⟩ := hmoved.boundary
  obtain ⟨earlier, text, rest, hline, hfound⟩ := hmoved.onBoundary.exists_lineOf
  obtain ⟨passed, ahead, hsplit, hhere, hlength⟩ := hline.exists_passed hsource hfront
  have hplace : lineAt? o here 1 0 0 (bytesOf source) = (o.hold? (breaks earlier + 1)).map (·, byteLength earlier) := by
    have hwalk := @lineAt?_bytesOf source here 0 1 o ⟨1, 0, source⟩ (by rw [Nat.zero_add]; exact hmoved.le_byteLength)
      (o.hold?_of_le (show 1 ≤ Span.maxOffset by decide))
    rwa [show Line.scan here ⟨1, 0, source⟩ 0 source = Line.ofOffset source here from rfl, hfound] at hwalk
  have hdrop : dropBytes? (byteLength earlier) source = some (text ++ rest) := by
    rw [hline.source_eq, dropBytes?_append]
  have hpassed : slice? source (byteLength earlier) here = some passed := by
    rw [← hhere, hsplit, slice?_append]
  have htext : slice? source (byteLength earlier) (byteLength earlier + byteLength text) = some text := by
    rw [hline.source_eq, slice?_append]
  rw [hplace, hfound, Line.passed, Line.text, hlength, takeWhile_of_lineOf hline]
  cases o.hold? (breaks earlier + 1) with
  | none => rfl
  | some number =>
    simp only [Option.map_some, Option.bind_some, hdrop, hpassed, takeWhile_of_lineOf hline, htext]
    cases o.after? passed.length <;> rfl

/-- Before the largest offset there are so few lines and characters that they fit. -/
theorem fits_of_lt {passed : List Char} (hhere : byteLength earlier + byteLength passed = here)
    (h : here < Span.maxOffset) : breaks earlier + 1 ≤ Span.maxOffset ∧ passed.length < Span.maxOffset := by
  have hbreaks := breaks_le_byteLength earlier
  have hlength := length_le_byteLength passed
  omega

theorem MovedBack.fits (h : MovedBack source (min offset (byteLength source)) here) (hlt : here < Span.maxOffset) :
    (Line.ofOffset source offset).number ≤ Span.maxOffset ∧
      (Line.ofOffset source offset).passed offset < Span.maxOffset := by
  obtain ⟨front, back, hsource, hfront⟩ := h.boundary
  obtain ⟨earlier, text, rest, hline, hfound⟩ := h.onBoundary.exists_lineOf
  obtain ⟨passed, -, -, hhere, hlength⟩ := hline.exists_passed hsource hfront
  rw [h.passed_eq, h.ofOffset_eq, hfound, Line.passed, hlength]
  exact fits_of_lt hhere hlt

/-- Before the largest offset nothing is lost of the number and the column. -/
theorem MovedBack.excerpt_eq (h : MovedBack source (min offset (byteLength source)) here) (hlt : here < Span.maxOffset) :
    Excerpt.ofOffset source offset = (Line.ofOffset source offset).excerpt offset := by
  obtain ⟨hnumber, hpassed⟩ := h.fits hlt
  have hcolumn : (Line.ofOffset source offset).column offset ≤ Span.maxOffset := hpassed
  rw [Excerpt.ofOffset, Overflow.low_of_le hnumber, Overflow.low_of_le hcolumn]
  rfl

theorem Excerpt.ofOffset_of_lt (h : byteLength source < Span.maxOffset) (offset : Nat) :
    Excerpt.ofOffset source offset = (Line.ofOffset source offset).excerpt offset := by
  have hmoved := movedBack_lastBoundary source (min offset (byteLength source))
  exact hmoved.excerpt_eq (Nat.lt_of_le_of_lt hmoved.le_byteLength h)

/-- The line of an offset is cut out, or a checked counter runs over, and that takes a place at the largest offset or
behind it. -/
theorem excerpt?_eq_some_or (h : MovedBack source (min offset (byteLength source)) here) (o : Overflow) :
    excerpt? o source offset = some (.ofOffset source offset) ∨
      (excerpt? o source offset = none ∧ o = .panics ∧ Span.maxOffset ≤ here) := by
  rw [excerpt?_eq]
  cases hnumber : o.hold? (Line.ofOffset source offset).number with
  | none =>
    obtain ⟨ho, hlt⟩ := Overflow.hold?_eq_none_iff.1 hnumber
    exact .inr ⟨rfl, ho, by_contra fun hle => Nat.not_lt.2 (h.fits (Nat.lt_of_not_le hle)).1 hlt⟩
  | some number =>
    cases hcolumn : o.after? ((Line.ofOffset source offset).passed offset) with
    | none =>
      obtain ⟨ho, hle⟩ := Overflow.of_after?_eq_none hcolumn
      exact .inr ⟨rfl, ho, by_contra fun hnot => Nat.not_lt.2 hle (h.fits (Nat.lt_of_not_le hnot)).2⟩
    | some column =>
      rw [Overflow.eq_low_of_hold? hnumber, Overflow.eq_low_of_after? hcolumn]
      exact .inl rfl

/-! ## What line it is -/

/-- The excerpt is the line of a place in the source, and its column that of the place, as 32 bits hold them. -/
structure Excerpt.IsLineOf (e : Excerpt) (source : List Char) (here : Nat) (earlier passed rest : List Char) : Prop where
  source_eq : source = earlier ++ (e.text ++ rest)
  start_eq : e.start = byteLength earlier
  starts : e.start = 0 ∨ ∃ t ∈ terminators 0 source, t.stop = e.start
  start_le : e.start ≤ here
  number : e.number = Overflow.low ((terminators 0 source).countP (·.stop ≤ e.start) + 1)
  /-- The text goes on to the next line break or to the end of the source. -/
  unbroken : Unbroken e.text
  complete : ∀ c ∈ rest.head?, Line.isBreak c = true
  /-- What has been passed of the line lies between its start and the place. -/
  passed_eq : ∃ ahead, source = earlier ++ (passed ++ ahead) ∧ e.start + byteLength passed = here
  column : e.column = Overflow.low (passed.length + 1)
  /-- The place is on the line, or at the line feed of a pair that ends the line. -/
  lies : here ≤ e.start + byteLength e.text ∨
    here = e.start + byteLength e.text + 1 ∧ ∃ tail, rest = '\r' :: '\n' :: tail
  /-- Before the largest offset nothing is lost of the number and the column. -/
  fits : here < Span.maxOffset → e.number = (terminators 0 source).countP (·.stop ≤ e.start) + 1 ∧
    e.column = passed.length + 1

/-- A line has as many lines before it as terminators end where it starts or before. -/
theorem LineOf.countP_terminators {earlier text rest : List Char} (h : LineOf source offset earlier text rest) :
    (terminators 0 source).countP (·.stop ≤ byteLength earlier) = breaks earlier := by
  have hearlier : ∀ t ∈ terminators 0 earlier, decide (t.stop ≤ byteLength earlier) = true := by
    intro t ht
    have hwithin := within_of_mem_terminators ht
    exact decide_eq_true (by omega)
  have hahead : ∀ t ∈ terminators (0 + byteLength earlier) (text ++ rest), ¬decide (t.stop ≤ byteLength earlier) = true := by
    intro t ht
    have hwithin := within_of_mem_terminators ht
    rw [decide_eq_true_eq]
    omega
  rw [h.source_eq, terminators_append 0 h.apart, List.countP_append, List.countP_eq_length.2 hearlier,
    List.countP_eq_zero.2 hahead, length_terminators, Nat.add_zero]

/-- A line begins with the source or where a terminator ends. -/
theorem LineOf.starts {earlier text rest : List Char} (h : LineOf source offset earlier text rest) :
    byteLength earlier = 0 ∨ ∃ t ∈ terminators 0 source, t.stop = byteLength earlier := by
  cases hlast : earlier.getLast? with
  | none =>
    rw [List.getLast?_eq_none_iff.1 hlast]
    exact .inl rfl
  | some c =>
    obtain ⟨t, ht, hstop⟩ := exists_terminator_of_getLast? 0 hlast (h.begins c hlast)
    rw [h.source_eq, terminators_append 0 h.apart]
    exact .inr ⟨t, List.mem_append_left _ ht, by rw [hstop, Nat.zero_add]⟩

/-- The line of a place between two characters, as it is cut out. -/
theorem LineOf.isLineOf {passed ahead : List Char} (h : LineOf source here earlier text rest)
    (hsource : source = earlier ++ (passed ++ ahead)) (hhere : byteLength earlier + byteLength passed = here) :
    Excerpt.IsLineOf ⟨Overflow.low (breaks earlier + 1), Overflow.low (passed.length + 1), byteLength earlier, text⟩
      source here earlier passed rest := by
  have hsize : byteLength source = byteLength earlier + byteLength text + byteLength rest := by
    rw [h.source_eq, byteLength_append, byteLength_append, Nat.add_assoc]
  have hsize' : byteLength source = byteLength earlier + byteLength passed + byteLength ahead := by
    rw [hsource, byteLength_append, byteLength_append, Nat.add_assoc]
  refine ⟨h.source_eq, rfl, h.starts, h.start_le, by rw [h.countP_terminators], h.unbroken, h.complete,
    ⟨ahead, hsource, hhere⟩, rfl, ?_, ?_⟩
  · rcases h.lies with hle | rfl | hpair
    · exact .inl hle
    · have hle : here ≤ byteLength earlier + byteLength text := by
        rw [byteLength] at hsize
        omega
      exact .inl hle
    · exact .inr hpair
  · intro hfits
    obtain ⟨hbreaks, hlength⟩ := fits_of_lt hhere hfits
    rw [h.countP_terminators]
    exact ⟨Overflow.low_of_le hbreaks, Overflow.low_of_le hlength⟩

theorem MovedBack.isLineOf (h : MovedBack source (min offset (byteLength source)) here) :
    ∃ earlier passed rest, (Excerpt.ofOffset source offset).IsLineOf source here earlier passed rest := by
  obtain ⟨front, back, hsource, hfront⟩ := h.boundary
  obtain ⟨earlier, text, rest, hline, hfound⟩ := h.onBoundary.exists_lineOf
  obtain ⟨passed, ahead, hsplit, hhere, hlength⟩ := hline.exists_passed hsource hfront
  refine ⟨earlier, passed, rest, ?_⟩
  rw [Excerpt.ofOffset, Line.column, ← Line.passed, h.passed_eq, h.ofOffset_eq, hfound, Line.passed, Line.text, hlength,
    takeWhile_of_lineOf hline]
  exact hline.isLineOf hsplit hhere

end Reckon
