import Reckon.Proofs.Source.Counting
/-!
# The line that is shown of an offset

An offset between two characters, or behind the end of the source, has a line to be shown: the whole line that it lies
on, where a line break belongs to the line that it ends, and the last line for what is behind the end. `LineOf` says
which part of the source this is, and `exists_lineOf` that `Line.ofOffset` finds it. What the walk over the source
asks of an offset is only which line breaks end at or before it, so two offsets with the same answers have the same
line (`scan_congr`).
-/

namespace Reckon

variable {source front back front' back' : List Char}

/-! ## Parts by their bytes -/

theorem eq_nil_of_byteLength_eq_zero (h : byteLength front = 0) : front = [] := by
  cases front with
  | nil => rfl
  | cons c cs =>
    have hpos := c.utf8Size_pos
    rw [byteLength] at h
    omega

/-- Of two fronts of a source, the longer one goes on where the other ends. -/
theorem exists_between (h : front ++ back = front' ++ back') (hle : byteLength front ≤ byteLength front') :
    ∃ between, front' = front ++ between ∧ back = between ++ back' := by
  rcases List.append_eq_append_iff.1 h with ⟨between, hfront, hback⟩ | ⟨between, hfront, hback⟩
  · exact ⟨between, hfront, hback⟩
  · have hzero : byteLength between = 0 := by
      rw [hfront, byteLength_append] at hle
      omega
    obtain rfl := eq_nil_of_byteLength_eq_zero hzero
    rw [List.append_nil] at hfront
    exact ⟨[], by rw [hfront, List.append_nil], hback.symm⟩

theorem eq_of_byteLength_eq (h : front ++ back = front' ++ back') (heq : byteLength front = byteLength front') :
    front = front' ∧ back = back' := by
  obtain ⟨between, rfl, rfl⟩ := exists_between h (Nat.le_of_eq heq)
  have hzero : byteLength between = 0 := by
    rw [byteLength_append] at heq
    omega
  obtain rfl := eq_nil_of_byteLength_eq_zero hzero
  exact ⟨(List.append_nil _).symm, rfl⟩

/-- Where there are enough bytes, all characters fit. -/
theorem charsWithin_of_le {budget : Nat} {cs : List Char} (h : byteLength cs ≤ budget) : charsWithin budget cs = cs.length := by
  induction cs generalizing budget with
  | nil => rfl
  | cons c cs ih =>
    rw [byteLength] at h
    rw [charsWithin, if_pos (by omega), ih (by omega), List.length_cons]

/-! ## Lines -/

theorem NotInBreak.cons {c : Char} (h : NotInBreak front back) (hpair : ¬(c = '\r' ∧ (front ++ back).head? = some '\n')) :
    NotInBreak (c :: front) back := by
  rintro ⟨hlast, hfeed⟩
  cases front with
  | nil => exact hpair ⟨of_decide_eq_true (by simpa [endsInReturn] using hlast), hfeed⟩
  | cons d front => exact h ⟨by rwa [endsInReturn_cons_cons] at hlast, hfeed⟩

theorem NotInBreak.cons_cons {d : Char} (h : NotInBreak (d :: front) back) (c : Char) : NotInBreak (c :: d :: front) back := by
  rintro ⟨hlast, hfeed⟩
  exact h ⟨by rwa [endsInReturn_cons_cons] at hlast, hfeed⟩

namespace Line

variable {line : Line} {offset offset' here : Nat} {cs : List Char} {c : Char}

theorem not_pair_of (h : ∀ tail, c = '\r' → cs = '\n' :: tail → False) : ¬(c = '\r' ∧ cs.head? = some '\n') := by
  rintro ⟨hc, hhead⟩
  obtain ⟨tail, hcs⟩ := List.head?_eq_some_iff.1 hhead
  exact h tail hc hcs

theorem scan_break_of_lt (hc : isBreak c = true) (hpair : ¬(c = '\r' ∧ cs.head? = some '\n')) (h : ¬here + 1 ≤ offset) :
    scan offset line here (c :: cs) = line := by
  rw [scan, if_pos hc, if_neg h]
  rintro cs' rfl rfl
  exact hpair ⟨rfl, rfl⟩

/-- What matters of an offset is which parts of the source end at or before it, of those that do not end inside a line
break. -/
theorem scan_congr (h : ∀ front back, cs = front ++ back → NotInBreak front back →
      (here + byteLength front ≤ offset ↔ here + byteLength front ≤ offset')) :
    scan offset line here cs = scan offset' line here cs := by
  have hreturn : '\r'.utf8Size = 1 := rfl
  have hfeed : '\n'.utf8Size = 1 := rfl
  induction line, here, cs using scan.induct offset with
  | case1 line here => rw [scan, scan]
  | case2 line here cs hle ih =>
    have hpair := h ['\r', '\n'] cs rfl (by rintro ⟨hlast, -⟩; cases hlast)
    simp only [byteLength, hreturn, hfeed] at hpair
    rw [scan_pair hle, scan_pair (hpair.1 hle)]
    refine ih fun front back hcs hbreak => ?_
    have hnext : NotInBreak ('\n' :: front) back := hbreak.cons (by rintro ⟨hc, -⟩; cases hc)
    have hfront := h ('\r' :: '\n' :: front) back (by rw [hcs]; rfl) (hnext.cons_cons _)
    simp only [byteLength, hreturn, hfeed] at hfront
    omega
  | case3 line here cs hle =>
    have hpair := h ['\r', '\n'] cs rfl (by rintro ⟨hlast, -⟩; cases hlast)
    simp only [byteLength, hreturn, hfeed] at hpair
    rw [scan, if_neg hle, scan, if_neg ((not_congr hpair).1 hle)]
  | case4 line here c cs hne hc hle ih =>
    have hsize := utf8Size_of_isBreak hc
    have hpair := not_pair_of hne
    have hone := h [c] cs rfl (NotInBreak.cons (by rintro ⟨hlast, -⟩; cases hlast) hpair)
    simp only [byteLength, hsize] at hone
    rw [scan_break hc hpair hle, scan_break hc hpair (hone.1 hle)]
    refine ih fun front back hcs hbreak => ?_
    have hfront := h (c :: front) back (by rw [hcs]; rfl) (hbreak.cons (by rwa [← hcs]))
    simp only [byteLength, hsize] at hfront
    omega
  | case5 line here c cs hne hc hle =>
    have hsize := utf8Size_of_isBreak hc
    have hpair := not_pair_of hne
    have hone := h [c] cs rfl (NotInBreak.cons (by rintro ⟨hlast, -⟩; cases hlast) hpair)
    simp only [byteLength, hsize] at hone
    rw [scan_break_of_lt hc hpair hle, scan_break_of_lt hc hpair ((not_congr hone).1 hle)]
  | case6 line here c cs hne hc ih =>
    have hpair := not_pair_of hne
    rw [scan_other (by simpa using hc), scan_other (by simpa using hc)]
    refine ih fun front back hcs hbreak => ?_
    have hfront := h (c :: front) back (by rw [hcs]; rfl) (hbreak.cons (by rwa [← hcs]))
    simp only [byteLength] at hfront
    omega

/-- Behind the end of the source nothing changes any more. -/
theorem ofOffset_of_le (h : byteLength source ≤ offset) : ofOffset source offset = ofOffset source (byteLength source) := by
  refine scan_congr fun front back hsource _ => ?_
  have hsize := byteLength_append front back
  rw [← hsource] at hsize
  omega

/-- The line that is found goes on with the source. -/
theorem chars_scan_suffix (hline : line.chars <:+ source) (hcs : cs <:+ source) :
    (scan offset line here cs).chars <:+ source := by
  induction line, here, cs using scan.induct offset with
  | case1 line here => rwa [scan]
  | case2 line here cs hle ih =>
    have htail : cs <:+ source := ((List.suffix_cons _ _).trans (List.suffix_cons _ _)).trans hcs
    rw [scan_pair hle]
    exact ih htail htail
  | case3 line here cs hle => rwa [scan, if_neg hle]
  | case4 line here c cs hne hc hle ih =>
    have htail : cs <:+ source := (List.suffix_cons _ _).trans hcs
    rw [scan_break hc (not_pair_of hne) hle]
    exact ih htail htail
  | case5 line here c cs hne hc hle => rwa [scan_break_of_lt hc (not_pair_of hne) hle]
  | case6 line here c cs hne hc ih =>
    rw [scan_other (by simpa using hc)]
    exact ih hline ((List.suffix_cons _ _).trans hcs)

theorem chars_ofOffset_suffix (source : List Char) (offset : Nat) : (ofOffset source offset).chars <:+ source :=
  chars_scan_suffix (List.suffix_refl _) (List.suffix_refl _)

end Line

/-! ## Offsets that have a line -/

/-- The offset lies between two characters of the source, at one of its ends, or behind it. -/
inductive OnBoundary (source : List Char) : Nat → Prop
  | between {front back : List Char} : source = front ++ back → OnBoundary source (byteLength front)
  | behind {offset : Nat} : byteLength source ≤ offset → OnBoundary source offset

/-- The line of an offset, with what comes before it in the source and what comes behind it. -/
structure LineOf (source : List Char) (offset : Nat) (earlier text rest : List Char) : Prop where
  source_eq : source = earlier ++ (text ++ rest)
  /-- The line begins at the start of the source or behind a line break, which is not cut in two. -/
  begins : ∀ c ∈ earlier.getLast?, Line.isBreak c = true
  apart : NotInBreak earlier (text ++ rest)
  /-- The line goes on to the next line break or to the end of the source. -/
  unbroken : Unbroken text
  complete : ∀ c ∈ rest.head?, Line.isBreak c = true
  start_le : byteLength earlier ≤ offset
  /-- The offset is on the line, behind the end of the source, or between a carriage return and a line feed that end
  the line. -/
  lies : offset ≤ byteLength earlier + byteLength text ∨ rest = [] ∨
    offset = byteLength earlier + byteLength text + 1 ∧ ∃ tail, rest = '\r' :: '\n' :: tail

variable {offset : Nat} {before after : List Char}

theorem breaks_append_of_unbroken (cs : List Char) {ds : List Char} (h : Unbroken ds) : breaks (cs ++ ds) = breaks cs := by
  induction ds generalizing cs with
  | nil => rw [List.append_nil]
  | cons d ds ih =>
    obtain ⟨hd, hds⟩ := List.forall_mem_cons.1 h
    rw [List.append_cons, ih _ hds, breaks_append_singleton, hd]
    rfl

/-- An offset inside a line break, or behind the end, has the line of the last place before it that is not. -/
theorem OnBoundary.exists_before (h : OnBoundary source offset) : ∃ before after, source = before ++ after ∧
    NotInBreak before after ∧ Line.ofOffset source offset = Line.ofOffset source (byteLength before) ∧
    (offset = byteLength before ∨ (after = [] ∧ byteLength before ≤ offset) ∨
      offset = byteLength before + 1 ∧ ∃ tail, after = '\r' :: '\n' :: tail) := by
  cases h with
  | @between front back hsource =>
    by_cases hbreak : NotInBreak front back
    · exact ⟨front, back, hsource, hbreak, rfl, .inl rfl⟩
    · obtain ⟨hlast, hhead⟩ := Decidable.not_not.1 hbreak
      obtain ⟨before, rfl⟩ := List.getLast?_eq_some_iff.1 (of_decide_eq_true hlast)
      obtain ⟨tail, rfl⟩ := List.head?_eq_some_iff.1 hhead
      have hsize : byteLength (before ++ ['\r']) = byteLength before + 1 := byteLength_append before ['\r']
      have hbefore : NotInBreak before ('\r' :: '\n' :: tail) := by
        rintro ⟨-, hfeed⟩
        cases hfeed
      refine ⟨before, '\r' :: '\n' :: tail, by rw [hsource, List.append_assoc]; rfl, hbefore, ?_, .inr (.inr ⟨hsize, tail, rfl⟩)⟩
      refine Line.scan_congr fun front' back' hsource' hbreak' => ?_
      have hne : byteLength front' ≠ byteLength (before ++ ['\r']) := by
        intro heq
        obtain ⟨rfl, rfl⟩ := eq_of_byteLength_eq (hsource'.symm.trans hsource) heq
        exact hbreak hbreak'
      omega
  | behind hle =>
    have hend : NotInBreak source [] := by
      rintro ⟨-, hfeed⟩
      cases hfeed
    exact ⟨source, [], (List.append_nil _).symm, hend, Line.ofOffset_of_le hle, .inr (.inl ⟨rfl, hle⟩)⟩

/-- Every offset that is not inside a character has a line, and that is the one that is found. -/
theorem OnBoundary.exists_lineOf (h : OnBoundary source offset) : ∃ earlier text rest, LineOf source offset earlier text rest ∧
    Line.ofOffset source offset = ⟨breaks earlier + 1, byteLength earlier, text ++ rest⟩ := by
  obtain ⟨before, after, hsource, hbreak, hline, hoffset⟩ := h.exists_before
  have hsplit := earlierLines_append_lastLine before
  have hafter := List.takeWhile_append_dropWhile (p := (!Line.isBreak ·)) (l := after)
  have hunbroken : Unbroken (after.takeWhile (!Line.isBreak ·)) := fun c hc => by simpa using mem_takeWhile hc
  have hwhole : lastLine before ++ after.takeWhile (!Line.isBreak ·) ++ after.dropWhile (!Line.isBreak ·) =
      lastLine before ++ after := by
    rw [List.append_assoc, hafter]
  have hsize : byteLength before = byteLength (earlierLines before) + byteLength (lastLine before) := by
    rw [← byteLength_append, hsplit]
  have hbreaks : breaks before = breaks (earlierLines before) := by
    rw [← breaks_append_of_unbroken (earlierLines before) (unbroken_lastLine before), hsplit]
  refine ⟨earlierLines before, lastLine before ++ after.takeWhile (!Line.isBreak ·), after.dropWhile (!Line.isBreak ·), ?_, ?_⟩
  · refine ⟨?_, fun c hc => isBreak_of_getLast?_earlierLines hc, ?_, ?_, ?_, ?_, ?_⟩
    · rw [hwhole, ← List.append_assoc, hsplit, hsource]
    · rw [hwhole]
      cases hlast : lastLine before with
      | nil =>
        rw [hlast, List.append_nil] at hsplit
        rwa [hsplit]
      | cons d ds =>
        rintro ⟨-, hfeed⟩
        cases hfeed
        have hd := unbroken_lastLine before '\n' (by rw [hlast]; exact List.mem_cons_self)
        cases hd
    · exact fun c hc => (List.mem_append.1 hc).elim (unbroken_lastLine before c) (hunbroken c)
    · intro c hc
      simpa using notAhead_dropWhile (!Line.isBreak ·) after c hc
    · omega
    · rw [byteLength_append]
      rcases hoffset with hoffset | ⟨rfl, -⟩ | ⟨hoffset, tail, rfl⟩
      · exact .inl (by omega)
      · exact .inr (.inl rfl)
      · have htake : ('\r' :: '\n' :: tail).takeWhile (!Line.isBreak ·) = [] := rfl
        rw [htake, byteLength]
        exact .inr (.inr ⟨by omega, tail, rfl⟩)
  · rw [hline, hsource, Line.ofOffset_eq hbreak, hwhole, hbreaks]

end Reckon
