import Reckon.Diagnostic.Rendering
import Reckon.Proofs.Token.Locations
import Reckon.Proofs.Token.Offsets
/-!
# The place that is shown of an error

An error carries a location, which the tracker has counted on the way, and is shown with a line and a column, which
are counted again from the source. `place_agrees` says that the lines are the same and that the columns differ by what
tabs make out: the tracker takes four columns for a tab, and what is shown counts characters.
-/

namespace Reckon

/-! ## Small counters -/

theorem breaks_le_byteLength (cs : List Char) : breaks cs ≤ byteLength cs := by
  induction cs using breaks.induct with
  | case1 => exact Nat.le_refl _
  | case2 cs ih =>
    have hpos := '\r'.utf8Size_pos
    rw [breaks, byteLength, byteLength]
    omega
  | case3 c cs hne hc ih | case4 c cs hne hc ih =>
    have hpos := c.utf8Size_pos
    have hpair : ¬(c = '\r' ∧ cs.head? = some '\n') := by
      rintro ⟨rfl, hfeed⟩
      obtain ⟨tail, rfl⟩ := List.head?_eq_some_iff.1 hfeed
      exact hne tail rfl rfl
    rw [breaks_cons hpair, byteLength]
    split <;> omega

theorem length_le_byteLength (cs : List Char) : cs.length ≤ byteLength cs := by
  induction cs with
  | nil => exact Nat.le_refl _
  | cons c cs ih =>
    have hpos := c.utf8Size_pos
    rw [List.length_cons, byteLength]
    omega

theorem bounded_behind (cs : List Char) : (Location.behind cs).Bounded := by
  have hbreaks := breaks_le_byteLength cs
  have hlength := length_le_byteLength cs
  have hline : (lastLine cs).length ≤ cs.length := by
    have hsplit := congrArg List.length (earlierLines_append_lastLine cs)
    rw [List.length_append] at hsplit
    omega
  have htabs : (lastLine cs).count '\t' ≤ (lastLine cs).length := List.count_le_length
  refine ⟨Nat.succ_le_succ hbreaks, ?_⟩
  simp only [Location.behind, columns_eq]
  omega

/-! ## What is shown -/

namespace Diagnostic

/-- What is shown of the diagnostic begins with its headline and the place given by a line and a column. -/
def ShowsPlace (d : Diagnostic) (source : String) (line column : Nat) : Prop :=
  ∀ colors, ∃ rest, d.render colors source =
    Paint.error.apply colors "error" ++ Paint.strong.apply colors ("[" ++ d.code.text ++ "]") ++ ": " ++ d.message ++ "\n" ++
      (Paint.secondary.apply colors (Text.spaces (d.gutter source.toList) ++ "-->") ++ " " ++ line.repr ++ ":" ++
        column.repr ++ "\n") ++ rest

theorem showsPlace {d : Diagnostic} {span : Span} (h : d.primarySpan? = some span) (source : String) :
    d.ShowsPlace source (Line.ofOffset source.toList span.start).number
      ((Line.ofOffset source.toList span.start).column span.start) := by
  intro colors
  unfold render place
  simp only [h]
  exact ⟨_, by rw [String.append_assoc, String.append_assoc]⟩

end Diagnostic

theorem LexError.primarySpan?_diagnostic (e : LexError) : e.diagnostic.primarySpan? = some e.span := by
  obtain ⟨kind, span, location⟩ := e
  cases kind <;> rfl

theorem ParseError.primarySpan?_diagnostic (e : ParseError) : e.diagnostic.primarySpan? = some e.span := by
  obtain ⟨kind, span, location⟩ := e
  cases kind with
  | trailingInput found => cases found <;> rfl
  | _ => rfl

/-! ## Errors in a source -/

/-- An error of the lexer or of the parser in a source, by its report, its span and its location. -/
inductive Misread (r : Registry) (source : String) : Diagnostic → Span → Location → Prop
  | lex {e} : Token.lex r source = .error e → Misread r source e.diagnostic e.span e.location
  | parse {tokens e} : Token.lex r source = .ok tokens → Expr.ofTokens tokens = .error e →
      Misread r source e.diagnostic e.span e.location

variable {r : Registry} {source : String} {d : Diagnostic} {span : Span} {l : Location}

theorem Misread.primarySpan? (h : Misread r source d span l) : d.primarySpan? = some span := by
  cases h with
  | lex _ => exact LexError.primarySpan?_diagnostic _
  | parse _ _ => exact ParseError.primarySpan?_diagnostic _

theorem Misread.located (h : Misread r source d span l) : Located source.toList span.start l := by
  cases h with
  | lex hl =>
    have hall := Token.allLocated_lex r source
    rw [hl] at hall
    exact hall
  | parse hl he =>
    obtain ⟨t, ht, hspan, hlocation⟩ := exists_token_of_error hl he
    have hall := Token.allLocated_lex r source
    rw [hl] at hall
    rw [hspan, hlocation]
    exact hall t ht

/-- The location of an error and the place that is shown for it. Its line begins behind `earlier`, and `line` is what
stands on it before the error. -/
structure PlaceAgrees (source : String) (d : Diagnostic) (span : Span) (l : Location) (earlier line : List Char) : Prop where
  offset : l.offset = span.start
  before : ∃ after, source.toList = earlier ++ line ++ after ∧ byteLength (earlier ++ line) = span.start
  start : (Line.ofOffset source.toList span.start).start = byteLength earlier
  begins : ∀ c ∈ earlier.getLast?, c = '\n' ∨ c = '\r'
  unbroken : ∀ c ∈ line, c ≠ '\n' ∧ c ≠ '\r'
  /-- The columns do not run below one. -/
  tabs : 3 * line.count '\t' < l.column
  shown : d.ShowsPlace source l.line (l.column - 3 * line.count '\t')
  fits : l.line ≤ Span.maxOffset ∧ l.column ≤ Span.maxOffset ∧ l.offset ≤ Span.maxOffset

/-- For every error of the lexer and the parser, the line that is shown is that of its location, and the column is
less by three for each tab before the error on its line. -/
theorem place_agrees (hsize : source.utf8ByteSize < 2 ^ 30) (h : Misread r source d span l) :
    ∃ earlier line, PlaceAgrees source d span l earlier line := by
  have hshown := Diagnostic.showsPlace h.primarySpan? source
  obtain ⟨before, after, hsource, hoffset, rfl, hbreak⟩ := h.located
  have hline := Line.ofOffset_eq hbreak
  have hcolumn := Line.column_ofOffset hbreak
  rw [← hsource, hoffset] at hline hcolumn
  rw [hcolumn, hline] at hshown
  have hsplit := earlierLines_append_lastLine before
  have hcolumns : (Location.behind before).column = (lastLine before).length + 3 * (lastLine before).count '\t' + 1 := by
    rw [Location.behind, columns_eq]
  refine ⟨earlierLines before, lastLine before, hoffset, ⟨after, by rw [hsplit, hsource], by rw [hsplit, hoffset]⟩,
    by rw [hline], fun c hc => ?_, fun c hc => ?_, by omega, ?_, ?_⟩
  · simpa [Line.isBreak] using isBreak_of_getLast?_earlierLines hc
  · simpa [Line.isBreak] using unbroken_lastLine before c hc
  · have hchars : (Location.behind before).column - 3 * (lastLine before).count '\t' = (lastLine before).length + 1 := by
      omega
    rw [hchars]
    exact hshown
  · have hbounded := bounded_behind before
    have hle : (Location.behind before).offset ≤ source.utf8ByteSize := by
      rw [← byteLength_toList, hsource, byteLength_append]
      exact Nat.le_add_right _ _
    have hl := hbounded.line
    have hc := hbounded.column
    unfold Span.maxOffset
    omega

/-- An operand that is missing at the end of a source, on a line with a tab. -/
theorem place_agrees_tab : "(1\r\n\t+ ".utf8ByteSize < 2 ^ 30 ∧ ∃ d span, Misread .standard "(1\r\n\t+ " d span ⟨2, 7, 7⟩ ∧
    ∃ earlier line, PlaceAgrees "(1\r\n\t+ " d span ⟨2, 7, 7⟩ earlier line := by
  have hlocation : (Token.lex .standard "(1\r\n\t+ ").toOption.map (fun tokens => match Expr.ofTokens tokens with
      | .ok _ => none
      | .error e => some e.location) = some (some ⟨2, 7, 7⟩) := by decide +kernel
  cases hl : Token.lex .standard "(1\r\n\t+ " with
  | error e =>
    rw [hl] at hlocation
    cases hlocation
  | ok tokens =>
    rw [hl] at hlocation
    cases he : Expr.ofTokens tokens with
    | ok e => simp [Except.toOption, he] at hlocation
    | error e =>
      have hplace : e.location = ⟨2, 7, 7⟩ := by simpa [Except.toOption, he] using hlocation
      have hmisread := Misread.parse hl he
      rw [hplace] at hmisread
      exact ⟨by decide, _, _, hmisread, place_agrees (by decide) hmisread⟩

end Reckon
