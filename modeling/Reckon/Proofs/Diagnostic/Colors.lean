import Reckon.Diagnostic.Rendering
import Reckon.Proofs.Number.Plain
import Reckon.Proofs.Source.Lines
/-!
# Colours

With colours, some parts of what is written stand between escape sequences, and all else is as it is without: no width
and no padding depends on the colours. `uncolored` deletes every escape sequence from a text. A coloured text `Paints`
a plain one if deleting gives the plain one in front of whatever follows, so this goes from the parts of a text to the
whole. `emitAll_uncolored` says it of all that an emitter writes, and that an emitter writes the same for a diagnostic
whatever it has written before.
-/

namespace Reckon

namespace Text

/-! ## Deleting escape sequences -/

/-- Deletes the escape sequences from a text, where it begins `inside` one or not. A sequence is an escape character
with a bracket behind it, and goes up to the next `m`. If there is none, it is not a sequence. -/
def uncoloredFrom (inside : Bool) : List Char → List Char
  | [] => []
  | c :: cs =>
    if inside then uncoloredFrom (c ≠ 'm') cs
    else if c = '\x1b' ∧ cs.head? = some '[' ∧ 'm' ∈ cs then uncoloredFrom true cs
    else c :: uncoloredFrom false cs

/-- The text without its escape sequences. -/
def uncolored (s : String) : String := String.ofList (uncoloredFrom false s.toList)

/-- There is no escape character in the text. -/
def Clean (s : String) : Prop := '\x1b' ∉ s.toList

instance (s : String) : Decidable (Clean s) := inferInstanceAs (Decidable (_ ∉ _))

/-- Without its escape sequences, the first text is the second one, whatever follows. -/
def Paints (colored plain : String) : Prop :=
  ∀ rest, uncoloredFrom false (colored.toList ++ rest) = plain.toList ++ uncoloredFrom false rest

variable {s t s' t' : String}

theorem uncoloredFrom_clean {cs : List Char} (h : '\x1b' ∉ cs) (rest : List Char) :
    uncoloredFrom false (cs ++ rest) = cs ++ uncoloredFrom false rest := by
  induction cs with
  | nil => rfl
  | cons c cs ih =>
    obtain ⟨hc, hcs⟩ := not_or.1 (mt List.mem_cons.2 h)
    have hplain : ¬(c = '\x1b' ∧ (cs ++ rest).head? = some '[' ∧ 'm' ∈ cs ++ rest) := fun hall => hc hall.1.symm
    rw [List.cons_append, uncoloredFrom, if_neg Bool.false_ne_true, if_neg hplain, ih hcs, List.cons_append]

/-- Inside a sequence, all is deleted up to the next `m`. -/
theorem uncoloredFrom_inside {cs : List Char} (h : 'm' ∉ cs) (rest : List Char) :
    uncoloredFrom true (cs ++ 'm' :: rest) = uncoloredFrom false rest := by
  induction cs with
  | nil => rfl
  | cons c cs ih =>
    obtain ⟨hc, hcs⟩ := not_or.1 (mt List.mem_cons.2 h)
    have hnext : decide (c ≠ 'm') = true := decide_eq_true fun heq => hc heq.symm
    rw [List.cons_append, uncoloredFrom, if_pos rfl, hnext, ih hcs]

namespace Paints

theorem uncolored_eq (h : Paints s t) : uncolored s = t := by
  have hall := h []
  rw [List.append_nil, uncoloredFrom, List.append_nil] at hall
  rw [uncolored, hall, String.ofList_toList]

theorem of_clean (h : Clean s) : Paints s s := uncoloredFrom_clean h

theorem append (h : Paints s t) (h' : Paints s' t') : Paints (s ++ s') (t ++ t') := by
  intro rest
  rw [String.toList_append, List.append_assoc, h, h', String.toList_append, List.append_assoc]

theorem append_clean (h : Paints s t) (u : String) (hu : Clean u) : Paints (s ++ u) (t ++ u) := h.append (of_clean hu)

theorem join {α : Type} {f g : α → String} {xs : List α} (h : ∀ x ∈ xs, Paints (f x) (g x)) :
    Paints (String.join (xs.map f)) (String.join (xs.map g)) := by
  induction xs with
  | nil => exact (of_clean (by decide) : Paints "" "")
  | cons x xs ih =>
    obtain ⟨hx, hxs⟩ := List.forall_mem_cons.1 h
    rw [List.map_cons, List.map_cons, String.join_cons, String.join_cons]
    exact hx.append (ih hxs)

/-- An escape sequence adds nothing. -/
theorem sequence (h : 'm' ∉ s.toList) : Paints ("\x1b[" ++ s ++ "m") "" := by
  intro rest
  have hlist : ("\x1b[" ++ s ++ "m").toList ++ rest = '\x1b' :: '[' :: (s.toList ++ 'm' :: rest) := by
    simp only [String.toList_append, List.append_assoc]
    rfl
  have hopens : '\x1b' = '\x1b' ∧ ('[' :: (s.toList ++ 'm' :: rest)).head? = some '[' ∧ 'm' ∈ '[' :: (s.toList ++ 'm' :: rest) :=
    ⟨rfl, rfl, List.mem_cons_of_mem _ (List.mem_append_right _ List.mem_cons_self)⟩
  rw [hlist, uncoloredFrom, if_neg Bool.false_ne_true, if_pos hopens]
  exact uncoloredFrom_inside (by simpa using h) rest

/-- A paint only adds escape sequences around a text. -/
theorem apply (paint : Paint) (h : Clean s) : Paints (paint.apply true s) (paint.apply false s) := by
  have hopen : Paints ("\x1b[" ++ paint.parameters ++ "m") "" := sequence (by cases paint <;> decide)
  have hclose : Paints "\x1b[0m" "" := sequence (s := "0") (by decide)
  have hall := (hopen.append (of_clean h)).append hclose
  rwa [String.empty_append, String.append_empty] at hall

end Paints

/-! ## Texts without an escape character -/

theorem clean_append : Clean (s ++ t) ↔ Clean s ∧ Clean t := by
  rw [Clean, String.toList_append, List.mem_append, not_or]
  rfl

theorem clean_pushn {c : Char} (h : '\x1b' ≠ c) (n : Nat) : Clean ("".pushn c n) := by
  intro hmem
  rw [Number.toList_pushn] at hmem
  exact h (List.eq_of_mem_replicate hmem)

theorem clean_repr (n : Nat) : Clean n.repr := fun h => absurd (Number.isDigit_of_mem_repr h) (by decide)

theorem clean_rightAligned (width : Nat) (h : Clean s) : Clean (rightAligned width s) :=
  clean_append.2 ⟨clean_pushn (by decide) _, h⟩

end Text

open Text

theorem Code.clean_text (code : Code) : Clean code.text := by
  cases code <;> decide

/-! ## What is shown of a diagnostic -/

namespace Label

variable {l : Label} {source : List Char}

theorem clean_padding (l : Label) (line : Line) : Clean (l.padding line) := by
  unfold Clean padding
  rw [String.toList_ofList, List.mem_map]
  rintro ⟨c, -, hc⟩
  split at hc <;> cases hc

theorem clean_marks (h : Clean l.message) (line : Line) : Clean (l.marks line) := by
  have hmark : '\x1b' ≠ (if l.isPrimary then '^' else '-') := by
    split <;> decide
  refine clean_append.2 ⟨clean_pushn hmark _, ?_⟩
  split
  · decide
  · exact clean_append.2 ⟨by decide, h⟩

/-- A line of a source has no escape character where the source has none. -/
theorem clean_text (h : '\x1b' ∉ source) (l : Label) : Clean (String.ofList (l.line source).text) := by
  intro hmem
  rw [String.toList_ofList] at hmem
  exact h ((Line.chars_ofOffset_suffix source l.span.start).subset ((List.takeWhile_sublist _).subset hmem))

theorem paints_render (hsource : '\x1b' ∉ source) (hmessage : Clean l.message) (gutter : Nat) :
    Paints (l.render true source gutter) (l.render false source gutter) := by
  have hedge : ∀ {s : String}, Clean s → Paints (Paint.secondary.apply true (rightAligned gutter s ++ " |"))
      (Paint.secondary.apply false (rightAligned gutter s ++ " |")) :=
    fun hs => .apply _ (clean_append.2 ⟨clean_rightAligned gutter hs, by decide⟩)
  -- What is painted does not depend on the colours: the numbers, the padding and the marks come of the line alone.
  have hblank := hedge (s := "") (by decide)
  have hnumber := hedge (clean_repr (l.line source).number)
  have hmarks := Paints.apply (if l.isPrimary then Paint.error else Paint.secondary) (clean_marks hmessage (l.line source))
  have hline := (((hblank.append_clean "\n" (by decide)).append hnumber).append_clean " " (by decide)).append_clean _
    (clean_text hsource l)
  have hbelow := ((hline.append_clean "\n" (by decide)).append hblank).append_clean " " (by decide)
  exact ((hbelow.append_clean _ (clean_padding l _)).append hmarks).append_clean _ (by decide)

end Label

namespace Diagnostic

variable {d : Diagnostic} {source : String}

/-- None of the texts that are shown has an escape character in it. -/
structure Clean (d : Diagnostic) (source : String) : Prop where
  source : Text.Clean source
  message : Text.Clean d.message
  labels : ∀ l ∈ d.labels, Text.Clean l.message
  notes : ∀ note ∈ d.notes, Text.Clean note

theorem paints_place (d : Diagnostic) (source : List Char) : Paints (d.place true source) (d.place false source) := by
  unfold place
  cases d.primarySpan? with
  | none => exact (.of_clean (by decide) : Paints "" "")
  | some span =>
    have harrow : Text.Clean (spaces (d.gutter source) ++ "-->") := clean_append.2 ⟨clean_pushn (by decide) _, by decide⟩
    have hline := ((Paints.apply .secondary harrow).append_clean " " (by decide)).append_clean _
      (clean_repr (Line.ofOffset source span.start).number)
    exact ((hline.append_clean _ (by decide)).append_clean _ (clean_repr _)).append_clean _ (by decide)

theorem paints_note {note : String} (h : Text.Clean note) (gutter : Nat) :
    Paints (spaces gutter ++ " = " ++ Paint.strong.apply true "note" ++ ": " ++ note ++ "\n")
      (spaces gutter ++ " = " ++ Paint.strong.apply false "note" ++ ": " ++ note ++ "\n") := by
  have hindent : Text.Clean (spaces gutter ++ " = ") := clean_append.2 ⟨clean_pushn (by decide) _, by decide⟩
  have hnote := ((Paints.of_clean hindent).append (.apply .strong (s := "note") (by decide))).append_clean ": " (by decide)
  exact (hnote.append_clean _ h).append_clean _ (by decide)

theorem paints_render (h : d.Clean source) : Paints (d.render true source) (d.render false source) := by
  have hcode : Text.Clean ("[" ++ d.code.text ++ "]") :=
    clean_append.2 ⟨clean_append.2 ⟨by decide, d.code.clean_text⟩, by decide⟩
  have hcoded := (Paints.apply .error (s := "error") (by decide)).append (.apply .strong hcode)
  have hhead := (hcoded.append_clean ": " (by decide)).append_clean _ h.message
  have hlabels := Paints.join fun l hl => Label.paints_render (l := l) h.source (h.labels l hl) (d.gutter source.toList)
  have hnotes := Paints.join fun note hnote => paints_note (h.notes note hnote) (d.gutter source.toList)
  have hplace := (hhead.append_clean "\n" (by decide)).append (d.paints_place source.toList)
  exact ((hplace.append hlabels).append hnotes).append_clean _ (by decide)

end Diagnostic

/-! ## What an emitter writes -/

namespace Emitter

variable {e e' : Emitter} {d : Diagnostic} {source : String} {reports : List (Diagnostic × String)}

/-- Writes diagnostics one after another, each with its source. -/
def emitAll (e : Emitter) (reports : List (Diagnostic × String)) : Emitter := reports.foldl (fun e r => e.emit r.1 r.2) e

theorem colors_emit : (e.emit d source).colors = e.colors := rfl

theorem colors_emitAll : (e.emitAll reports).colors = e.colors := by
  induction reports generalizing e with
  | nil => rfl
  | cons r reports ih => exact ih.trans colors_emit

/-- An emitter adds to what it has written what one with nothing written to it writes. -/
theorem written_emit (he : e.colors = e'.colors) (h : e'.written = "") :
    (e.emit d source).written = e.written ++ (e'.emit d source).written := by
  rw [emit, emit, h, he, String.empty_append]

/-- Two emitters, of which the one with colours paints what the other one has written, go on like this. -/
theorem paints_emit (he : e.colors = true) (he' : e'.colors = false) (hd : d.Clean source) (h : Paints e.written e'.written) :
    Paints (e.emit d source).written (e'.emit d source).written := by
  rw [emit, emit, he, he']
  exact h.append (Diagnostic.paints_render hd)

theorem paints_emitAll (he : e.colors = true) (he' : e'.colors = false) (hall : ∀ r ∈ reports, r.1.Clean r.2)
    (h : Paints e.written e'.written) : Paints (e.emitAll reports).written (e'.emitAll reports).written := by
  induction reports generalizing e e' with
  | nil => exact h
  | cons r reports ih =>
    obtain ⟨hr, hreports⟩ := List.forall_mem_cons.1 hall
    exact ih he he' hreports (paints_emit he he' hr h)

/-- What is written with colours is what is written without, but for escape sequences, for each diagnostic and for all
of them together. And whatever has been written before, what a diagnostic adds to it is what is written for it alone.
-/
theorem emitAll_uncolored {mode mode' : ColorMode} {isTerminal isTerminal' : Bool} (hcolors : mode.colors isTerminal = true)
    (hplain : mode'.colors isTerminal' = false) (hclean : ∀ r ∈ reports, r.1.Clean r.2) :
    (∀ r ∈ reports, uncolored ((ofMode mode isTerminal).emit r.1 r.2).written =
      ((ofMode mode' isTerminal').emit r.1 r.2).written) ∧
    uncolored ((ofMode mode isTerminal).emitAll reports).written = ((ofMode mode' isTerminal').emitAll reports).written ∧
    ∀ mode isTerminal earlier d source, (((ofMode mode isTerminal).emitAll earlier).emit d source).written =
      ((ofMode mode isTerminal).emitAll earlier).written ++ ((ofMode mode isTerminal).emit d source).written := by
  have hstart : Paints (ofMode mode isTerminal).written (ofMode mode' isTerminal').written :=
    .of_clean (by decide : Clean "")
  refine ⟨fun r hr => (paints_emit hcolors hplain (hclean r hr) hstart).uncolored_eq,
    (paints_emitAll hcolors hplain hclean hstart).uncolored_eq, fun mode isTerminal earlier d source => ?_⟩
  exact written_emit colors_emitAll rfl

/-- A diagnostic with a label and a note, written in colours and to what is not a terminal. -/
theorem emitAll_uncolored_note :
    let reports : List (Diagnostic × String) := [(⟨.unexpectedToken, "no", [⟨⟨1, 3⟩, "here", true⟩], ["try it"]⟩, "\tπ+")]
    (ColorMode.always.colors false = true ∧ ColorMode.auto.colors false = false ∧ ∀ r ∈ reports, r.1.Clean r.2) ∧
      (∀ r ∈ reports, uncolored ((ofMode .always false).emit r.1 r.2).written = ((ofMode .auto false).emit r.1 r.2).written) ∧
      uncolored ((ofMode .always false).emitAll reports).written = ((ofMode .auto false).emitAll reports).written ∧
      ∀ mode isTerminal earlier d source, (((ofMode mode isTerminal).emitAll earlier).emit d source).written =
        ((ofMode mode isTerminal).emitAll earlier).written ++ ((ofMode mode isTerminal).emit d source).written := by
  have hclean : ∀ r ∈ [((⟨.unexpectedToken, "no", [⟨⟨1, 3⟩, "here", true⟩], ["try it"]⟩, "\tπ+") : Diagnostic × String)],
      r.1.Clean r.2 := List.forall_mem_singleton.2 ⟨by decide, by decide, by decide, by decide⟩
  exact ⟨⟨rfl, rfl, hclean⟩, emitAll_uncolored rfl rfl hclean⟩

end Emitter

end Reckon
