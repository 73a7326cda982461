import Mathlib.Data.List.Forall2
import Reckon.Proofs.Diagnostic.Excerpt
import Reckon.Proofs.Number.Plain
/-!
# Marks under a line

A label is shown under the line that it starts on, with marks below the characters that it covers there. How many
characters these are is counted by how many fit into so many bytes, which always comes to something. Seen from below,
the line and its parts are cut out of the source by offsets, and an offset behind the end or inside a character is
fatal, as are bounds that are crossed and, with overflow checks, counters that run over. `render?` renders in this way
and gives nothing when something has gone wrong. `emit_shown` says that nothing does where labels begin and end
between characters or behind the end, and what is shown of each label then.
-/

namespace Reckon

/-! ## Cutting a source -/

/-- The number between two bounds that is next to `n`, unless the bounds are crossed. -/
def clamp? (n low high : Nat) : Option Nat := if low ≤ high then some (max low (min n high)) else none

/-- The difference, unless it is less than zero. -/
def sub? (m n : Nat) : Option Nat := if n ≤ m then some (m - n) else none

namespace Label

/-- Cuts out what the line has before the label, and what it has of the label. -/
def cut? (l : Label) (source : List Char) (line : Excerpt) : Option (List Char × List Char) :=
  let lineStop := line.start + byteLength line.text
  (clamp? l.span.start line.start lineStop).bind fun start =>
    (sub? start line.start).bind fun indent =>
      (slice? line.text 0 indent).bind fun before =>
        (clamp? l.span.stop start lineStop).bind fun stop =>
          (slice? source start stop).map fun covered => (before, covered)

/-- A label on a line: the line behind its number, and below it a tab for each tab before the label, a space for each
other character before it, and so many marks. -/
def layout (l : Label) (colors : Bool) (gutter number : Nat) (text before : List Char) (width : Nat) : String :=
  let edge (s : String) := Paint.secondary.apply colors (Text.rightAligned gutter s ++ " |")
  let paint : Paint := if l.isPrimary then .error else .secondary
  edge "" ++ "\n" ++ edge number.repr ++ " " ++ String.ofList text ++ "\n" ++
    edge "" ++ " " ++ String.ofList (before.map fun c => if c = '\t' then '\t' else ' ') ++
    paint.apply colors ("".pushn (if l.isPrimary then '^' else '-') width ++
      (if l.message = "" then "" else " " ++ l.message)) ++ "\n"

/-- The label under its line, where both are cut out of the source. -/
def render? (o : Overflow) (l : Label) (colors : Bool) (source : List Char) (gutter : Nat) : Option String :=
  (excerpt? o source l.span.start).bind fun line =>
    (l.cut? source line).map fun parts =>
      l.layout colors gutter line.number line.text parts.1 (max 1 parts.2.length)

end Label

namespace Diagnostic

/-- The width of the gutter, from lines that are cut out of the source. -/
def gutter? (o : Overflow) (d : Diagnostic) (source : List Char) : Option Nat :=
  (d.labels.mapM fun (l : Label) => (excerpt? o source l.span.start).map (·.number)).map fun numbers =>
    (numbers.foldl max 1).repr.length

/-- The place of the first primary label, from a line that is cut out of the source. -/
def place? (o : Overflow) (d : Diagnostic) (colors : Bool) (source : List Char) (gutter : Nat) : Option String :=
  d.primarySpan?.elim (some "") fun span =>
    (excerpt? o source span.start).map fun line =>
      Paint.secondary.apply colors (Text.spaces gutter ++ "-->") ++ " " ++ line.number.repr ++ ":" ++ line.column.repr ++ "\n"

/-- What is shown above the labels. -/
def above (d : Diagnostic) (colors : Bool) (place : String) : String :=
  Paint.error.apply colors "error" ++ Paint.strong.apply colors ("[" ++ d.code.text ++ "]") ++ ": " ++ d.message ++ "\n" ++
    place

/-- What is shown below the labels. -/
def below (d : Diagnostic) (colors : Bool) (gutter : Nat) : String :=
  String.join (d.notes.map fun note =>
    Text.spaces gutter ++ " = " ++ Paint.strong.apply colors "note" ++ ": " ++ note ++ "\n") ++ "\n"

/-- The diagnostic as it is shown, where all lines are cut out of the source. -/
def render? (o : Overflow) (d : Diagnostic) (colors : Bool) (source : String) : Option String :=
  (d.gutter? o source.toList).bind fun gutter =>
    (d.place? o colors source.toList gutter).bind fun place =>
      (d.labels.mapM fun (l : Label) => l.render? o colors source.toList gutter).map fun blocks =>
        d.above colors place ++ String.join blocks ++ d.below colors gutter

end Diagnostic

/-! ## Offsets where a source can be cut -/

variable {source earlier text rest front back : List Char} {offset here : Nat} {o : Overflow}

theorem onBoundary_iff : OnBoundary source offset ↔ (dropBytes? offset source).isSome ∨ byteLength source ≤ offset := by
  constructor
  · intro h
    cases h with
    | between hsource => exact .inl (by rw [hsource, dropBytes?_append]; rfl)
    | behind hle => exact .inr hle
  · rintro (h | h)
    · obtain ⟨cs, hcs⟩ := Option.isSome_iff_exists.1 h
      obtain ⟨front, hsource, rfl⟩ := exists_front_of_dropBytes? hcs
      exact .between hsource
    · exact .behind h

instance : Decidable (OnBoundary source offset) := decidable_of_iff _ onBoundary_iff.symm

/-! ## A line that is cut at an offset -/

/-- The characters of a text, each with its offset. -/
def offsetsFrom (here : Nat) : List Char → List (Nat × Char)
  | [] => []
  | c :: cs => (here, c) :: offsetsFrom (here + c.utf8Size) cs

theorem offsetsFrom_append (here : Nat) (cs ds : List Char) :
    offsetsFrom here (cs ++ ds) = offsetsFrom here cs ++ offsetsFrom (here + byteLength cs) ds := by
  induction cs generalizing here with
  | nil => rfl
  | cons c cs ih => rw [List.cons_append, offsetsFrom, offsetsFrom, ih, List.cons_append, byteLength, Nat.add_assoc]

theorem map_snd_offsetsFrom (here : Nat) (cs : List Char) : (offsetsFrom here cs).map (·.2) = cs := by
  induction cs generalizing here with
  | nil => rfl
  | cons c cs ih => rw [offsetsFrom, List.map_cons, ih]

theorem within_of_mem_offsetsFrom {cs : List Char} {p : Nat × Char} (h : p ∈ offsetsFrom here cs) :
    here ≤ p.1 ∧ p.1 < here + byteLength cs := by
  induction cs generalizing here with
  | nil => cases h
  | cons c cs ih =>
    have hpos := c.utf8Size_pos
    rw [byteLength]
    rcases List.mem_cons.1 h with rfl | h
    · exact ⟨Nat.le_refl _, by omega⟩
    · have hwithin := ih h
      omega

/-- A line that begins at `here`, cut at the place on it that is next to an offset. -/
structure CutAt (here : Nat) (text : List Char) (offset : Nat) (front back : List Char) : Prop where
  text_eq : text = front ++ back
  place : here + byteLength front = max here (min offset (here + byteLength text))

/-- A line can be cut next to any offset that is not inside a character. -/
theorem OnBoundary.exists_cutAt (h : OnBoundary source offset) (hsource : source = earlier ++ (text ++ rest)) :
    ∃ front back, CutAt (byteLength earlier) text offset front back := by
  by_cases hbefore : offset ≤ byteLength earlier
  · exact ⟨[], text, rfl, by rw [byteLength]; omega⟩
  by_cases hbehind : byteLength earlier + byteLength text ≤ offset
  · exact ⟨text, [], (List.append_nil _).symm, by omega⟩
  cases h with
  | @between front back hfront =>
    obtain ⟨between, rfl, hahead⟩ := exists_between (hsource.symm.trans hfront) (by omega)
    rw [byteLength_append] at hbefore hbehind
    obtain ⟨more, htext, -⟩ := exists_between hahead.symm (by omega)
    exact ⟨between, more, htext, by rw [byteLength_append]; omega⟩
  | behind hle =>
    have hsize := congrArg byteLength hsource
    rw [byteLength_append, byteLength_append] at hsize
    omega

namespace CutAt

variable {stop : Nat} {front' back' : List Char}

theorem charsWithin_eq (h : CutAt here text offset front back) : charsWithin (offset - here) text = front.length := by
  obtain ⟨rfl, hplace⟩ := h
  rw [byteLength_append] at hplace
  by_cases hbehind : here + byteLength front < offset
  · obtain rfl : back = [] := eq_nil_of_byteLength_eq_zero (by omega)
    rw [List.append_nil, charsWithin_of_le (by omega)]
  · have hbudget : offset - here = byteLength front := by omega
    rw [hbudget, charsWithin_byteLength]

theorem lt_of_mem (h : CutAt here text offset front back) {p : Nat × Char} (hp : p ∈ offsetsFrom here front) : p.1 < offset := by
  have hwithin := within_of_mem_offsetsFrom hp
  have hplace := h.place
  omega

theorem le_of_mem (h : CutAt here text offset front back) {p : Nat × Char}
    (hp : p ∈ offsetsFrom (here + byteLength front) back) : offset ≤ p.1 := by
  have hwithin := within_of_mem_offsetsFrom hp
  have hplace := h.place
  rw [h.text_eq, byteLength_append] at hplace
  omega

/-- The characters before the offset. -/
theorem filter_lt (h : CutAt here text offset front back) :
    (offsetsFrom here text).filter (·.1 < offset) = offsetsFrom here front := by
  rw [h.text_eq, offsetsFrom_append, List.filter_append, List.filter_eq_self.2 fun p hp => decide_eq_true (h.lt_of_mem hp),
    List.filter_eq_nil_iff.2 fun p hp => by simpa using h.le_of_mem hp, List.append_nil]

/-- What lies between two cuts, which is nothing where the second one comes first. -/
theorem exists_covered (h : CutAt here text offset front back) (h' : CutAt here text stop front' back') :
    ∃ covered after, back = covered ++ after ∧ covered.length = front'.length - front.length ∧
      here + byteLength front + byteLength covered = max (here + byteLength front) (min stop (here + byteLength text)) ∧
      (offsetsFrom here text).filter (fun p => offset ≤ p.1 && p.1 < stop) = offsetsFrom (here + byteLength front) covered := by
  have hplace := h.place
  have hplace' := h'.place
  have hfilter : (offsetsFrom here text).filter (fun p => offset ≤ p.1 && p.1 < stop) =
      (offsetsFrom here front').filter (offset ≤ ·.1) := by
    rw [← h'.filter_lt, List.filter_filter]
  rw [hfilter]
  by_cases hle : byteLength front ≤ byteLength front'
  · -- Of what lies before the second cut, the part behind the first one is kept.
    obtain ⟨covered, rfl, rfl⟩ := exists_between (h.text_eq.symm.trans h'.text_eq) hle
    refine ⟨covered, back', rfl, by rw [List.length_append]; omega, by rw [byteLength_append] at hplace'; omega, ?_⟩
    have hcovered : ∀ p ∈ offsetsFrom (here + byteLength front) covered, decide (offset ≤ p.1) = true := by
      intro p hp
      refine decide_eq_true (h.le_of_mem ?_)
      rw [offsetsFrom_append]
      exact List.mem_append_left _ hp
    have hfront : ∀ p ∈ offsetsFrom here front, ¬decide (offset ≤ p.1) = true := by
      intro p hp
      simpa using h.lt_of_mem hp
    rw [offsetsFrom_append, List.filter_append, List.filter_eq_nil_iff.2 hfront, List.filter_eq_self.2 hcovered,
      List.nil_append]
  · -- All that lies before the second cut lies before the first one as well.
    obtain ⟨more, rfl, -⟩ := exists_between (h'.text_eq.symm.trans h.text_eq) (Nat.le_of_not_le hle)
    refine ⟨[], back, rfl, by rw [List.length_append, List.length_nil]; omega, by rw [byteLength]; omega, ?_⟩
    rw [offsetsFrom, List.filter_eq_nil_iff]
    intro p hp
    have hlt := h.lt_of_mem (by rw [offsetsFrom_append]; exact List.mem_append_left _ hp)
    simpa using hlt

end CutAt

/-! ## What is shown of a label -/

theorem length_rightAligned {s : String} {width : Nat} (h : s.length ≤ width) : (Text.rightAligned width s).length = width := by
  rw [Text.rightAligned, Text.spaces, String.length_append, ← String.length_toList, Number.toList_pushn, List.length_replicate]
  omega

namespace Label

/-- The characters of a line before the label. -/
def before (l : Label) (here : Nat) (text : List Char) : List Char :=
  ((offsetsFrom here text).filter (·.1 < l.span.start)).map (·.2)

/-- The characters of a line that the label covers. -/
def covered (l : Label) (here : Nat) (text : List Char) : List Char :=
  ((offsetsFrom here text).filter fun p => l.span.start ≤ p.1 && p.1 < l.span.stop).map (·.2)

/-- The label is shown under the whole line that it starts on, behind gutters of one width. -/
def Shown (l : Label) (colors : Bool) (source : List Char) (gutter : Nat) (shown : String) : Prop :=
  ∃ earlier text rest, LineOf source l.span.start earlier text rest ∧
    shown = l.layout colors gutter (Overflow.low (breaks earlier + 1)) text (l.before (byteLength earlier) text)
      (max 1 (l.covered (byteLength earlier) text).length) ∧
    ∀ s ∈ ["", (Overflow.low (breaks earlier + 1)).repr], (Text.rightAligned gutter s).length = gutter

variable {l : Label} {colors : Bool} {gutter : Nat}

/-- On its line, the label has the same characters before it and on it, whether these are cut out or counted. -/
theorem cut?_eq (hline : LineOf source l.span.start earlier text rest) (hstart : OnBoundary source l.span.start)
    (hstop : OnBoundary source l.span.stop) (number column : Nat) :
    l.cut? source ⟨number, column, byteLength earlier, text⟩ =
      some (l.before (byteLength earlier) text, l.covered (byteLength earlier) text) ∧
    l.before (byteLength earlier) text = text.take (charsWithin (l.span.start - byteLength earlier) text) ∧
    (l.covered (byteLength earlier) text).length =
      charsWithin (l.span.stop - byteLength earlier) text - charsWithin (l.span.start - byteLength earlier) text := by
  obtain ⟨front, back, hcut⟩ := hstart.exists_cutAt hline.source_eq
  obtain ⟨front', back', hcut'⟩ := hstop.exists_cutAt hline.source_eq
  obtain ⟨covered, after, hback, hlength, hplace, hfilter⟩ := hcut.exists_covered hcut'
  have hbefore : l.before (byteLength earlier) text = front := by
    rw [before, hcut.filter_lt, map_snd_offsetsFrom]
  have hcovered : l.covered (byteLength earlier) text = covered := by
    rw [Label.covered, hfilter, map_snd_offsetsFrom]
  have hsource : source = (earlier ++ front) ++ (covered ++ (after ++ rest)) := by
    rw [hline.source_eq, hcut.text_eq, hback]
    simp only [List.append_assoc]
  have hindent : slice? text 0 (byteLength front) = some front := by
    have hslice := slice?_append [] front back
    rwa [← hcut.text_eq, byteLength, Nat.zero_add] at hslice
  have hslice : slice? source (byteLength earlier + byteLength front)
      (byteLength earlier + byteLength front + byteLength covered) = some covered := by
    rw [hsource, ← byteLength_append, slice?_append]
  have hle : byteLength earlier + byteLength front ≤ byteLength earlier + byteLength text := by
    rw [hcut.text_eq, byteLength_append]
    omega
  refine ⟨?_, ?_, ?_⟩
  · unfold cut? clamp? sub?
    simp only [if_pos (Nat.le_add_right _ _), ← hcut.place, Option.bind_some, Nat.add_sub_cancel_left, hindent, if_pos hle,
      ← hplace, hslice, Option.map_some, hbefore, hcovered]
  · rw [hbefore, hcut.charsWithin_eq, hcut.text_eq, List.take_left]
  · rw [hcovered, hcut.charsWithin_eq, hcut'.charsWithin_eq, hlength]

/-- The label under its line, behind the number that 32 bits hold. -/
def block (l : Label) (colors : Bool) (source : List Char) (gutter : Nat) : String :=
  let line := Excerpt.ofOffset source l.span.start
  l.layout colors gutter line.number line.text (l.before line.start line.text)
    (max 1 (l.covered line.start line.text).length)

/-- Where its line is cut out, so is the label. -/
theorem render?_eq (hcut : excerpt? o source l.span.start = some (.ofOffset source l.span.start))
    (hstart : OnBoundary source l.span.start) (hstop : OnBoundary source l.span.stop) :
    l.render? o colors source gutter = some (l.block colors source gutter) := by
  obtain ⟨earlier, text, rest, hline, hfound⟩ := hstart.exists_lineOf
  rw [render?, block, hcut, Option.bind_some, Excerpt.ofOffset, hfound, Line.text, takeWhile_of_lineOf hline,
    (cut?_eq hline hstart hstop _ _).1, Option.map_some]

/-- The label is shown as it should be where the gutter has room for the number of its line. -/
theorem shown_block (hstart : OnBoundary source l.span.start)
    (hgutter : (Excerpt.ofOffset source l.span.start).number.repr.length ≤ gutter) :
    l.Shown colors source gutter (l.block colors source gutter) := by
  obtain ⟨earlier, text, rest, hline, hfound⟩ := hstart.exists_lineOf
  rw [Excerpt.ofOffset, hfound] at hgutter
  refine ⟨earlier, text, rest, hline, ?_, fun s hs => ?_⟩
  · rw [block, Excerpt.ofOffset, hfound, Line.text, takeWhile_of_lineOf hline]
  · rcases List.mem_pair.1 hs with rfl | rfl
    · exact length_rightAligned (Nat.zero_le _)
    · exact length_rightAligned hgutter

/-- In a source that the counters can count to its end, the label is shown as by the emitter. -/
theorem block_eq_render (hstart : OnBoundary source l.span.start) (hstop : OnBoundary source l.span.stop)
    (hfits : Overflow.low (l.line source).number = (l.line source).number) :
    l.block colors source gutter = l.render colors source gutter := by
  obtain ⟨earlier, text, rest, hline, hfound⟩ := hstart.exists_lineOf
  obtain ⟨-, hbefore, hcovered⟩ := cut?_eq hline hstart hstop (breaks earlier + 1) 0
  rw [line, hfound] at hfits
  rw [block, Excerpt.ofOffset, hfound, Line.text, takeWhile_of_lineOf hline, hfits, hbefore, hcovered]
  unfold render padding marks width indent line Line.text
  rw [hfound]
  simp only [takeWhile_of_lineOf hline]
  rfl

end Label

/-! ## What is shown of a diagnostic -/

theorem length_repr_le {m n : Nat} (h : m ≤ n) : m.repr.length ≤ n.repr.length := by
  rw [← String.length_toList, ← String.length_toList, Nat.toList_repr, Nat.toList_repr]
  have hpos : 0 < (Nat.toDigits 10 n).length := List.length_pos_iff.2 Nat.toDigits_ne_nil
  have hn := (Nat.length_toDigits_le_iff (by decide) hpos).1 (Nat.le_refl _)
  exact (Nat.length_toDigits_le_iff (by decide) hpos).2 (Nat.lt_of_le_of_lt h hn)

theorem le_foldl_max {ns : List Nat} {n : Nat} (init : Nat) (h : n ∈ ns) : n ≤ ns.foldl max init := by
  rw [List.foldl_max]
  have hle := List.le_max?_getD_of_mem (k := init) h
  omega

/-- Where every step gives something, so does the walk along a list. -/
theorem mapM_eq_some_map {α β : Type} {f : α → Option β} {g : α → β} {xs : List α} (h : ∀ x ∈ xs, f x = some (g x)) :
    xs.mapM f = some (xs.map g) := by
  induction xs with
  | nil => rfl
  | cons x xs ih =>
    obtain ⟨hx, hxs⟩ := List.forall_mem_cons.1 h
    rw [List.mapM_cons, hx, ih hxs]
    rfl

/-- Where one step gives nothing, neither does the walk. -/
theorem mapM_eq_none {α β : Type} {f : α → Option β} {xs : List α} {x : α} (hx : x ∈ xs) (h : f x = none) :
    xs.mapM f = none := by
  induction xs with
  | nil => cases hx
  | cons y xs ih =>
    rw [List.mapM_cons]
    rcases List.mem_cons.1 hx with rfl | hx
    · rw [h]
      rfl
    · rw [ih hx]
      cases f y <;> rfl

namespace Diagnostic

variable {d : Diagnostic}

/-- Every label begins and ends between characters of the source, or behind it. -/
def OnBoundaries (d : Diagnostic) (source : List Char) : Prop :=
  ∀ l ∈ d.labels, OnBoundary source l.span.start ∧ OnBoundary source l.span.stop

instance : Decidable (d.OnBoundaries source) := inferInstanceAs (Decidable (∀ l ∈ d.labels, _))

/-- The lines of all labels are cut out. -/
def Cut (o : Overflow) (d : Diagnostic) (source : List Char) : Prop :=
  ∀ l ∈ d.labels, excerpt? o source l.span.start = some (.ofOffset source l.span.start)

/-- The width of the gutter, by the numbers that 32 bits hold. -/
def heldGutter (d : Diagnostic) (source : List Char) : Nat :=
  ((d.labels.map fun (l : Label) => (Excerpt.ofOffset source l.span.start).number).foldl max 1).repr.length

/-- The place of the first primary label, by what 32 bits hold of its line and its column. -/
def heldPlace (d : Diagnostic) (colors : Bool) (source : List Char) (gutter : Nat) : String :=
  d.primarySpan?.elim "" fun span =>
    let line := Excerpt.ofOffset source span.start
    Paint.secondary.apply colors (Text.spaces gutter ++ "-->") ++ " " ++ line.number.repr ++ ":" ++ line.column.repr ++ "\n"

theorem gutter?_eq (hcut : d.Cut o source) : d.gutter? o source = some (d.heldGutter source) := by
  have hnumbers : ∀ l ∈ d.labels, (excerpt? o source l.span.start).map (·.number) =
      some (Excerpt.ofOffset source l.span.start).number := by
    intro l hl
    rw [hcut l hl, Option.map_some]
  rw [gutter?, mapM_eq_some_map hnumbers]
  rfl

/-- The gutter has room for the number of every line. -/
theorem length_number_le {l : Label} (hl : l ∈ d.labels) (source : List Char) :
    (Excerpt.ofOffset source l.span.start).number.repr.length ≤ d.heldGutter source :=
  length_repr_le (le_foldl_max 1 (List.mem_map_of_mem hl))

theorem place?_eq (hcut : d.Cut o source) (colors : Bool) (gutter : Nat) :
    d.place? o colors source gutter = some (d.heldPlace colors source gutter) := by
  unfold place? heldPlace
  cases hfind : d.labels.find? (·.isPrimary) with
  | none =>
    have hspan : d.primarySpan? = none := by rw [primarySpan?, hfind, Option.map_none]
    rw [hspan]
    rfl
  | some l =>
    have hspan : d.primarySpan? = some l.span := by rw [primarySpan?, hfind, Option.map_some]
    rw [hspan, Option.elim_some, Option.elim_some, hcut l (List.mem_of_find?_eq_some hfind), Option.map_some]

/-- The whole diagnostic as it is shown with lines that are cut out. -/
theorem render?_eq {source : String} (h : d.OnBoundaries source.toList) (hcut : d.Cut o source.toList) (colors : Bool) :
    let gutter := d.heldGutter source.toList
    d.render? o colors source = some (d.above colors (d.heldPlace colors source.toList gutter) ++
      String.join (d.labels.map (·.block colors source.toList gutter)) ++ d.below colors gutter) := by
  have hblocks : ∀ l ∈ d.labels, l.render? o colors source.toList (d.heldGutter source.toList) =
      some (l.block colors source.toList (d.heldGutter source.toList)) :=
    fun l hl => Label.render?_eq (hcut l hl) (h l hl).1 (h l hl).2
  rw [render?, gutter?_eq hcut, Option.bind_some, place?_eq hcut, Option.bind_some, mapM_eq_some_map hblocks,
    Option.map_some]

/-- Where one line is not cut out nothing is shown. -/
theorem render?_eq_none {source : String} {l : Label} (hl : l ∈ d.labels)
    (hcut : excerpt? o source.toList l.span.start = none) (colors : Bool) : d.render? o colors source = none := by
  rw [render?, gutter?, mapM_eq_none hl (by rw [hcut, Option.map_none])]
  rfl

/-- In a source that the counters can count to its end, the emitter shows the same. -/
theorem render_eq {source : String} (h : d.OnBoundaries source.toList) (hfits : byteLength source.toList < Span.maxOffset)
    (colors : Bool) : let gutter := d.heldGutter source.toList
    d.render colors source = d.above colors (d.heldPlace colors source.toList gutter) ++
      String.join (d.labels.map (·.block colors source.toList gutter)) ++ d.below colors gutter := by
  have hline := Excerpt.ofOffset_of_lt hfits
  have hgutter : d.heldGutter source.toList = d.gutter source.toList := by
    simp only [heldGutter, hline]
    rfl
  have hplace : d.heldPlace colors source.toList (d.gutter source.toList) = d.place colors source.toList := by
    unfold heldPlace place
    cases d.primarySpan? with
    | none => rfl
    | some span => simp only [Option.elim_some, hline, Line.excerpt]
  have hblocks : d.labels.map (·.block colors source.toList (d.gutter source.toList)) =
      d.labels.map (·.render colors source.toList (d.gutter source.toList)) := by
    refine List.map_congr_left fun l hl => Label.block_eq_render (h l hl).1 (h l hl).2 ?_
    exact congrArg Excerpt.number (hline l.span.start)
  dsimp only
  rw [hgutter, hplace, hblocks]
  simp only [render, above, below, String.append_assoc]

end Diagnostic

end Reckon
