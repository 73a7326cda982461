import Mathlib.Data.List.Forall2
import Reckon.Proofs.Source.Lines
import Reckon.Proofs.Token.Offsets
/-!
# Locations for offsets in any order

A tracker goes on over a source from call to call and never back. `locateAll_counted` says that its answers do not
depend on how the calls have cut the source, not even between a carriage return and a line feed: each of them is the
location that is counted from the start, over all that lies before the largest offset so far. The same calls are
answered where the source is cut by offsets and counters have 32 bits, so in a source of less than 2 ^ 30 bytes none
of them runs over.
-/

namespace Reckon

variable {source before : List Char} {offset largest : Nat} {offsets : List Nat}

/-! ## Many calls -/

/-- The largest of some numbers so far, for each of them. -/
def maxima (largest : Nat) : List Nat → List Nat
  | [] => []
  | n :: ns => max largest n :: maxima (max largest n) ns

/-- The answers to some offsets, one call after the other. -/
def Tracker.locateAll (t : Tracker) : List Nat → List Location
  | [] => []
  | offset :: offsets => (t.locate offset).location :: (t.locate offset).locateAll offsets

/-- The answers to some offsets where the source is cut, unless something goes wrong in a call. -/
def Watch.locateAll? (w : Watch) : List Nat → Option (List Location)
  | [] => some []
  | offset :: offsets => (w.locate? offset).bind fun next => (next.locateAll? offsets).map (next.location :: ·)

/-- The location is counted from the start of the source, over all that lies before an offset or the end. -/
structure CountedTo (source : List Char) (offset : Nat) (l : Location) : Prop where
  counted : ∃ before after, source = before ++ after ∧ byteLength before = min offset (byteLength source) ∧
    l = ⟨breaks before + 1, columns (lastLine before) + 1, byteLength before⟩
  fits : l.line ≤ Span.maxOffset ∧ l.column ≤ Span.maxOffset ∧ l.offset ≤ Span.maxOffset

/-! ## One call -/

/-- Up to an offset that is not inside a character lie characters of the source, or all of them. -/
theorem OnBoundary.exists_front (h : OnBoundary source offset) :
    ∃ front back, source = front ++ back ∧ byteLength front = min offset (byteLength source) := by
  cases h with
  | @between front back hsource =>
    refine ⟨front, back, hsource, (Nat.min_eq_left ?_).symm⟩
    rw [hsource, byteLength_append]
    exact Nat.le_add_right _ _
  | behind hle => exact ⟨source, [], (List.append_nil _).symm, (Nat.min_eq_right hle).symm⟩

namespace Tracker

variable {t : Tracker}

theorem locate_of_le (h : offset ≤ t.location.offset) : t.locate offset = t := by
  obtain ⟨ahead, location, afterReturn⟩ := t
  cases ahead with
  | nil => rfl
  | cons c cs => exact if_neg (Nat.not_lt.2 h)

/-- The walk ends where the source does. -/
theorem walk_min (cs : List Char) (l : Location) (afterReturn : Bool) {stop : Nat} (h : l.offset + byteLength cs = stop) :
    walk (min offset stop) cs l afterReturn = walk offset cs l afterReturn := by
  induction cs generalizing l afterReturn with
  | nil => rfl
  | cons c cs ih =>
    have hpos := c.utf8Size_pos
    rw [byteLength] at h
    have hnext := ih (l.advance afterReturn c) (c = '\r') (by rw [offset_advance]; omega)
    have hiff : l.offset < min offset stop ↔ l.offset < offset := by omega
    rw [walk, walk, hnext]
    simp only [hiff]

end Tracker

theorem Watch.locate?_min (w : Watch) (offset : Nat) : w.locate? (min offset (byteLength w.source)) = w.locate? offset := by
  unfold locate?
  rw [Nat.min_assoc, Nat.min_self]

theorem Watch.locate?_of_le {w : Watch} (h : offset ≤ w.location.offset) : w.locate? offset = some w := by
  unfold locate?
  exact if_neg (by omega)

/-- A tracker, and a walk along the same source where it is cut, have both passed the same part of it. -/
structure Tracks (w : Watch) (t : Tracker) (before : List Char) : Prop where
  follows : w.Follows t
  stands : t.Stands before
  split : w.source = before ++ t.ahead

namespace Tracks

variable {w : Watch} {t : Tracker}

theorem ofSource (source : List Char) : Tracks (.ofSource source) (.ofSource source) [] :=
  ⟨Watch.follows_ofSource source, Tracker.stands_ofSource source, rfl⟩

/-- A call leads to the offset if that has not been passed, and no further than the end. -/
theorem locate (h : Tracks w t before) (hsize : byteLength w.source < 2 ^ 30) (hoffset : OnBoundary w.source offset) :
    ∃ w' before', w.locate? offset = some w' ∧ w'.source = w.source ∧ Tracks w' (t.locate offset) before' ∧
      byteLength before' = max (byteLength before) (min offset (byteLength w.source)) := by
  have hhere : t.location.offset = byteLength before := by rw [h.stands.location]; rfl
  have hend : t.location.offset + byteLength t.ahead = byteLength w.source := by
    rw [hhere, h.split, byteLength_append]
  have hmin : t.locate (min offset (byteLength w.source)) = t.locate offset := Tracker.walk_min _ _ _ hend
  obtain ⟨front, back, hsource, hfront⟩ := hoffset.exists_front
  rw [← Watch.locate?_min, ← hmin, ← hfront]
  by_cases hpassed : byteLength front ≤ byteLength before
  · rw [Tracker.locate_of_le (hhere ▸ hpassed), Watch.locate?_of_le (by rwa [h.follows.location, hhere])]
    exact ⟨w, before, rfl, rfl, h, by omega⟩
  · obtain ⟨gap, rfl, hahead⟩ := exists_between (h.split.symm.trans hsource) (Nat.le_of_not_le hpassed)
    have hgap : t.location.offset + byteLength gap = byteLength (before ++ gap) := by rw [hhere, byteLength_append]
    obtain ⟨w', hw, hsame, hfollows⟩ := h.follows.locate? hsize hahead hgap
    obtain ⟨hstands, hrest⟩ := h.stands.locate hahead
    exact ⟨w', before ++ gap, hw, hsame, ⟨hfollows, hstands, by rw [hsame, hrest, hsource]⟩, by omega⟩

/-- What a tracker answers is counted to where it stands. -/
theorem countedTo (h : Tracks w t before) (hsize : byteLength w.source < 2 ^ 30)
    (hbefore : byteLength before = min largest (byteLength w.source)) : CountedTo w.source largest t.location := by
  have hline := h.follows.bounded.line
  have hcolumn := h.follows.bounded.column
  have hoffset : t.location.offset = byteLength before := by rw [h.stands.location]; rfl
  refine ⟨⟨before, t.ahead, h.split, hbefore, h.stands.location⟩, ?_⟩
  unfold Span.maxOffset
  omega

theorem locateAll (h : Tracks w t before) (hsize : byteLength w.source < 2 ^ 30)
    (hoffsets : ∀ offset ∈ offsets, OnBoundary w.source offset)
    (hbefore : byteLength before = min largest (byteLength w.source)) :
    w.locateAll? offsets = some (t.locateAll offsets) ∧
      List.Forall₂ (CountedTo w.source) (maxima largest offsets) (t.locateAll offsets) := by
  induction offsets generalizing w t before largest with
  | nil => exact ⟨rfl, .nil⟩
  | cons offset offsets ih =>
    obtain ⟨hoffset, hrest⟩ := List.forall_mem_cons.1 hoffsets
    obtain ⟨w', before', hw, hsame, htracks, hmax⟩ := h.locate hsize hoffset
    have hlargest : byteLength before' = min (max largest offset) (byteLength w.source) := by omega
    rw [← hsame] at hsize hrest hlargest
    obtain ⟨hanswers, hcounted⟩ := ih htracks hsize hrest hlargest
    have hanswer := htracks.countedTo hsize hlargest
    rw [hsame] at hcounted hanswer
    refine ⟨?_, .cons hanswer hcounted⟩
    rw [Watch.locateAll?, hw, Option.bind_some, hanswers, htracks.follows.location]
    rfl

end Tracks

/-- In a source of less than 2 ^ 30 bytes, and for offsets that are not inside a character, in any order and also
behind the end, no call goes wrong, and every answer is the location counted from the start to the largest offset so
far. -/
theorem locateAll_counted (hsize : byteLength source < 2 ^ 30) (h : ∀ offset ∈ offsets, OnBoundary source offset) :
    ∃ answers, (Watch.ofSource source).locateAll? offsets = some answers ∧
      (Tracker.ofSource source).locateAll offsets = answers ∧
      List.Forall₂ (CountedTo source) (maxima 0 offsets) answers := by
  have hstart : byteLength [] = min 0 (byteLength source) := (Nat.zero_min _).symm
  obtain ⟨hanswers, hcounted⟩ := (Tracks.ofSource source).locateAll hsize h hstart
  exact ⟨_, hanswers, rfl, hcounted⟩

/-- The first call stops between a carriage return and a line feed, the second goes back, and the last goes past the
end. -/
theorem locateAll_counted_return : let source := ['\t', 'π', '\r', '\n', '1']
    byteLength source < 2 ^ 30 ∧ (∀ offset ∈ [4, 1, 5, 20], OnBoundary source offset) ∧
      ∃ answers, (Watch.ofSource source).locateAll? [4, 1, 5, 20] = some answers ∧
        (Tracker.ofSource source).locateAll [4, 1, 5, 20] = answers ∧
        answers = [⟨2, 1, 4⟩, ⟨2, 1, 4⟩, ⟨2, 1, 5⟩, ⟨2, 2, 6⟩] ∧
        List.Forall₂ (CountedTo source) [4, 4, 5, 20] answers := by
  intro source
  have hsize : byteLength source < 2 ^ 30 := by decide
  have hoffsets : ∀ offset ∈ [4, 1, 5, 20], OnBoundary source offset := by
    have hreturn : OnBoundary source 4 := @OnBoundary.between _ ['\t', 'π', '\r'] ['\n', '1'] rfl
    have htab : OnBoundary source 1 := @OnBoundary.between _ ['\t'] ['π', '\r', '\n', '1'] rfl
    have hfeed : OnBoundary source 5 := @OnBoundary.between _ ['\t', 'π', '\r', '\n'] ['1'] rfl
    have hend : OnBoundary source 20 := .behind (by decide)
    simp [hreturn, htab, hfeed, hend]
  obtain ⟨answers, hcut, hall, hcounted⟩ := locateAll_counted hsize hoffsets
  exact ⟨hsize, hoffsets, answers, hcut, hall, by rw [← hall]; decide, hcounted⟩

end Reckon
