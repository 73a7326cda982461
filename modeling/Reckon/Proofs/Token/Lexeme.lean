import Reckon.Token.Lexer
/-!
# Lexemes

Which texts have which shape, said by one rule for each way to write a lexeme and without any scanning. The scanner
takes the longest text that a rule allows: `longest?_eq_some_iff` says that what it takes matches and that nothing
longer does, and `longest?_eq_none_iff` that it gives up only where no rule applies.
-/

namespace Reckon

/-! ## Runs of characters -/

section Runs

variable {p : Char → Bool} {cs rest : List Char}

/-- The text does not begin with such a character. -/
def NotAhead (p : Char → Bool) (text : List Char) : Prop := ∀ c ∈ text.head?, p c = false

theorem notAhead_nil : NotAhead p [] := by
  intro c hc
  cases hc

theorem notAhead_cons {c : Char} : NotAhead p (c :: rest) ↔ p c = false := by
  simp [NotAhead]

theorem notAhead_dropWhile (p : Char → Bool) (text : List Char) : NotAhead p (text.dropWhile p) := by
  intro c hc
  have h := List.head?_dropWhile_not p text
  rw [Option.mem_def] at hc
  simpa [hc] using h

theorem takeWhile_of_notAhead (h : NotAhead p rest) : rest.takeWhile p = [] := by
  cases rest with
  | nil => rfl
  | cons c rest => simp [notAhead_cons.1 h]

theorem takeWhile_append_of_notAhead (hcs : ∀ c ∈ cs, p c) (h : NotAhead p rest) : (cs ++ rest).takeWhile p = cs := by
  rw [List.takeWhile_append_of_pos hcs, takeWhile_of_notAhead h, List.append_nil]

theorem dropWhile_append_of_notAhead (hcs : ∀ c ∈ cs, p c) (h : NotAhead p rest) : (cs ++ rest).dropWhile p = rest := by
  rw [List.dropWhile_append_of_pos hcs]
  cases rest with
  | nil => rfl
  | cons c rest => simp [notAhead_cons.1 h]

/-- A text is cut behind the run that it begins with in one way only. -/
theorem run_unique {cs' rest' : List Char} (hcs : ∀ c ∈ cs, p c) (h : NotAhead p rest) (hcs' : ∀ c ∈ cs', p c)
    (h' : NotAhead p rest') (he : cs ++ rest = cs' ++ rest') : cs = cs' ∧ rest = rest' := by
  have hrun : (cs ++ rest).takeWhile p = cs := takeWhile_append_of_notAhead hcs h
  rw [he, takeWhile_append_of_notAhead hcs' h'] at hrun
  subst hrun
  exact ⟨rfl, List.append_cancel_left he⟩

/-- A run lies within the longest run. -/
theorem length_le_takeWhile (hcs : ∀ c ∈ cs, p c) (h : cs <+: rest) : cs.length ≤ (rest.takeWhile p).length := by
  obtain ⟨after, rfl⟩ := h
  rw [List.takeWhile_append_of_pos hcs, List.length_append]
  omega

theorem mem_takeWhile {c : Char} (h : c ∈ rest.takeWhile p) : p c :=
  List.all_eq_true.1 List.all_takeWhile c h

end Runs

theorem isDigit_eq_false_of_isAlpha {c : Char} (h : c.isAlpha = true) : c.isDigit = false := by
  unfold Char.isAlpha Char.isUpper Char.isLower at h
  unfold Char.isDigit
  grind

namespace Shape

/-! ## The rules -/

/-- The text has the shape. -/
inductive Matches : Shape → List Char → Prop
  | leftParen : Matches .leftParen ['(']
  | rightParen : Matches .rightParen [')']
  | comma : Matches .comma [',']
  | plus : Matches (.operator .add) ['+']
  | minus : Matches (.operator .sub) ['-']
  | star : Matches (.operator .mul) ['*']
  | slash : Matches (.operator .div) ['/']
  | percent : Matches (.operator .rem) ['%']
  | caret : Matches (.operator .pow) ['^']
  | doubleStar : Matches (.operator .pow) ['*', '*']
  | integer {cs} : cs ≠ [] → (∀ c ∈ cs, c.isDigit) → Matches .integer cs
  | decimal {whole fraction} : (∀ c ∈ whole, c.isDigit) → (∀ c ∈ fraction, c.isDigit) → whole ≠ [] ∨ fraction ≠ [] →
      Matches .decimal (whole ++ '.' :: fraction)
  | name {c cs} : c.isAlpha → (∀ d ∈ cs, d.isAlphanum) → Matches .name (c :: cs)

instance : DecidablePred name.Matches
  | [] => isFalse nofun
  | c :: cs => decidable_of_iff (c.isAlpha = true ∧ cs.all Char.isAlphanum = true)
    ⟨fun h => .name h.1 (List.all_eq_true.1 h.2), fun | .name hc hcs => ⟨hc, List.all_eq_true.2 hcs⟩⟩

/-- The text matches, and no longer text from its first character on matches any rule. -/
structure LongestMatch (s : Shape) (text after : List Char) : Prop where
  isMatch : s.Matches text
  longest : ∀ s' text', Matches s' text' → text' <+: text ++ after → text'.length ≤ text.length

/-- What follows does not prolong a lexeme of the shape. -/
def Ends : Shape → List Char → Prop
  | .operator .mul, rest => NotAhead (· == '*') rest
  | .integer, rest => NotAhead (fun c => c.isDigit || c == '.') rest
  | .decimal, rest => NotAhead Char.isDigit rest
  | .name, rest => NotAhead Char.isAlphanum rest
  | _, _ => True

theorem ends_nil (s : Shape) : s.Ends [] := by
  unfold Ends
  split <;> first | exact notAhead_nil | trivial

/-- The characters that occur in lexemes of the shape. -/
def alphabet : Shape → Char → Bool
  | .leftParen, c => c == '('
  | .rightParen, c => c == ')'
  | .comma, c => c == ','
  | .operator .add, c => c == '+'
  | .operator .sub, c => c == '-'
  | .operator .mul, c => c == '*'
  | .operator .div, c => c == '/'
  | .operator .rem, c => c == '%'
  | .operator .pow, c => c == '^' || c == '*'
  | .integer, c => c.isDigit
  | .decimal, c => c.isDigit || c == '.'
  | .name, c => c.isAlphanum

theorem Matches.alphabet {s : Shape} {text : List Char} (h : s.Matches text) : ∀ c ∈ text, s.alphabet c = true := by
  intro c hc
  cases h with
  | leftParen | rightParen | comma | plus | minus | star | slash | percent | caret =>
    cases List.mem_singleton.1 hc
    rfl
  | doubleStar =>
    simp only [List.mem_cons, List.not_mem_nil, or_false, or_self] at hc
    subst hc
    rfl
  | integer _ hcs => exact hcs c hc
  | decimal hw hf =>
    rcases List.mem_append.1 hc with hc | hc
    · simp [Shape.alphabet, hw c hc]
    · rcases List.mem_cons.1 hc with rfl | hc
      · rfl
      · simp [Shape.alphabet, hf c hc]
  | name ha hcs =>
    rcases List.mem_cons.1 hc with rfl | hc
    · simp [Shape.alphabet, Char.isAlphanum, ha]
    · exact hcs c hc

/-- A character outside every alphabet is in no lexeme. -/
theorem Matches.not_mem {s : Shape} {text : List Char} {c : Char} (h : s.Matches text) (hc : s.alphabet c = false) :
    c ∉ text := by
  intro hmem
  rw [h.alphabet c hmem] at hc
  cases hc

theorem Matches.ne_nil {s : Shape} {text : List Char} (h : s.Matches text) : text ≠ [] := by
  cases h <;> simp_all

/-! ## The scanner -/

theorem longest?_of_isDigit {c : Char} {rest : List Char} (hc : c.isDigit = true) :
    longest? c rest = match rest.dropWhile Char.isDigit with
      | '.' :: fraction => some (decimal, rest.takeWhile Char.isDigit ++ '.' :: fraction.takeWhile Char.isDigit)
      | _ => some (integer, rest.takeWhile Char.isDigit) := by
  unfold longest?
  exact if_pos hc

theorem longest?_of_isAlpha {c : Char} {rest : List Char} (hc : c.isAlpha = true) :
    longest? c rest = some (name, rest.takeWhile Char.isAlphanum) := by
  unfold longest?
  rw [if_neg (by simp [isDigit_eq_false_of_isAlpha hc]), if_pos hc]

theorem longest?_star (rest : List Char) :
    longest? '*' rest = match rest with
      | '*' :: _ => some (operator .pow, ['*'])
      | _ => some (operator .mul, []) := rfl

theorem longest?_dot (rest : List Char) :
    longest? '.' rest = match rest.takeWhile Char.isDigit with
      | [] => none
      | d :: ds => some (decimal, d :: ds) := rfl

/-- A lexeme that what follows does not prolong is taken as it is. -/
theorem longest?_of_matches {s : Shape} {c : Char} {more rest : List Char} (h : s.Matches (c :: more))
    (hr : s.Ends rest) : longest? c (more ++ rest) = some (s, more) := by
  generalize htext : c :: more = text at h
  cases h with
  | leftParen | rightParen | comma | plus | minus | slash | percent | caret | doubleStar =>
    cases htext
    rfl
  | star =>
    cases htext
    rw [List.nil_append, longest?_star]
    split
    · simpa using notAhead_cons.1 hr
    · rfl
  | integer _ hcs =>
    subst htext
    rw [List.forall_mem_cons] at hcs
    have hdigit : NotAhead Char.isDigit rest := fun d hd => (Bool.or_eq_false_iff.1 (hr d hd)).1
    rw [longest?_of_isDigit hcs.1, takeWhile_append_of_notAhead hcs.2 hdigit, dropWhile_append_of_notAhead hcs.2 hdigit]
    split
    · next fraction => simpa using notAhead_cons.1 hr
    · rfl
  | @decimal whole fraction hw hf hne =>
    cases whole with
    | nil =>
      injection htext with hc hmore
      subst hc hmore
      rw [longest?_dot, takeWhile_append_of_notAhead hf hr]
      cases more with
      | nil => simp at hne
      | cons d ds => rfl
    | cons d whole =>
      rw [List.cons_append] at htext
      injection htext with hc hmore
      subst hc hmore
      rw [List.forall_mem_cons] at hw
      have hdot : NotAhead Char.isDigit ('.' :: (fraction ++ rest)) := notAhead_cons.2 rfl
      rw [longest?_of_isDigit hw.1, List.append_assoc, List.cons_append, takeWhile_append_of_notAhead hw.2 hdot,
        dropWhile_append_of_notAhead hw.2 hdot]
      simp only [takeWhile_append_of_notAhead hf hr]
  | name hc hcs =>
    cases htext
    rw [longest?_of_isAlpha hc, takeWhile_append_of_notAhead hcs hr]

/-- Wherever a rule applies, the scanner takes at least as much. -/
theorem exists_longest? {s : Shape} {c : Char} {more rest : List Char} (h : s.Matches (c :: more))
    (hp : more <+: rest) : ∃ s' more', longest? c rest = some (s', more') ∧ more.length ≤ more'.length := by
  generalize htext : c :: more = text at h
  cases h with
  | leftParen | rightParen | comma | plus | minus | slash | percent | caret =>
    cases htext
    exact ⟨_, _, rfl, Nat.le_refl _⟩
  | star =>
    cases htext
    rw [longest?_star]
    split
    · exact ⟨_, _, rfl, Nat.zero_le _⟩
    · exact ⟨_, _, rfl, Nat.le_refl _⟩
  | doubleStar =>
    cases htext
    obtain ⟨after, rfl⟩ := hp
    exact ⟨_, _, rfl, Nat.le_refl _⟩
  | integer _ hcs =>
    subst htext
    rw [List.forall_mem_cons] at hcs
    have hlen := length_le_takeWhile hcs.2 hp
    rw [longest?_of_isDigit hcs.1]
    split
    · refine ⟨_, _, rfl, ?_⟩
      rw [List.length_append]
      omega
    · exact ⟨_, _, rfl, hlen⟩
  | @decimal whole fraction hw hf hne =>
    cases whole with
    | nil =>
      injection htext with hc hmore
      subst hc hmore
      have hlen := length_le_takeWhile hf hp
      rw [longest?_dot]
      split
      · next he =>
        rw [he] at hlen
        simp_all
      · next d ds he =>
        exact ⟨_, _, rfl, he ▸ hlen⟩
    | cons d whole =>
      rw [List.cons_append] at htext
      injection htext with hc hmore
      subst hc hmore
      rw [List.forall_mem_cons] at hw
      obtain ⟨after, rfl⟩ := hp
      have hdot : NotAhead Char.isDigit ('.' :: (fraction ++ after)) := notAhead_cons.2 rfl
      rw [longest?_of_isDigit hw.1, List.append_assoc, List.cons_append, takeWhile_append_of_notAhead hw.2 hdot,
        dropWhile_append_of_notAhead hw.2 hdot]
      refine ⟨_, _, rfl, ?_⟩
      have hlen := length_le_takeWhile hf (List.prefix_append fraction after)
      simp only [List.length_append, List.length_cons]
      omega
  | name hc hcs =>
    cases htext
    exact ⟨_, _, longest?_of_isAlpha hc, length_le_takeWhile hcs hp⟩

/-- What the scanner takes matches, and what follows does not prolong it. -/
theorem matches_of_longest? {s : Shape} {c : Char} {more rest : List Char} (h : longest? c rest = some (s, more)) :
    s.Matches (c :: more) ∧ ∃ after, rest = more ++ after ∧ s.Ends after := by
  by_cases hd : c.isDigit = true
  · -- digits, with a point behind them or without
    have hsplit := List.takeWhile_append_dropWhile (p := Char.isDigit) (l := rest)
    have hends := notAhead_dropWhile Char.isDigit rest
    rw [longest?_of_isDigit hd] at h
    split at h
    · next fraction he =>
      cases h
      have hw : ∀ d ∈ c :: rest.takeWhile Char.isDigit, d.isDigit := List.forall_mem_cons.2 ⟨hd, fun d => mem_takeWhile⟩
      refine ⟨.decimal hw (fun d => mem_takeWhile) (by simp), fraction.dropWhile Char.isDigit, ?_,
        notAhead_dropWhile _ fraction⟩
      · rw [List.append_assoc, List.cons_append, List.takeWhile_append_dropWhile, ← he, hsplit]
    · next hdot =>
      cases h
      refine ⟨.integer (by simp) (List.forall_mem_cons.2 ⟨hd, fun d => mem_takeWhile⟩), _, hsplit.symm, ?_⟩
      intro d hmem
      refine Bool.or_eq_false_iff.2 ⟨hends d hmem, ?_⟩
      obtain ⟨tail, he⟩ := List.head?_eq_some_iff.1 hmem
      have hne : d ≠ '.' := fun hd => hdot tail (hd ▸ he)
      simpa using hne
  · by_cases ha : c.isAlpha = true
    · -- a name
      rw [longest?_of_isAlpha ha] at h
      cases h
      exact ⟨.name ha fun d => mem_takeWhile, _, List.takeWhile_append_dropWhile.symm, notAhead_dropWhile _ rest⟩
    · -- one character or two of a sign, or a point before digits
      unfold longest? at h
      rw [if_neg hd, if_neg ha] at h
      split at h
      · cases h; exact ⟨.leftParen, rest, rfl, trivial⟩
      · cases h; exact ⟨.rightParen, rest, rfl, trivial⟩
      · cases h; exact ⟨.comma, rest, rfl, trivial⟩
      · cases h; exact ⟨.plus, rest, rfl, trivial⟩
      · cases h; exact ⟨.minus, rest, rfl, trivial⟩
      · split at h
        · next after =>
          cases h
          exact ⟨.doubleStar, after, rfl, trivial⟩
        · next hstar =>
          cases h
          refine ⟨.star, rest, rfl, fun d hmem => ?_⟩
          obtain ⟨tail, he⟩ := List.head?_eq_some_iff.1 hmem
          have hne : d ≠ '*' := fun hd => hstar tail (hd ▸ he)
          simpa using hne
      · cases h; exact ⟨.slash, rest, rfl, trivial⟩
      · cases h; exact ⟨.percent, rest, rfl, trivial⟩
      · cases h; exact ⟨.caret, rest, rfl, trivial⟩
      · split at h
        · cases h
        · next d ds he =>
          cases h
          have hw : ∀ d ∈ ([] : List Char), d.isDigit := List.forall_mem_nil _
          refine ⟨.decimal hw (fun e he' => mem_takeWhile (he ▸ he')) (by simp), rest.dropWhile Char.isDigit, ?_,
            notAhead_dropWhile _ rest⟩
          · rw [← he, List.takeWhile_append_dropWhile]
      · cases h

/-- The scanner takes what matches when nothing longer does. -/
theorem longest?_eq_some_iff {s : Shape} {c : Char} {more rest : List Char} :
    longest? c rest = some (s, more) ↔ ∃ after, rest = more ++ after ∧ s.LongestMatch (c :: more) after := by
  refine ⟨fun h => ?_, ?_⟩
  · obtain ⟨hm, after, rfl, -⟩ := matches_of_longest? h
    refine ⟨after, rfl, hm, fun s' text' hm' hp => ?_⟩
    obtain ⟨d, more', rfl⟩ := List.exists_cons_of_ne_nil hm'.ne_nil
    rw [List.cons_append] at hp
    obtain ⟨rfl, hp'⟩ := List.cons_prefix_cons.1 hp
    obtain ⟨s'', more'', h', hlen⟩ := exists_longest? hm' hp'
    rw [h] at h'
    cases h'
    exact Nat.succ_le_succ hlen
  · rintro ⟨after, rfl, hm, hlongest⟩
    obtain ⟨s', more', h, hlen⟩ := exists_longest? hm (List.prefix_append more after)
    obtain ⟨hm', after', he, -⟩ := matches_of_longest? h
    have hle := hlongest s' (c :: more') hm' ⟨after', by rw [List.cons_append, List.cons_append, he]⟩
    -- Two prefixes of one length are one, and one text has one shape.
    obtain ⟨rfl, rfl⟩ := List.append_inj he (by simp only [List.length_cons] at hle; omega)
    have hs := longest?_of_matches hm (ends_nil s)
    have hs' := longest?_of_matches hm' (ends_nil s')
    rw [hs] at hs'
    cases hs'
    exact h

theorem LongestMatch.ends {s : Shape} {text after : List Char} (h : s.LongestMatch text after) : s.Ends after := by
  obtain ⟨c, more, rfl⟩ := List.exists_cons_of_ne_nil h.isMatch.ne_nil
  obtain ⟨-, after', he, hends⟩ := matches_of_longest? (longest?_eq_some_iff.2 ⟨after, rfl, h⟩)
  exact List.append_cancel_left he ▸ hends

theorem Matches.longestMatch {s : Shape} {text after : List Char} (h : s.Matches text) (he : s.Ends after) :
    s.LongestMatch text after := by
  obtain ⟨c, more, rfl⟩ := List.exists_cons_of_ne_nil h.ne_nil
  obtain ⟨after', he', hl⟩ := longest?_eq_some_iff.1 (longest?_of_matches h he)
  exact List.append_cancel_left he' ▸ hl

/-- The scanner gives up where no rule applies. -/
theorem longest?_eq_none_iff {c : Char} {rest : List Char} :
    longest? c rest = none ↔ ∀ s more, more <+: rest → ¬Matches s (c :: more) := by
  refine ⟨fun h s more hp hm => ?_, fun h => ?_⟩
  · obtain ⟨s', more', h', -⟩ := exists_longest? hm hp
    rw [h] at h'
    cases h'
  · cases h' : longest? c rest with
    | none => rfl
    | some found =>
      obtain ⟨s, more⟩ := found
      obtain ⟨hm, after, rfl, -⟩ := matches_of_longest? h'
      exact absurd hm (h s more (List.prefix_append more after))

/-- A text has at most one shape. -/
theorem Matches.unique {s s' : Shape} {text : List Char} (h : s.Matches text) (h' : s'.Matches text) : s = s' := by
  obtain ⟨c, more, rfl⟩ := List.exists_cons_of_ne_nil h.ne_nil
  have hs := longest?_of_matches h (ends_nil s)
  rw [longest?_of_matches h' (ends_nil s')] at hs
  cases hs
  rfl

theorem alphabet_of_isBlank (s : Shape) {c : Char} (h : isBlank c = true) : s.alphabet c = false := by
  simp only [isBlank, Bool.or_eq_true, beq_iff_eq] at h
  rcases h with ((rfl | rfl) | rfl) | rfl <;> cases s with
    | operator op => cases op <;> rfl
    | _ => rfl

/-- A lexeme has no character that is skipped. -/
theorem Matches.not_isBlank {s : Shape} {text : List Char} {c : Char} (h : s.Matches text) (hc : c ∈ text) :
    isBlank c = false := by
  rw [← Bool.not_eq_true]
  exact fun hb => h.not_mem (alphabet_of_isBlank s hb) hc

end Shape

end Reckon
