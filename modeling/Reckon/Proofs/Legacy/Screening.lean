import Mathlib.Data.List.Infix
import Mathlib.Data.List.SplitBy
import Reckon.Proofs.Legacy.Admission
/-!
# What the admission check decides

The check scans an expression twice, once with a depth and once with the names that may begin at a character. We say
without scanning what comes of it. The parentheses are counted in the fronts of the text, and what is left without the
names is the text but for those of its words that are names, where a word is as long as word characters go on. The
scan for names finds just these: a name that it takes out begins and ends where a word does, and behind the first
character of a word nothing is taken out.
-/

namespace Reckon.Legacy

variable {text rest : List Char} {c : Char}

/-! ## Parentheses -/

/-- Where `depth` groups are open already, some front of the text closes more groups than are open. -/
def Overclosed (depth : Nat) (text : List Char) : Prop :=
  ∃ front, front <+: text ∧ depth + front.count '(' < front.count ')'

theorem count_cons_eq_add (d : Char) : (c :: text).count d = [c].count d + text.count d := by
  rw [← List.count_append, List.singleton_append]

theorem overclosed_cons {depth depth' : Nat} (hd : depth' + [c].count ')' = depth + [c].count '(') :
    Overclosed depth (c :: text) ↔ Overclosed depth' text := by
  refine ⟨?_, ?_⟩
  · rintro ⟨front, hfront, hmore⟩
    rcases List.prefix_cons_iff.1 hfront with rfl | ⟨front, rfl, hprefix⟩
    · exact absurd hmore (Nat.not_lt_zero _)
    · rw [count_cons_eq_add '(', count_cons_eq_add ')'] at hmore
      exact ⟨front, hprefix, by omega⟩
  · rintro ⟨front, hprefix, hmore⟩
    refine ⟨c :: front, List.cons_prefix_cons.2 ⟨rfl, hprefix⟩, ?_⟩
    rw [count_cons_eq_add '(', count_cons_eq_add ')']
    omega

/-- What the parentheses of a text come to that stands inside `depth` open groups. -/
inductive Nesting (depth : Nat) (text : List Char) : Except Error Unit → Prop
  | overclosed : Overclosed depth text → Nesting depth text (.error .tooManyClosing)
  | unclosed : ¬Overclosed depth text → text.count ')' < depth + text.count '(' →
      Nesting depth text (.error .tooManyOpening)
  | balanced : ¬Overclosed depth text → text.count ')' = depth + text.count '(' → Nesting depth text (.ok ())

theorem Nesting.cons {depth depth' : Nat} {v : Except Error Unit} (h : Nesting depth' text v)
    (hd : depth' + [c].count ')' = depth + [c].count '(') : Nesting depth (c :: text) v := by
  have hover : Overclosed depth (c :: text) ↔ Overclosed depth' text := overclosed_cons hd
  have hopen : (c :: text).count '(' = [c].count '(' + text.count '(' := count_cons_eq_add '('
  have hclose : (c :: text).count ')' = [c].count ')' + text.count ')' := count_cons_eq_add ')'
  cases h with
  | overclosed ho => exact .overclosed (hover.2 ho)
  | unclosed ho hcount => exact .unclosed (mt hover.1 ho) (by omega)
  | balanced ho hcount => exact .balanced (mt hover.1 ho) (by omega)

theorem nesting_checkBalance (depth : Nat) (text : List Char) : Nesting depth text (checkBalance depth text) := by
  have hnil : ∀ depth, ¬Overclosed depth [] := by
    rintro depth ⟨front, hfront, hmore⟩
    rw [List.prefix_nil.1 hfront] at hmore
    exact Nat.not_lt_zero _ hmore
  fun_induction checkBalance depth text with
  | case1 depth hd => exact .unclosed (hnil depth) hd
  | case2 depth hd => exact .balanced (hnil depth) (Nat.eq_zero_of_not_pos hd).symm
  | case3 depth text ih => exact ih.cons rfl
  | case4 text hne => exact .overclosed ⟨[')'], List.prefix_append [')'] text, Nat.zero_lt_one⟩
  | case5 depth text hne hd ih =>
    refine ih.cons ?_
    simp
    omega
  | case6 depth c text hopen hclose ih => exact ih.cons (by simp [hopen, hclose])

/-! ## Words -/

/-- The text cut up: its words, each as long as word characters go on, and every other character by itself. -/
def chunks (text : List Char) : List (List Char) := text.splitBy fun c d => isWordChar c && isWordChar d

/-- The text without those of its words that are names. -/
def remainder (names : List (List Char)) (text : List Char) : List Char :=
  ((chunks text).filter fun chunk => chunk ∉ names).flatten

theorem chunks_cons (hc : isWordChar c = false) : chunks (c :: rest) = [c] :: chunks rest := by
  have happ : chunks ([c] ++ rest) = chunks [c] ++ chunks rest := by
    refine List.splitBy_append fun d hd e _ => ?_
    obtain rfl : c = d := by simpa using hd
    rw [hc, Bool.false_and]
  exact happ

theorem chunks_word {word : List Char} (hne : word ≠ []) (hword : ∀ d ∈ word, isWordChar d = true)
    (hr : NotAhead isWordChar rest) : chunks (word ++ rest) = word :: chunks rest := by
  have hchain : word.IsChain fun c d => (isWordChar c && isWordChar d) = true := by
    refine List.Pairwise.isChain (List.pairwise_of_forall_mem_list fun d hd e he => ?_)
    rw [hword d hd, hword e he, Bool.and_self]
  have happ : chunks (word ++ rest) = chunks word ++ chunks rest := by
    refine List.splitBy_append fun d _ e he => ?_
    rw [hr e he, Bool.and_false]
  rw [happ, chunks, List.splitBy_of_isChain hne hchain, List.singleton_append]

section Words

variable {names : List (List Char)} {before : Option Char}

theorem remainder_cons (hc : isWordChar c = false) (hn : [c] ∉ names) :
    remainder names (c :: rest) = c :: remainder names rest := by
  rw [remainder, chunks_cons hc, List.filter_cons_of_pos (by simpa using hn)]
  rfl

theorem remainder_name {word : List Char} (hne : word ≠ []) (hword : ∀ d ∈ word, isWordChar d = true)
    (hr : NotAhead isWordChar rest) (hn : word ∈ names) : remainder names (word ++ rest) = remainder names rest := by
  rw [remainder, chunks_word hne hword hr, List.filter_cons_of_neg (by simpa using hn)]
  rfl

theorem remainder_word {word : List Char} (hne : word ≠ []) (hword : ∀ d ∈ word, isWordChar d = true)
    (hr : NotAhead isWordChar rest) (hn : word ∉ names) :
    remainder names (word ++ rest) = word ++ remainder names rest := by
  rw [remainder, chunks_word hne hword hr, List.filter_cons_of_pos (by simpa using hn)]
  rfl

/-- Behind a word character nothing is taken out of the word. -/
theorem withoutNames_within {word : List Char} (hb : before.any isWordChar = true)
    (hword : ∀ d ∈ word, isWordChar d = true) :
    withoutNames names before (word ++ rest) = word ++ withoutNames names (word.getLast?.or before) rest := by
  induction word generalizing before with
  | nil => rfl
  | cons c word ih =>
    rw [List.forall_mem_cons] at hword
    have hc : (some c).any isWordChar = true := hword.1
    rw [List.cons_append, withoutNames, if_pos hb, ih hc hword.2, List.getLast?_cons]
    cases word.getLast? <;> rfl

/-- A word that is no name is left. -/
theorem withoutNames_word {word : List Char} (hw : AreWords names) (hne : word ≠ [])
    (hword : ∀ d ∈ word, isWordChar d = true) (hr : NotAhead isWordChar rest) (hn : word ∉ names) :
    withoutNames names before (word ++ rest) = word ++ withoutNames names word.getLast? rest := by
  -- A name that is found ends where the word does, so it would be the word.
  have hfind : names.find? (beginsWith (word ++ rest)) = none := by
    refine List.find?_eq_none.2 fun name hname hbegins => hn ?_
    obtain ⟨rest', he, hr'⟩ := beginsWith_iff.1 hbegins
    exact (run_unique hword hr (hw name hname).2 hr' he).1 ▸ hname
  obtain ⟨c, word, rfl⟩ := List.exists_cons_of_ne_nil hne
  rw [List.forall_mem_cons] at hword
  rw [List.cons_append] at hfind ⊢
  have hc : (some c).any isWordChar = true := hword.1
  rw [withoutNames, hfind, ite_self, List.getLast?_cons]
  simp only [withoutNames_within hc hword.2]
  cases word.getLast? <;> rfl

/-- A text is made of words and other characters. -/
theorem word_induction {P : List Char → Prop} (nil : P [])
    (other : ∀ c rest, isWordChar c = false → P rest → P (c :: rest))
    (word : ∀ w rest, w ≠ [] → (∀ d ∈ w, isWordChar d = true) → NotAhead isWordChar rest → P rest → P (w ++ rest))
    (text : List Char) : P text := by
  induction hn : text.length using Nat.strongRecOn generalizing text with
  | ind n ih =>
    subst hn
    cases text with
    | nil => exact nil
    | cons c rest =>
      cases hc : isWordChar c with
      | false => exact other c rest hc (ih _ (Nat.lt_succ_self _) rest rfl)
      | true =>
        have hlength : (rest.dropWhile isWordChar).length < (c :: rest).length :=
          Nat.lt_succ_of_le (List.dropWhile_suffix isWordChar).length_le
        have hsplit := word (c :: rest.takeWhile isWordChar) (rest.dropWhile isWordChar) (List.cons_ne_nil _ _)
          (List.forall_mem_cons.2 ⟨hc, fun d hd => mem_takeWhile hd⟩) (notAhead_dropWhile _ _) (ih _ hlength _ rfl)
        rwa [List.cons_append, List.takeWhile_append_dropWhile] at hsplit

/-- What is left where the names are taken out is the text but for the words that are names. -/
theorem withoutNames_eq_remainder (hw : AreWords names) (text : List Char) :
    ∀ before : Option Char, (before.any isWordChar = true → NotAhead isWordChar text) →
      withoutNames names before text = remainder names text := by
  induction text using word_induction with
  | nil =>
    intro before _
    rw [withoutNames]
    rfl
  | other c rest hc ih =>
    intro before _
    have halpha : c.isAlpha = false := by
      simp only [isWordChar, Char.isAlphanum, Bool.or_eq_false_iff] at hc
      exact hc.1.1
    have hn : [c] ∉ names := by
      intro hmem
      rw [(hw [c] hmem).2 c List.mem_cons_self] at hc
      cases hc
    rw [withoutNames_cons hw halpha, remainder_cons hc hn, ih (some c) (by simp [hc])]
  | word w rest hne hword hr ih =>
    intro before hb
    -- A word character in front would be of the same word.
    have hstart : before.any isWordChar = false := by
      rw [← Bool.not_eq_true]
      intro hbefore
      obtain ⟨c, more, rfl⟩ := List.exists_cons_of_ne_nil hne
      have hc := notAhead_cons.1 (hb hbefore)
      rw [hword c List.mem_cons_self] at hc
      cases hc
    by_cases hn : w ∈ names
    · rw [withoutNames_name hw hn hstart hr, remainder_name hne hword hr hn, ih _ fun _ => hr]
    · rw [withoutNames_word hw hne hword hr hn, remainder_word hne hword hr hn, ih _ fun _ => hr]

example : remainder ["log".toList, "PI".toList] "log(PI, 2PI, log_ten)".toList = "(, 2PI, log_ten)".toList := by decide

end Words

/-! ## The check -/

/-- What becomes of a text, where `names` are known. -/
def verdict (names : List (List Char)) (text : List Char) : Except Error Unit :=
  let left := remainder names text
  if text.inits.any fun front => front.count '(' < front.count ')' then .error .tooManyClosing
  else if text.count ')' < text.count '(' then .error .tooManyOpening
  else if left = [] ∨ left.any fun c => !(c.isDigit || "+-*/^(),.".toList.contains c || Text.isBlank c) then
    .error (.invalidCharacters (String.ofList left))
  else .ok ()

theorem any_inits_iff :
    (text.inits.any fun front => front.count '(' < front.count ')') = true ↔ Overclosed 0 text := by
  simp only [List.any_eq_true, List.mem_inits, decide_eq_true_eq, Overclosed, Nat.zero_add]

theorem any_not_isAdmitted :
    (text.any fun c => !(c.isDigit || "+-*/^(),.".toList.contains c || Text.isBlank c)) = !text.all isAdmitted := by
  rw [List.not_all_eq_any_not]
  refine congrArg text.any (funext fun c => ?_)
  rw [isAdmitted, List.contains_eq_mem]
  rfl

/-- The admission check decides by counting parentheses and by what is left without the words that are names. -/
theorem check_eq_verdict (expression : String) :
    check registry expression = verdict (registry.names.map String.toList) expression.toList := by
  have hleft := withoutNames_eq_remainder areWords_registry expression.toList none nofun
  have hnesting := nesting_checkBalance 0 expression.toList
  unfold check verdict
  simp only [any_inits_iff, any_not_isAdmitted, hleft]
  cases hb : checkBalance 0 expression.toList with
  | error e =>
    rw [hb] at hnesting
    cases hnesting with
    | overclosed ho => rw [if_pos (any_inits_iff.2 ho)]
    | unclosed ho hcount =>
      rw [Nat.zero_add] at hcount
      rw [if_neg (mt any_inits_iff.1 ho), if_pos hcount]
  | ok _ =>
    rw [hb] at hnesting
    cases hnesting with
    | balanced ho hcount =>
      rw [Nat.zero_add] at hcount
      rw [if_neg (mt any_inits_iff.1 ho), hcount, if_neg (Nat.lt_irrefl _)]
      simp only [Bool.not_eq_true', Bool.not_eq_true]

end Reckon.Legacy
