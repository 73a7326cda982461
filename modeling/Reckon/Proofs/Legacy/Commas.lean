import Mathlib.Data.List.Forall2
import Reckon.Proofs.Legacy.Vetting
/-!
# Commas are blanks

The legacy route admits commas, ends words and literals at them and has no token for them, and so it does with spaces.
We follow two texts side by side, of which the second has spaces for some commas of the first: their parentheses are
the same, the same words are names in both, and the same tokens are cut from both.
-/

namespace Reckon.Legacy

variable {c d : Char} {s t : List Char}

/-- The second character is the first, or a space for a comma. -/
def Spaced (c d : Char) : Prop := c = d ∨ c = ',' ∧ d = ' '

instance : DecidableRel Spaced := fun _ _ => inferInstanceAs (Decidable (_ ∨ _))

theorem Spaced.apply_eq {α : Type} {f : Char → α} (h : Spaced c d) (hf : f ',' = f ' ') : f c = f d := by
  rcases h with rfl | ⟨rfl, rfl⟩
  · rfl
  · exact hf

/-! ## Runs of characters -/

section Runs

variable {p : Char → Bool} (h : List.Forall₂ Spaced s t)
include h

theorem any_head?_of_spaced (hp : p ',' = p ' ') : s.head?.any p = t.head?.any p := by
  cases h with
  | nil => rfl
  | cons hc _ => exact hc.apply_eq hp

theorem filter_of_spaced (hcomma : p ',' = false) (hspace : p ' ' = false) : s.filter p = t.filter p := by
  induction h with
  | nil => rfl
  | cons hc _ ih =>
    rcases hc with rfl | ⟨rfl, rfl⟩
    · rw [List.filter_cons, List.filter_cons, ih]
    · rw [List.filter_cons_of_neg (by simp [hcomma]), List.filter_cons_of_neg (by simp [hspace]), ih]

theorem takeWhile_of_spaced (hcomma : p ',' = false) (hspace : p ' ' = false) : s.takeWhile p = t.takeWhile p := by
  induction h with
  | nil => rfl
  | cons hc _ ih =>
    rcases hc with rfl | ⟨rfl, rfl⟩
    · rw [List.takeWhile_cons, List.takeWhile_cons, ih]
    · rw [List.takeWhile_cons, List.takeWhile_cons, hcomma, hspace]
      rfl

theorem dropWhile_of_spaced (hp : p ',' = p ' ') : List.Forall₂ Spaced (s.dropWhile p) (t.dropWhile p) := by
  induction h with
  | nil => exact .nil
  | @cons c d s t hc hs ih =>
    rw [List.dropWhile_cons, List.dropWhile_cons, hc.apply_eq hp]
    split
    · exact ih
    · exact .cons hc hs

theorem isPrefixOf_of_spaced {name : List Char} (hcomma : ',' ∉ name) (hspace : ' ' ∉ name) :
    name.isPrefixOf s = name.isPrefixOf t := by
  induction name generalizing s t with
  | nil => rw [List.isPrefixOf_nil_left, List.isPrefixOf_nil_left]
  | cons n name ih =>
    rw [List.mem_cons, not_or] at hcomma hspace
    cases h with
    | nil => rfl
    | cons hc hs =>
      rw [List.isPrefixOf_cons_cons, List.isPrefixOf_cons_cons, ih hs hcomma.2 hspace.2]
      rcases hc with rfl | ⟨rfl, rfl⟩
      · rfl
      · rw [beq_false_of_ne (Ne.symm hcomma.1), beq_false_of_ne (Ne.symm hspace.1)]

end Runs

/-! ## Admission -/

section Admission

variable {names : List (List Char)}

theorem beginsWith_of_spaced (h : List.Forall₂ Spaced s t) {name : List Char} (hw : ∀ d ∈ name, isWordChar d = true) :
    beginsWith s name = beginsWith t name := by
  have hcomma : ',' ∉ name := fun hmem => absurd (hw _ hmem) (by decide)
  have hspace : ' ' ∉ name := fun hmem => absurd (hw _ hmem) (by decide)
  rw [beginsWith, beginsWith, isPrefixOf_of_spaced h hcomma hspace,
    any_head?_of_spaced (List.forall₂_drop _ h) (rfl : isWordChar ',' = isWordChar ' ')]

theorem find?_of_spaced (h : List.Forall₂ Spaced s t) (hw : AreWords names) :
    names.find? (beginsWith s) = names.find? (beginsWith t) := by
  induction names with
  | nil => rfl
  | cons name names ih =>
    obtain ⟨hname, hnames⟩ := List.forall_mem_cons.1 hw
    rw [List.find?_cons, List.find?_cons, beginsWith_of_spaced h hname.2, ih hnames]

/-- Where the names are taken out, the same characters of both texts are left. -/
theorem exists_left_of_spaced (hw : AreWords names) (before : Option Char) (s : List Char) :
    ∀ (before' : Option Char) (t : List Char), List.Forall₂ Spaced s t →
      before.any isWordChar = before'.any isWordChar →
      ∃ left : List (Char × Char), left.Sublist (s.zip t) ∧ withoutNames names before s = left.map Prod.fst ∧
        withoutNames names before' t = left.map Prod.snd := by
  induction before, s using withoutNames.induct names with
  | case1 before =>
    intro before' t h _
    cases h
    exact ⟨[], List.Sublist.refl _, by rw [withoutNames]; rfl, by rw [withoutNames]; rfl⟩
  | case2 before c s name hname ih =>
    intro before' t h hb
    have hfind : (if before.any isWordChar = true then none else names.find? (beginsWith (c :: s))) = some name := hname
    cases h with
    | @cons _ d _ t hc hs =>
      -- The same name stands in both texts and goes from both.
      obtain ⟨left, hleft, hs', ht'⟩ := ih name.getLast? _ (List.forall₂_drop _ hs) rfl
      refine ⟨left, ?_, ?_, ?_⟩
      · rw [List.zip, ← List.drop_zipWith] at hleft
        exact (hleft.trans (List.drop_sublist _ _)).cons _
      · rw [withoutNames, hfind]
        exact hs'
      · rw [hb, find?_of_spaced (.cons hc hs) hw] at hfind
        rw [withoutNames, hfind]
        exact ht'
  | case3 before c s hname ih =>
    intro before' t h hb
    have hfind : (if before.any isWordChar = true then none else names.find? (beginsWith (c :: s))) = none := hname
    cases h with
    | @cons _ d _ t hc hs =>
      obtain ⟨left, hleft, hs', ht'⟩ := ih (some d) _ hs (hc.apply_eq (rfl : isWordChar ',' = isWordChar ' '))
      refine ⟨(c, d) :: left, hleft.cons_cons _, ?_, ?_⟩
      · rw [withoutNames, hfind]
        exact congrArg (c :: ·) hs'
      · rw [hb, find?_of_spaced (.cons hc hs) hw] at hfind
        rw [withoutNames, hfind]
        exact congrArg (d :: ·) ht'

end Admission

/-! ## Tokens -/

namespace Token

variable {r : Registry}

theorem longest?_of_spaced (h : List.Forall₂ Spaced s t) : longest? r c s = longest? r c t := by
  have hdrop := dropWhile_of_spaced h (rfl : Char.isDigit ',' = Char.isDigit ' ')
  unfold longest?
  rw [takeWhile_of_spaced h (rfl : Char.isDigit ',' = false) rfl, takeWhile_of_spaced h (rfl : isNameChar ',' = false) rfl]
  generalize s.dropWhile Char.isDigit = behind at hdrop ⊢
  generalize t.dropWhile Char.isDigit = behind' at hdrop ⊢
  cases hdrop with
  | nil => rfl
  | @cons d d' fraction fraction' hc hs =>
    rcases hc with rfl | ⟨rfl, rfl⟩
    · by_cases hd : d = '.'
      · subst hd
        simp only [takeWhile_of_spaced hs (rfl : Char.isDigit ',' = false) rfl]
      · simp [hd]
    · rfl

/-- The same tokens are cut from both texts. -/
theorem lex_of_spaced (s : List Char) : ∀ {t : List Char}, List.Forall₂ Spaced s t → lex r s = lex r t := by
  induction s using lex.induct r with
  | case1 =>
    intro t h
    cases h
    rfl
  | case2 c s hnone ih =>
    intro t h
    cases h with
    | cons hc hs =>
      rw [lex_skip hnone, ih hs]
      -- Neither does a space begin a token.
      rcases hc with rfl | ⟨rfl, rfl⟩
      · rw [lex_skip (longest?_of_spaced hs ▸ hnone)]
      · rw [lex_skip rfl]
  | case3 c s token more hsome ih =>
    intro t h
    cases h with
    | cons hc hs =>
      rcases hc with rfl | ⟨rfl, rfl⟩
      · rw [lex, hsome, lex, ← longest?_of_spaced hs, hsome]
        simp only [ih (List.forall₂_drop _ hs)]
      · -- A comma begins no token.
        cases hsome

end Token

/-! ## Evaluations -/

/-- The texts that are left of two texts when the same of their characters are taken out. -/
def LeftOf (s t rest rest' : List Char) : Prop :=
  ∃ left : List (Char × Char), left.Sublist (s.zip t) ∧ rest = left.map Prod.fst ∧ rest' = left.map Prod.snd

/-- Evaluations of two expressions that come to the same, but that they report the characters of either. -/
inductive Alike (s t : String) : Evaluation → Evaluation → Prop
  | success (v tokens) : Alike s t (.success s v tokens) (.success t v tokens)
  | failure (tokens e) : Alike s t (.failure s tokens e) (.failure t tokens e)
  | invalidCharacters {rest rest'} : LeftOf s.toList t.toList rest rest' →
      Alike s t (.failure s none (.invalidCharacters (String.ofList rest)))
        (.failure t none (.invalidCharacters (String.ofList rest')))

theorem check_of_spaced {s t : String} (h : List.Forall₂ Spaced s.toList t.toList) :
    check registry s = check registry t ∨ ∃ rest rest', LeftOf s.toList t.toList rest rest' ∧
      check registry s = .error (.invalidCharacters (String.ofList rest)) ∧
      check registry t = .error (.invalidCharacters (String.ofList rest')) := by
  have hbalance : checkBalance 0 s.toList = checkBalance 0 t.toList := by
    rw [← checkBalance_filter, filter_of_spaced h rfl rfl, checkBalance_filter]
  obtain ⟨left, hleft, hs, ht⟩ := exists_left_of_spaced areWords_registry none s.toList none t.toList h rfl
  have hadmitted : (left.map Prod.fst).all isAdmitted = (left.map Prod.snd).all isAdmitted := by
    rw [Bool.eq_iff_iff, List.all_eq_true, List.all_eq_true, List.forall_mem_map, List.forall_mem_map]
    refine forall₂_congr fun pair hpair => ?_
    rw [(List.forall₂_zip h (hleft.subset hpair)).apply_eq (rfl : isAdmitted ',' = isAdmitted ' ')]
  unfold check
  simp only [hs, ht, hbalance, hadmitted, List.map_eq_nil_iff]
  cases checkBalance 0 t.toList with
  | error e => exact .inl rfl
  | ok _ =>
    simp only
    split
    · exact .inr ⟨_, _, ⟨left, hleft, rfl, rfl⟩, rfl, rfl⟩
    · exact .inl rfl

/-- A comma is nothing but a space. -/
theorem alike_of_spaced {s t : String} (h : List.Forall₂ Spaced s.toList t.toList) :
    Alike s t (Evaluation.run s) (Evaluation.run t) := by
  unfold Evaluation.run
  rcases check_of_spaced h with hcheck | ⟨rest, rest', hleft, hs, ht⟩
  · rw [hcheck, Token.lex_of_spaced s.toList h]
    cases check registry t with
    | error e => exact .failure none e
    | ok _ =>
      simp only
      split
      · exact .failure _ _
      · exact .success _ _
  · rw [hs, ht]
    exact .invalidCharacters hleft

/-- A comma between two points that belong to two numbers. -/
theorem alike_of_spaced_points : List.Forall₂ Spaced "log(1.,.5,)".toList "log(1. .5,)".toList ∧
    Alike "log(1.,.5,)" "log(1. .5,)" (Evaluation.run "log(1.,.5,)") (Evaluation.run "log(1. .5,)") := by
  have h : List.Forall₂ Spaced "log(1.,.5,)".toList "log(1. .5,)".toList := by decide +kernel
  exact ⟨h, alike_of_spaced h⟩

end Reckon.Legacy
