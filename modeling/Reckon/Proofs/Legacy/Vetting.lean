import Reckon.Legacy.Evaluation
import Reckon.Proofs.Legacy.Admission
import Reckon.Proofs.Legacy.Cutting
import Reckon.Proofs.Legacy.Running
import Reckon.Proofs.Legacy.Screening
/-!
# What the legacy route relies on

The stages behind the admission check take for granted what it has looked for in the text: a name that is not known
would vanish, a closing parenthesis without its opening one would empty the stack, and an opening one that is left
would be forgotten. We prove that none of this happens to an admitted expression. The lexer is followed along the text
together with the removal of names, where the character in front does not matter: a letter or an underscore that is
left is not admitted.
-/

namespace Reckon.Legacy

variable {r : Registry} {c : Char} {t : Token} {text more rest : List Char} {stack : List Pending}

/-! ## Parentheses -/

/-- Whether the character is a parenthesis. -/
def isParen (c : Char) : Bool := c == '(' || c == ')'

/-- Where `depth` groups are open already, nothing is closed that is not open, and all groups are closed in the end. -/
structure Balanced (depth : Nat) (text : List Char) : Prop where
  opened : ∀ front, front <+: text → front.count ')' ≤ depth + front.count '('
  closed : text.count ')' = depth + text.count '('

/-- The check finds a text balanced only if it is. -/
theorem balanced_of_checkBalance {depth : Nat} (h : checkBalance depth text = .ok ()) : Balanced depth text := by
  have hnesting := nesting_checkBalance depth text
  rw [h] at hnesting
  cases hnesting with
  | balanced hopened hclosed =>
    exact ⟨fun front hfront => Nat.le_of_not_lt fun hmore => hopened ⟨front, hfront, hmore⟩, hclosed⟩

theorem checkBalance_filter (depth : Nat) (text : List Char) :
    checkBalance depth (text.filter isParen) = checkBalance depth text := by
  induction text generalizing depth with
  | nil => rfl
  | cons c text ih =>
    by_cases hopen : c = '('
    · subst hopen
      exact ih (depth + 1)
    · by_cases hclose : c = ')'
      · subst hclose
        rw [List.filter_cons_of_pos rfl]
        simp only [checkBalance, ih]
      · rw [List.filter_cons_of_neg (by simp [isParen, hopen, hclose]), checkBalance, if_neg hopen, if_neg hclose, ih]

/-! ## Parentheses among tokens -/

namespace Token

theorem filter_isParen_eq_nil {p : Char → Bool} (hp : p '(' = false ∧ p ')' = false) (h : ∀ d ∈ text, p d = true) :
    text.filter isParen = [] := by
  refine List.filter_eq_nil_iff.2 fun d hd hparen => ?_
  have hpd := h d hd
  rcases Bool.or_eq_true_iff.1 hparen with he | he <;> obtain rfl := beq_iff_eq.1 he
  · rw [hp.1] at hpd
    cases hpd
  · rw [hp.2] at hpd
    cases hpd

theorem paren?_ofName (hc : isNameStart c = true) : (ofName r (String.ofList (c :: more))).paren? = none := by
  have hne : ∀ d : Char, isNameStart d = false → String.ofList (c :: more) ≠ String.singleton d := by
    intro d hd he
    have hlist := congrArg String.toList he
    rw [String.toList_ofList, String.toList_singleton] at hlist
    obtain ⟨rfl, -⟩ := List.cons.inj hlist
    rw [hd] at hc
    cases hc
  unfold ofName
  split
  · rfl
  · exact (if_neg (hne '(' rfl)).trans (if_neg (hne ')' rfl))

theorem Reads.paren? {after : List Char} (h : Reads r text after t) : t.paren?.toList = text.filter isParen := by
  cases h with
  | @symbol c _ hc =>
    simp only [isSymbol, List.mem_cons, List.not_mem_nil, or_false, decide_eq_true_eq] at hc
    rcases hc with rfl | rfl | rfl | rfl | rfl | rfl | rfl <;> decide
  | literal hcs =>
    rw [filter_isParen_eq_nil (p := fun d => d.isDigit || d == '.') ⟨rfl, rfl⟩ (by simpa using hcs)]
    rfl
  | @word c more _ hc hmore _ =>
    have hword : ∀ d ∈ c :: more, isNameChar d = true := List.forall_mem_cons.2 ⟨isNameChar_of_isNameStart hc, hmore⟩
    rw [filter_isParen_eq_nil (p := isNameChar) ⟨rfl, rfl⟩ hword, paren?_ofName hc]
    rfl

/-- The parentheses among the tokens are those of the text. -/
theorem Cuts.filterMap_paren? {ts : List Token} (h : Cuts r text ts) : ts.filterMap paren? = text.filter isParen := by
  induction h with
  | nil => rfl
  | @skip c rest ts hs _ _ ih =>
    have hc : isParen c = false := by
      rw [← Bool.not_eq_true]
      intro hparen
      rcases Bool.or_eq_true_iff.1 hparen with he | he <;> obtain rfl := beq_iff_eq.1 he <;> cases hs
    rw [List.filter_cons_of_neg (Bool.not_eq_true _ ▸ hc), ih]
  | @take text after t ts ht _ ih =>
    rw [List.filterMap_cons, List.filter_append, ← ht.paren?, ← ih]
    cases t.paren? <;> rfl

end Token

/-! ## Known tokens -/

/-- A number, a symbol or the name of a function. -/
inductive Known (r : Registry) : Token → Prop
  | number (v) : Known r (.number v)
  | symbol {s} : s ∈ ["(", ")", "^", "*", "/", "+", "-"] → Known r (.symbol s)
  | function {f} : f ∈ r.functions → Known r (.symbol f.name)

theorem known_ofName {name : String} (h : name ∈ r.names) : Known r (Token.ofName r name) := by
  unfold Token.ofName
  split
  · exact .number _
  · next hnone =>
    rcases List.mem_append.1 h with h | h
    · obtain ⟨f, hf, rfl⟩ := List.mem_map.1 h
      exact .function hf
    · obtain ⟨c, hc, hname⟩ := List.mem_map.1 h
      exact absurd hname (Registry.constant?_eq_none_iff.1 hnone c hc)

/-- A letter or an underscore that is left is not admitted. -/
theorem not_isAdmitted_of_isNameStart (h : Token.isNameStart c = true) : isAdmitted c = false := by
  rcases Bool.or_eq_true_iff.1 h with h | h
  · have hrange := h
    unfold Char.isAlpha Char.isUpper Char.isLower at hrange
    simp only [Bool.or_eq_true, Bool.and_eq_true, decide_eq_true_eq, ge_iff_le, UInt32.le_iff_toNat_le] at hrange
    change 65 ≤ c.toNat ∧ c.toNat ≤ 90 ∨ 97 ≤ c.toNat ∧ c.toNat ≤ 122 at hrange
    have hblank : Text.isBlank c = false := by
      simp only [Text.isBlank, Bool.or_eq_false_iff, Bool.and_eq_false_iff, decide_eq_false_iff_not, beq_eq_false_iff_ne]
      omega
    have hlist : c ∉ ['+', '-', '*', '/', '^', '(', ')', ',', '.'] := by
      intro hmem
      simp only [List.mem_cons, List.not_mem_nil, or_false] at hmem
      rcases hmem with rfl | rfl | rfl | rfl | rfl | rfl | rfl | rfl | rfl <;> cases h
    simp [isAdmitted, isDigit_eq_false_of_isAlpha h, hblank, hlist]
  · obtain rfl := beq_iff_eq.1 h
    decide

/-- Where everything that is left is admitted, a word is a name, and what is behind it is left as without it. -/
theorem exists_name_of_admitted {names : List (List Char)} {before : Option Char} (hw : AreWords names)
    (h : ∀ d ∈ withoutNames names before (c :: rest), isAdmitted d = true) (hc : Token.isNameStart c = true) :
    ∃ name ∈ names, ∃ after, c :: rest = name ++ after ∧ NotAhead isWordChar after ∧
      withoutNames names before (c :: rest) = withoutNames names name.getLast? after := by
  rw [withoutNames] at h ⊢
  split at h
  · next name hfind =>
    split at hfind
    · cases hfind
    · obtain ⟨after, htext, hends⟩ := beginsWith_iff.1 (List.find?_some hfind)
      have hname := List.mem_of_find?_eq_some hfind
      obtain ⟨⟨d, more, rfl, -⟩, -⟩ := hw name hname
      obtain ⟨rfl, rfl⟩ := List.cons.inj htext
      refine ⟨c :: more, hname, after, rfl, hends, ?_⟩
      rw [List.length_cons, Nat.add_sub_cancel, List.append_eq, List.drop_left]
  · -- the word would be left, from its first character on
    rw [List.forall_mem_cons, not_isAdmitted_of_isNameStart hc] at h
    cases h.1

/-- All tokens of a text are known if everything is admitted that is left without the names. -/
theorem Token.Cuts.known {ts : List Token} (h : Token.Cuts r text ts) (hw : AreWords (r.names.map String.toList)) :
    ∀ before, (∀ d ∈ withoutNames (r.names.map String.toList) before text, isAdmitted d = true) →
      ∀ t ∈ ts, Known r t := by
  induction h with
  | nil => exact fun _ _ => List.forall_mem_nil _
  | @skip c rest ts _ hn _ ih =>
    intro before hadm
    rw [withoutNames_cons hw (Bool.or_eq_false_iff.1 hn).1, List.forall_mem_cons] at hadm
    exact ih _ hadm.2
  | @take text after t ts ht _ ih =>
    intro before hadm
    cases ht with
    | @symbol c _ hs =>
      simp only [Token.isSymbol, List.mem_cons, List.not_mem_nil, or_false, decide_eq_true_eq] at hs
      have hc : c.isAlpha = false ∧ String.singleton c ∈ ["(", ")", "^", "*", "/", "+", "-"] := by
        rcases hs with rfl | rfl | rfl | rfl | rfl | rfl | rfl <;> decide
      rw [List.singleton_append, withoutNames_cons hw hc.1, List.forall_mem_cons] at hadm
      exact List.forall_mem_cons.2 ⟨.symbol hc.2, ih _ hadm.2⟩
    | literal hcs =>
      have halpha : ∀ d ∈ text, d.isAlpha = false := by
        intro d hd
        rcases hcs d hd with hdigit | rfl
        · rw [← Bool.not_eq_true]
          intro ha
          rw [isDigit_eq_false_of_isAlpha ha] at hdigit
          cases hdigit
        · rfl
      rw [withoutNames_append hw halpha, List.forall_mem_append] at hadm
      exact List.forall_mem_cons.2 ⟨.number _, ih _ hadm.2⟩
    | @word c more _ hc hmore hends =>
      -- The removed name and the token's word are the same run of characters.
      rw [List.cons_append] at hadm
      obtain ⟨name, hname, after', htext, hends', hleft⟩ := exists_name_of_admitted hw hadm hc
      have hword : ∀ d ∈ c :: more, isWordChar d = true :=
        List.forall_mem_cons.2 ⟨Token.isNameChar_of_isNameStart hc, hmore⟩
      obtain ⟨rfl, rfl⟩ := run_unique hword hends (hw name hname).2 hends' htext
      rw [hleft] at hadm
      obtain ⟨n, hn, hlist⟩ := List.mem_map.1 hname
      refine List.forall_mem_cons.2 ⟨?_, ih _ hadm⟩
      rw [← hlist, String.ofList_toList]
      exact known_ofName hn

/-! ## Steps on known tokens -/

/-- A known token does not vanish, unless it closes a group that is not open. -/
theorem Takes.kept {items : List Item} {stack' : List Pending} (h : Takes registry stack t items stack')
    (hk : Known registry t) (hclose : t = .symbol ")" → .opening ∈ stack) : ¬(items = [] ∧ stack' = stack) := by
  rintro ⟨hitems, hstack⟩
  cases h with
  | number v => cases hitems
  | function hf => exact List.cons_ne_self _ _ hstack
  | @operator s op rest released hf hop hwaits =>
    obtain rfl := List.map_eq_nil_iff.1 hitems
    rw [hwaits] at hstack
    exact List.cons_ne_self _ _ hstack
  | opening hf => exact List.cons_ne_self _ _ hstack
  | closing hf =>
    have hlength := length_closeGroup (hclose rfl)
    rw [hstack] at hlength
    exact Nat.lt_irrefl _ hlength
  | @nothing s hf hop hs hs' =>
    -- a known symbol is a function, an operator or a parenthesis
    cases hk with
    | symbol hmem =>
      simp only [List.mem_cons, List.not_mem_nil, or_false] at hmem
      rcases hmem with rfl | rfl | rfl | rfl | rfl | rfl | rfl
      · exact hs rfl
      · exact hs' rfl
      all_goals cases hop
    | @function f hmem =>
      rw [Registry.function?_eq_some_iff.2 ⟨hmem, rfl⟩] at hf
      cases hf

/-! ## Admitted expressions -/

/-- What the stages behind the admission check rely on, for an expression and its tokens. -/
structure Vetted (expression : String) (tokens : List Token) : Prop where
  known : ∀ t ∈ tokens, Known registry t
  parens : tokens.filterMap Token.paren? = expression.toList.filter isParen
  balanced : Balanced 0 (tokens.filterMap Token.paren?)
  /-- No token vanishes. -/
  kept : ∀ before t after items stack, tokens = before ++ t :: after →
    takeAll registry [] before = .ok (items, stack) → step registry stack t ≠ .ok ([], stack)
  /-- A closing parenthesis finds an opening one. -/
  closes : ∀ before after items stack, tokens = before ++ .symbol ")" :: after →
    takeAll registry [] before = .ok (items, stack) → .opening ∈ stack
  /-- No opening parenthesis is left. -/
  closed : ∀ items stack, takeAll registry [] tokens = .ok (items, stack) → .opening ∉ stack
  /-- Only a function without its argument makes the evaluation fail. -/
  outcome : (∃ program v, convert registry [] tokens = .ok program ∧ value program = .ok v ∧
      Evaluation.run expression = .success expression v tokens) ∨
    ∃ f ∈ functions, convert registry [] tokens = .error (.functionWithoutArgument f.name) ∧
      Evaluation.run expression = .failure expression (some tokens) (.functionWithoutArgument f.name)

/-- Admission guarantees what the later stages rely on. -/
theorem vetted_of_check {expression : String} (h : check registry expression = .ok ()) :
    Vetted expression (Token.lex registry expression.toList) := by
  obtain ⟨hbalance, -, hadm⟩ := check_eq_ok_iff.1 h
  have hcuts := Token.cuts_lex registry expression.toList
  have hknown := hcuts.known areWords_registry none hadm
  have hparens := hcuts.filterMap_paren?
  -- The check of the text is one of the tokens, of which a run uses up one after the other.
  rw [← checkBalance_filter, ← hparens] at hbalance
  have hcloses : ∀ before after items stack, Token.lex registry expression.toList = before ++ .symbol ")" :: after →
      takeAll registry [] before = .ok (items, stack) → .opening ∈ stack := by
    intro before after items stack hsplit htake
    have hrest := checkBalance_of_takeAll htake (hsplit ▸ hbalance)
    refine mem_opening_iff.2 fun hdepth => ?_
    rw [hdepth] at hrest
    cases hrest
  refine ⟨hknown, hparens, balanced_of_checkBalance hbalance, ?_, hcloses, ?_, ?_⟩
  · intro before t after items stack hsplit htake hstep
    have hmem : t ∈ Token.lex registry expression.toList := hsplit ▸ List.mem_append_right _ List.mem_cons_self
    refine (takes_of_step hstep).kept (hknown t hmem) ?_ ⟨rfl, rfl⟩
    rintro rfl
    exact hcloses before after items stack hsplit htake
  · intro items stack htake hmem
    rw [← List.append_nil (Token.lex registry expression.toList)] at hbalance
    have hrest := checkBalance_of_takeAll htake hbalance
    rw [List.filterMap_nil, checkBalance, if_pos (Nat.pos_of_ne_zero (mem_opening_iff.1 hmem))] at hrest
    cases hrest
  · unfold Evaluation.run
    rw [h]
    rcases convert_cases (Token.lex registry expression.toList) with ⟨program, v, hconvert, hvalue⟩ | ⟨f, hf, hconvert⟩
    · refine .inl ⟨program, v, hconvert, hvalue, ?_⟩
      simp only [hconvert, hvalue]
      rfl
    · refine .inr ⟨f, hf, hconvert, ?_⟩
      simp only [hconvert]

/-- Names that stand between points, parentheses and a blank that is not ASCII. -/
theorem vetted_of_check_touching : check registry "2.log_ten(.5)^(\u00a0E)" = .ok () ∧
    Vetted "2.log_ten(.5)^(\u00a0E)" (Token.lex registry "2.log_ten(.5)^(\u00a0E)".toList) := by
  have hok : (check registry "2.log_ten(.5)^(\u00a0E)").isOk = true := by decide +kernel
  cases hcheck : check registry "2.log_ten(.5)^(\u00a0E)" with
  | error e =>
    rw [hcheck] at hok
    cases hok
  | ok _ => exact ⟨rfl, vetted_of_check hcheck⟩

end Reckon.Legacy
