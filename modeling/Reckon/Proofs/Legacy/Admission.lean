import Reckon.Legacy.Admission
import Reckon.Legacy.Names
import Reckon.Proofs.Expr.Nodes
import Reckon.Proofs.Legacy.Lexing
/-!
# What the legacy route admits

The legacy route looks at an expression as text, before it is cut into tokens. We relate both of its checks to the
tokens of the main lexer: the parentheses of the text balance because those of a derived expression do, and taking the
names out leaves only characters that are admitted because no name touches another word.
-/

namespace Reckon.Legacy

open Reckon.Token (Piece Splits)

/-! ## Parentheses -/

section Balance

variable {depth : Nat} {text rest : List Char}

/-- Characters that are no parentheses do not matter. -/
theorem checkBalance_append (h : ∀ c ∈ text, c ≠ '(' ∧ c ≠ ')') :
    checkBalance depth (text ++ rest) = checkBalance depth rest := by
  induction text with
  | nil => rfl
  | cons c text ih =>
    rw [List.forall_mem_cons] at h
    rw [List.cons_append, checkBalance, if_neg h.1.1, if_neg h.1.2, ih h.2]

/-- The parenthesis that a kind of token is. -/
def paren? : Token.Kind → Option Char
  | .leftParen => some '('
  | .rightParen => some ')'
  | _ => none

theorem checkBalance_open : checkBalance depth ('(' :: rest) = checkBalance (depth + 1) rest := rfl

theorem checkBalance_close : checkBalance (depth + 1) (')' :: rest) = checkBalance depth rest := rfl

theorem ne_paren_of_matches {s : Shape} (hm : s.Matches text) (hl : s ≠ .leftParen) (hr : s ≠ .rightParen) :
    ∀ c ∈ text, c ≠ '(' ∧ c ≠ ')' := by
  have hopen : s.alphabet '(' = false := by
    cases s with
    | leftParen => exact absurd rfl hl
    | operator op => cases op <;> rfl
    | _ => rfl
  have hclose : s.alphabet ')' = false := by
    cases s with
    | rightParen => exact absurd rfl hr
    | operator op => cases op <;> rfl
    | _ => rfl
  intro c hc
  refine ⟨?_, ?_⟩
  · rintro rfl
    exact hm.not_mem hopen hc
  · rintro rfl
    exact hm.not_mem hclose hc

/-- The balance of a source is the balance of its tokens. -/
theorem checkBalance_of_splits {r : Registry} {here : Nat} {cs : List Char} {pieces : List Piece}
    (h : Splits r here cs pieces) (depth : Nat) :
    checkBalance depth cs = checkBalance depth ((pieces.map (·.kind)).filterMap paren?) := by
  induction h generalizing depth with
  | done here => rfl
  | @blank here c rest pieces hb _ ih =>
    have hc : ∀ d ∈ [c], d ≠ '(' ∧ d ≠ ')' := by
      intro d hd
      rw [List.mem_singleton.1 hd]
      refine ⟨?_, ?_⟩ <;> rintro rfl <;> exact absurd hb (by decide)
    exact (checkBalance_append hc).trans (ih depth)
  | @lexeme here s text after kind pieces hm hk _ ih =>
    rw [List.map_cons, List.filterMap_cons]
    by_cases hl : s = .leftParen
    · subst hl
      cases hm.isMatch
      cases hk
      exact ih (depth + 1)
    · by_cases hr : s = .rightParen
      · subst hr
        cases hm.isMatch
        cases hk
        cases depth with
        | zero => rfl
        | succ depth => exact ih depth
      · have hnone : paren? kind = none := by
          have hs := Token.shape?_of_kindOf hk
          cases kind with
          | leftParen => cases hs; exact absurd rfl hl
          | rightParen => cases hs; exact absurd rfl hr
          | _ => rfl
        rw [hnone, checkBalance_append (ne_paren_of_matches hm.isMatch hl hr), ih depth]

end Balance

mutual

/-- Derived tokens are balanced. -/
theorem checkBalance_of_derives : ∀ {level : Level} {ks : List Token.Kind} {t : Tree}, Derives level ks t →
    ∀ (depth : Nat) (rest : List Char), checkBalance depth (ks.filterMap paren? ++ rest) = checkBalance depth rest
  | _, _, _, .product h, depth, rest | _, _, _, .power h, depth, rest | _, _, _, .primary h, depth, rest =>
    checkBalance_of_derives h depth rest
  | _, _, _, .sumChain _ hl hr, depth, rest | _, _, _, .productChain _ hl hr, depth, rest
  | _, _, _, .powerChain hl hr, depth, rest => by
    rw [List.filterMap_append, List.filterMap_cons_none rfl, List.append_assoc, checkBalance_of_derives hl,
      checkBalance_of_derives hr]
  | _, _, _, .integer v, depth, rest | _, _, _, .decimal v, depth, rest | _, _, _, .constant name v, depth, rest => rfl
  | _, _, _, .group h, depth, rest => by
    simp only [List.filterMap_cons, List.filterMap_append, List.filterMap_nil, paren?, List.cons_append,
      List.append_assoc, checkBalance_open, checkBalance_of_derives h, List.nil_append, checkBalance_close]
  | _, _, _, .negate h, depth, rest => checkBalance_of_derives h depth rest
  | _, _, _, .bareCall name, depth, rest => rfl
  | _, _, _, .call name h, depth, rest => by
    simp only [List.filterMap_cons, List.filterMap_append, List.filterMap_nil, paren?, List.cons_append,
      List.append_assoc, checkBalance_open, checkBalance_of_derivesAll h, List.nil_append, checkBalance_close]

theorem checkBalance_of_derivesAll : ∀ {ks : List Token.Kind} {ts : List Tree}, DerivesAll ks ts →
    ∀ (depth : Nat) (rest : List Char), checkBalance depth (ks.filterMap paren? ++ rest) = checkBalance depth rest
  | _, _, .one h, depth, rest => checkBalance_of_derives h depth rest
  | _, _, .more h hs, depth, rest => by
    rw [List.filterMap_append, List.filterMap_cons_none rfl, List.append_assoc, checkBalance_of_derives h,
      checkBalance_of_derivesAll hs]

end

/-! ## Names -/

/-- Every name is a word that begins with a letter. -/
def AreWords (names : List (List Char)) : Prop :=
  ∀ n ∈ names, (∃ c more, n = c :: more ∧ c.isAlpha = true) ∧ ∀ d ∈ n, isWordChar d = true

section Names

variable {names : List (List Char)} {before : Option Char} {text rest : List Char}

theorem beginsWith_iff {name : List Char} :
    beginsWith text name = true ↔ ∃ rest, text = name ++ rest ∧ NotAhead isWordChar rest := by
  unfold beginsWith
  rw [Bool.and_eq_true, List.isPrefixOf_iff_prefix]
  refine ⟨?_, ?_⟩
  · rintro ⟨⟨rest, rfl⟩, h⟩
    rw [List.drop_left] at h
    refine ⟨rest, rfl, fun c hc => ?_⟩
    rw [Option.mem_def] at hc
    simpa [hc] using h
  · rintro ⟨rest, rfl, h⟩
    refine ⟨List.prefix_append name rest, ?_⟩
    rw [List.drop_left]
    cases rest with
    | nil => rfl
    | cons c rest => simpa using notAhead_cons.1 h

/-- Where a name is a whole word no other name is found. -/
theorem find?_beginsWith (hw : AreWords names) (ht : text ∈ names) (hr : NotAhead isWordChar rest) :
    names.find? (beginsWith (text ++ rest)) = some text := by
  cases hf : names.find? (beginsWith (text ++ rest)) with
  | none =>
    have hself : beginsWith (text ++ rest) text = true := beginsWith_iff.2 ⟨rest, rfl, hr⟩
    exact absurd hself (List.find?_eq_none.1 hf text ht)
  | some name =>
    obtain ⟨rest', he, hr'⟩ := beginsWith_iff.1 (List.find?_some hf)
    rw [(run_unique (hw text ht).2 hr (hw name (List.mem_of_find?_eq_some hf)).2 hr' he).1]

/-- A name that is a whole word is taken out. -/
theorem withoutNames_name (hw : AreWords names) (ht : text ∈ names) (hb : before.any isWordChar = false)
    (hr : NotAhead isWordChar rest) :
    withoutNames names before (text ++ rest) = withoutNames names text.getLast? rest := by
  have hf := find?_beginsWith hw ht hr
  obtain ⟨⟨c, more, rfl, -⟩, -⟩ := hw text ht
  rw [List.cons_append] at hf ⊢
  rw [withoutNames, hb, if_neg Bool.false_ne_true, hf]
  simp

/-- No name begins with a character that is no letter. -/
theorem withoutNames_cons {c : Char} (hw : AreWords names) (hc : c.isAlpha = false) :
    withoutNames names before (c :: rest) = c :: withoutNames names (some c) rest := by
  have hf : names.find? (beginsWith (c :: rest)) = none := by
    rw [List.find?_eq_none]
    intro name hmem hb
    obtain ⟨⟨d, more, rfl, hd⟩, -⟩ := hw name hmem
    obtain ⟨rest', he, -⟩ := beginsWith_iff.1 hb
    injection he with he
    rw [he, hd] at hc
    cases hc
  rw [withoutNames, hf, ite_self]

theorem withoutNames_append (hw : AreWords names) (ht : ∀ c ∈ text, c.isAlpha = false) :
    withoutNames names before (text ++ rest) = text ++ withoutNames names (text.getLast?.or before) rest := by
  induction text generalizing before with
  | nil => rfl
  | cons c text ih =>
    rw [List.forall_mem_cons] at ht
    rw [List.cons_append, withoutNames_cons hw ht.1, ih ht.2, List.getLast?_cons]
    cases text.getLast? <;> rfl

end Names

/-! ## Names among tokens -/

/-- The name that a kind of token is. -/
def name? : Token.Kind → Option (List Char)
  | .constant name _ => some name.toList
  | .function name => some name.toList
  | _ => none

/-- Whether the token's text ends with a letter or a digit, or with a point. -/
def endsWord : Token.Kind → Bool
  | .integer _ | .decimal _ | .constant _ _ | .function _ => true
  | _ => false

/-- No name comes directly behind a number or a name, of which one stands in front of the tokens if `afterWord` says
so. -/
def Apart (afterWord : Bool) : List Token.Kind → Prop
  | [] => True
  | k :: ks => (afterWord = true → name? k = none) ∧ Apart (endsWord k) ks

theorem Apart.mono {b : Bool} {ks : List Token.Kind} (h : Apart true ks) : Apart b ks := by
  cases ks with
  | nil => trivial
  | cons k ks => exact ⟨fun _ => h.1 rfl, h.2⟩

mutual

/-- In derived tokens names are apart. -/
theorem apart_of_derives : ∀ {level : Level} {ks : List Token.Kind} {t : Tree}, Derives level ks t →
    ∀ {rest : List Token.Kind}, Apart true rest → Apart false (ks ++ rest)
  | _, _, _, .product h, _, hr | _, _, _, .power h, _, hr | _, _, _, .primary h, _, hr => apart_of_derives h hr
  | _, _, _, .sumChain _ hl hr', _, hr | _, _, _, .productChain _ hl hr', _, hr | _, _, _, .powerChain hl hr', _, hr => by
    rw [List.append_assoc]
    exact apart_of_derives hl ⟨fun _ => rfl, apart_of_derives hr' hr⟩
  | _, _, _, .integer v, _, hr | _, _, _, .decimal v, _, hr | _, _, _, .constant name v, _, hr => ⟨nofun, hr⟩
  | _, _, _, .group h, _, hr => by
    rw [List.cons_append, List.append_assoc]
    exact ⟨nofun, apart_of_derives h ⟨fun _ => rfl, hr.mono⟩⟩
  | _, _, _, .negate h, _, hr => ⟨nofun, apart_of_derives h hr⟩
  | _, _, _, .bareCall name, _, hr => ⟨nofun, fun _ => rfl, nofun, hr.mono⟩
  | _, _, _, .call name h, _, hr => by
    rw [List.cons_append, List.cons_append, List.append_assoc]
    exact ⟨nofun, fun _ => rfl, apart_of_derivesAll h ⟨fun _ => rfl, hr.mono⟩⟩

theorem apart_of_derivesAll : ∀ {ks : List Token.Kind} {ts : List Tree}, DerivesAll ks ts →
    ∀ {rest : List Token.Kind}, Apart true rest → Apart false (ks ++ rest)
  | _, _, .one h, _, hr => apart_of_derives h hr
  | _, _, .more h hs, _, hr => by
    rw [List.append_assoc]
    exact apart_of_derives h ⟨fun _ => rfl, apart_of_derivesAll hs hr⟩

end

/-- Of names alone only a constant derives. -/
theorem eq_constant_of_derives : ∀ {level : Level} {ks : List Token.Kind} {t : Tree}, Derives level ks t →
    (∀ k ∈ ks, (name? k).isSome) → ∃ name v, ks = [.constant name v]
  | _, _, _, .product h, hn | _, _, _, .power h, hn | _, _, _, .primary h, hn => eq_constant_of_derives h hn
  | _, _, _, .sumChain _ _ _, hn | _, _, _, .productChain _ _ _, hn | _, _, _, .powerChain _ _, hn => by
    have := hn _ (List.mem_append_right _ List.mem_cons_self)
    cases this
  | _, _, _, .integer v, hn | _, _, _, .decimal v, hn | _, _, _, .group h, hn | _, _, _, .negate h, hn => by
    have := hn _ List.mem_cons_self
    cases this
  | _, _, _, .constant name v, _ => ⟨name, v, rfl⟩
  | _, _, _, .bareCall name, hn | _, _, _, .call name h, hn => by
    have := hn _ (List.mem_cons_of_mem _ List.mem_cons_self)
    cases this

/-! ## Admitted sources -/

theorem of_alphabet {s : Shape} {c : Char} (h : s.alphabet c = true) (hs : s ≠ .name) :
    c.isAlpha = false ∧ (s = .operator .rem ∨ isAdmitted c = true) ∧
      (isWordChar c = true → s = .integer ∨ s = .decimal) := by
  have hdigit : c.isDigit = true → c.isAlpha = false ∧ isAdmitted c = true := by
    intro hd
    refine ⟨?_, by simp [isAdmitted, hd]⟩
    rw [← Bool.not_eq_true]
    intro ha
    rw [isDigit_eq_false_of_isAlpha ha] at hd
    cases hd
  cases s with
  | name => exact absurd rfl hs
  | integer => exact ⟨(hdigit h).1, .inr (hdigit h).2, fun _ => .inl rfl⟩
  | decimal =>
    rcases Bool.or_eq_true_iff.1 h with h | h
    · exact ⟨(hdigit h).1, .inr (hdigit h).2, fun _ => .inr rfl⟩
    · obtain rfl := beq_iff_eq.1 h
      exact ⟨rfl, .inr rfl, fun _ => .inr rfl⟩
  | leftParen | rightParen | comma =>
    obtain rfl := beq_iff_eq.1 h
    exact ⟨rfl, .inr rfl, fun hw => absurd hw (by decide)⟩
  | operator op =>
    cases op with
    | rem =>
      obtain rfl := beq_iff_eq.1 h
      exact ⟨rfl, .inl rfl, fun hw => absurd hw (by decide)⟩
    | pow =>
      rcases Bool.or_eq_true_iff.1 h with h | h <;> obtain rfl := beq_iff_eq.1 h <;>
        exact ⟨rfl, .inr rfl, fun hw => absurd hw (by decide)⟩
    | _ =>
      obtain rfl := beq_iff_eq.1 h
      exact ⟨rfl, .inr rfl, fun hw => absurd hw (by decide)⟩

theorem of_isBlank {c : Char} (h : Shape.isBlank c = true) :
    c.isAlpha = false ∧ isAdmitted c = true ∧ isWordChar c = false := by
  simp only [Shape.isBlank, Bool.or_eq_true, beq_iff_eq] at h
  rcases h with ((rfl | rfl) | rfl) | rfl <;> exact ⟨rfl, rfl, rfl⟩

variable {r : Registry} {names : List (List Char)}

theorem name?_of_kindOf {s : Shape} {text : List Char} {kind : Token.Kind} (hk : r.kindOf text s = .ok kind) :
    s = .name ∧ name? kind = some text ∨ s ≠ .name ∧ name? kind = none := by
  cases s with
  | name =>
    rcases Token.of_resolve hk with ⟨c, -, hn, rfl⟩ | ⟨f, -, hn, rfl⟩
    · exact .inl ⟨rfl, by rw [name?, hn, String.toList_ofList]⟩
    · exact .inl ⟨rfl, by rw [name?, hn, String.toList_ofList]⟩
  | leftParen | rightParen | comma | operator | integer | decimal =>
    cases hk
    exact .inr ⟨nofun, rfl⟩

/-- Without the names of a source that the main lexer splits, admitted characters are left. Nothing is left only of
names that touch. -/
theorem withoutNames_of_splits {here : Nat} {cs : List Char} {pieces : List Piece} (h : Splits r here cs pieces)
    (hw : AreWords names) (hnames : ∀ k ∈ pieces.map (·.kind), ∀ n ∈ name? k, n ∈ names)
    (hrem : .operator .rem ∉ pieces.map (·.kind)) {b : Bool} (ha : Apart b (pieces.map (·.kind)))
    {before : Option Char} (hb : before.any isWordChar = true → b = true) :
    (∀ c ∈ withoutNames names before cs, isAdmitted c = true) ∧ (withoutNames names before cs = [] →
      (∀ k ∈ pieces.map (·.kind), k ≠ .eof → (name? k).isSome) ∧
        cs = (pieces.map (·.kind)).flatMap fun k => (name? k).getD []) := by
  induction h generalizing b before with
  | done here =>
    rw [withoutNames]
    refine ⟨List.forall_mem_nil _, fun _ => ⟨fun k hk he => ?_, rfl⟩⟩
    cases List.mem_singleton.1 hk
    exact absurd rfl he
  | @blank here c rest pieces hblank _ ih =>
    obtain ⟨hc, hadm, hword⟩ := of_isBlank hblank
    have hbefore : (some c).any isWordChar = true → b = true := by simp [hword]
    rw [withoutNames_cons hw hc, List.forall_mem_cons]
    exact ⟨⟨hadm, (ih hnames hrem ha hbefore).1⟩, fun he => absurd he (List.cons_ne_nil _ _)⟩
  | @lexeme here s text after kind pieces hm hk h ih =>
    rw [List.map_cons, List.forall_mem_cons] at hnames
    rw [List.map_cons, List.mem_cons, not_or] at hrem
    rcases name?_of_kindOf hk with ⟨rfl, hname⟩ | ⟨hs, hname⟩
    · -- a name, in front of which no word stands
      have hbefore : before.any isWordChar = false := by
        rw [← Bool.not_eq_true]
        intro hword
        rw [ha.1 (hb hword)] at hname
        cases hname
      have hends : NotAhead isWordChar after :=
        Token.notAhead_isNameChar hm.ends (Token.not_mem_of_splits h)
      have hkind : endsWord kind = true := by cases kind <;> first | rfl | cases hname
      rw [withoutNames_name hw (hnames.1 text hname) hbefore hends]
      have hlast : text.getLast?.any isWordChar = true → endsWord kind = true := fun _ => hkind
      obtain ⟨hadm, hnil⟩ := ih hnames.2 hrem.2 ha.2 hlast
      refine ⟨hadm, fun he => ?_⟩
      obtain ⟨hall, hcs⟩ := hnil he
      refine ⟨List.forall_mem_cons.2 ⟨fun _ => by rw [hname]; rfl, hall⟩, ?_⟩
      rw [List.map_cons, List.flatMap_cons, hname, ← hcs]
      rfl
    · -- anything else, which is kept
      have hchars := fun c hc => of_alphabet (hm.isMatch.alphabet c hc) hs
      have hne : s ≠ .operator .rem := by
        rintro rfl
        cases hk
        exact hrem.1 rfl
      have hlast : (text.getLast?.or before).any isWordChar = true → endsWord kind = true := by
        rw [List.getLast?_eq_some_getLast hm.isMatch.ne_nil]
        intro hword
        rcases (hchars _ (List.getLast_mem hm.isMatch.ne_nil)).2.2 hword with rfl | rfl
        · cases hk
          rfl
        · cases hk
          rfl
      rw [withoutNames_append hw fun c hc => (hchars c hc).1]
      refine ⟨fun c hc => ?_, fun he => ?_⟩
      · rcases List.mem_append.1 hc with hc | hc
        · exact (hchars c hc).2.1.resolve_left hne
        · exact (ih hnames.2 hrem.2 ha.2 hlast).1 c hc
      · exact absurd (List.append_eq_nil_iff.1 he).1 hm.isMatch.ne_nil

theorem areWords_of_forall (h : ∀ n ∈ names, n.head?.any Char.isAlpha = true ∧ n.all isWordChar = true) :
    AreWords names := by
  intro n hn
  obtain ⟨hhead, hall⟩ := h n hn
  refine ⟨?_, List.all_eq_true.1 hall⟩
  cases n with
  | nil => cases hhead
  | cons c more => exact ⟨c, more, rfl, hhead⟩

theorem areWords_registry : AreWords (registry.names.map String.toList) := areWords_of_forall (by decide)

theorem check_eq_ok_iff {source : String} : check r source = .ok () ↔ checkBalance 0 source.toList = .ok () ∧
    withoutNames (r.names.map String.toList) none source.toList ≠ [] ∧
      ∀ c ∈ withoutNames (r.names.map String.toList) none source.toList, isAdmitted c = true := by
  unfold check
  cases checkBalance 0 source.toList with
  | error e => simp
  | ok _ => simp only [ite_eq_right_iff, reduceCtorEq, imp_false, not_or, Decidable.not_not, List.all_eq_true, true_and]

/-- What is read from a source the legacy route admits if its names are legacy names, there is no remainder, and there
is more than one constant. -/
theorem check_eq_ok {r : Registry} {source : String} {tokens : List Reckon.Token} {t : Tree}
    (hl : Reckon.Token.lex r source = .ok tokens) (hd : Derives .sum (Reckon.Token.content tokens) t)
    (hnames : ∀ k ∈ Reckon.Token.content tokens, ∀ n ∈ name? k, n ∈ registry.names.map String.toList)
    (hrem : .operator .rem ∉ Reckon.Token.content tokens) (hbare : ∀ c ∈ r.constants, source ≠ c.name) :
    check registry source = .ok () := by
  have hs : Splits r 0 source.toList (tokens.map Token.piece) := Token.lex_eq_ok_iff.1 ⟨tokens, hl, rfl⟩
  have hkinds : (tokens.map Token.piece).map (·.kind) = Reckon.Token.content tokens ++ [.eof] := by
    rw [List.map_map]
    exact Token.map_kind_of_lex hl
  have hbalance : checkBalance 0 source.toList = .ok () := by
    rw [checkBalance_of_splits hs, hkinds, List.filterMap_append, checkBalance_of_derives hd]
    rfl
  have hnames' : ∀ k ∈ Reckon.Token.content tokens ++ [.eof], ∀ n ∈ name? k, n ∈ registry.names.map String.toList := by
    intro k hk n hn
    rcases List.mem_append.1 hk with hk | hk
    · exact hnames k hk n hn
    · rw [List.mem_singleton.1 hk] at hn
      cases hn
  have hrem' : .operator .rem ∉ Reckon.Token.content tokens ++ [.eof] := by simpa using hrem
  have hbefore : (none : Option Char).any isWordChar = true → false = true := nofun
  rw [← hkinds] at hnames' hrem'
  obtain ⟨hadm, hnil⟩ := withoutNames_of_splits hs areWords_registry hnames' hrem'
    (hkinds ▸ apart_of_derives hd ⟨fun _ => rfl, trivial⟩) hbefore
  have hne : withoutNames (registry.names.map String.toList) none source.toList ≠ [] := by
    intro he
    -- Nothing left means nothing but names, of which only a single constant derives.
    obtain ⟨hall, hcs⟩ := hnil he
    rw [hkinds] at hall hcs
    obtain ⟨name, v, hc⟩ := eq_constant_of_derives hd fun k hk =>
      hall k (List.mem_append_left _ hk) (Token.ne_eof_of_mem_content hk)
    have hmem : Token.Kind.constant name v ∈ (tokens.map Token.piece).map (·.kind) := by rw [hkinds, hc]; simp
    obtain ⟨p, hp, hkind⟩ := List.mem_map.1 hmem
    obtain ⟨c, hcmem, rfl, -⟩ := hs.registered hp (n := .constant name v) (by rw [hkind]; rfl)
    refine hbare c hcmem (String.toList_inj.1 ?_)
    rw [hcs, hc]
    exact List.append_nil _
  exact check_eq_ok_iff.2 ⟨hbalance, hne, hadm⟩

end Reckon.Legacy
