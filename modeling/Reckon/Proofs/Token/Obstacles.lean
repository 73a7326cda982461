import Reckon.Proofs.Token.Cutting
import Reckon.Proofs.Token.Offsets
/-!
# What the lexer fails at

Splitting a source by longest lexemes and blanks comes to an end early in two ways: at a character that begins no
lexeme, and at a name that the registry does not have. `Obstructs` says what stands there without any scanning. The
lexer fails at the first such position that splitting reaches, with an error that describes it, and what stands in
front of it is lexed when it stands alone; it succeeds just when no such position is reached.
-/

namespace Reckon

namespace Shape

/-- The characters that are skipped, and those that make up a lexeme by themselves or begin one. -/
def reserved : List Char := [' ', '\t', '\r', '\n', '+', '-', '*', '/', '%', '^', '(', ')', ',']

/-- No lexeme begins with a character that is neither a letter nor a digit nor reserved, but for a point before a
digit. -/
theorem longest?_eq_none_of {c : Char} {rest : List Char} (halnum : c.isAlphanum = false) (hreserved : c ∉ reserved)
    (hpoint : c = '.' → NotAhead Char.isDigit rest) : longest? c rest = none := by
  rw [longest?_eq_none_iff]
  intro s more hp hm
  generalize htext : c :: more = text at hm
  have hnot : ∀ d ∈ reserved, c ≠ d := fun d hd hc => hreserved (hc ▸ hd)
  cases hm with
  | leftParen | rightParen | comma | plus | minus | star | slash | percent | caret | doubleStar =>
    injection htext with hc
    exact hnot _ (by decide) hc
  | integer _ hcs =>
    subst htext
    have hd := hcs c List.mem_cons_self
    simp [Char.isAlphanum, hd] at halnum
  | @decimal whole fraction hw hf hne =>
    cases whole with
    | nil =>
      injection htext with hc hmore
      subst hmore
      obtain ⟨d, ds, rfl⟩ := List.exists_cons_of_ne_nil (hne.resolve_left (by simp))
      obtain ⟨after, rfl⟩ := hp
      have hd := hpoint hc d rfl
      rw [hf d List.mem_cons_self] at hd
      cases hd
    | cons d whole =>
      injection htext with hc
      have hd := hw d List.mem_cons_self
      rw [← hc] at hd
      simp [Char.isAlphanum, hd] at halnum
  | name ha _ =>
    injection htext with hc
    subst hc
    simp [Char.isAlphanum, ha] at halnum

theorem of_longest?_eq_none {c : Char} {rest : List Char} (hb : isBlank c = false) (h : longest? c rest = none) :
    c.isAlphanum = false ∧ c ∉ reserved ∧ (c = '.' → NotAhead Char.isDigit rest) := by
  rw [longest?_eq_none_iff] at h
  have hone : ∀ s, ¬Matches s [c] := fun s => h s [] List.nil_prefix
  refine ⟨?_, ?_, ?_⟩
  · rw [← Bool.not_eq_true, Char.isAlphanum, Bool.or_eq_true]
    rintro (ha | hd)
    · exact hone .name (.name ha (List.forall_mem_nil _))
    · exact hone .integer (.integer (List.cons_ne_nil _ _) (List.forall_mem_singleton.2 hd))
  · intro hc
    simp only [reserved, List.mem_cons, List.not_mem_nil, or_false] at hc
    rcases hc with rfl | rfl | rfl | rfl | rfl | rfl | rfl | rfl | rfl | rfl | rfl | rfl | rfl
    · cases hb
    · cases hb
    · cases hb
    · cases hb
    · exact hone _ .plus
    · exact hone _ .minus
    · exact hone _ .star
    · exact hone _ .slash
    · exact hone _ .percent
    · exact hone _ .caret
    · exact hone _ .leftParen
    · exact hone _ .rightParen
    · exact hone _ .comma
  · rintro rfl d hd
    rw [← Bool.not_eq_true]
    intro hdigit
    obtain ⟨after, rfl⟩ := List.head?_eq_some_iff.1 hd
    exact h .decimal [d] (List.prefix_append [d] after)
      (.decimal (List.forall_mem_nil _) (List.forall_mem_singleton.2 hdigit) (.inr (List.cons_ne_nil _ _)))

end Shape

namespace Token

/-! ## Obstacles -/

/-- At `text`, with `after` behind it, the source cannot be split on, for the given reason. -/
inductive Obstructs (r : Registry) : LexError.Kind → List Char → List Char → Prop
  | unrecognized {c after} : c.isAlphanum = false → c ∉ Shape.reserved → (c = '.' → NotAhead Char.isDigit after) →
      Obstructs r (.unrecognizedCharacter c) [c] after
  | unknown {text after} : Shape.name.Matches text → NotAhead Char.isAlphanum after →
      (∀ c ∈ r.constants, c.name ≠ String.ofList text) → (∀ f ∈ r.functions, f.name ≠ String.ofList text) →
      Obstructs r (.unknownIdentifier (String.ofList text)) text after

/-- Splitting a text by its longest lexemes and blanks gets to the rest. -/
inductive Reaches : List Char → List Char → Prop
  | refl (cs) : Reaches cs cs
  | blank {c cs rest} : Shape.isBlank c = true → Reaches cs rest → Reaches (c :: cs) rest
  | lexeme {s text after rest} : Shape.LongestMatch s text after → Reaches after rest → Reaches (text ++ after) rest

variable {r : Registry} {here : Nat} {cs rest text after : List Char}

theorem resolve_eq_error_iff {name : String} {kind : LexError.Kind} : r.resolve name = .error kind ↔
    kind = .unknownIdentifier name ∧ (∀ c ∈ r.constants, c.name ≠ name) ∧ ∀ f ∈ r.functions, f.name ≠ name := by
  rw [← Registry.constant?_eq_none_iff, ← Registry.function?_eq_none_iff]
  unfold Registry.resolve
  cases r.constant? name with
  | some c => simp
  | none =>
    cases r.function? name with
    | some f => simp
    | none => simp [eq_comm]

/-- Only a name stands for no token. -/
theorem kindOf_eq_error_iff {s : Shape} {kind : LexError.Kind} : r.kindOf text s = .error kind ↔
    s = .name ∧ r.resolve (String.ofList text) = .error kind := by
  cases s <;> simp [Registry.kindOf]

/-! ## Scanning up to an obstacle -/

/-- At an obstacle the scanner fails with just this obstacle. -/
theorem Obstructs.scan_eq {kind : LexError.Kind} (h : Obstructs r kind text after) :
    scan r here (text ++ after) = .error ⟨kind, spanAt here text⟩ := by
  cases h with
  | @unrecognized c _ halnum hreserved hpoint =>
    have hb : ¬Shape.isBlank c = true := by
      simp only [Shape.reserved, List.mem_cons, not_or] at hreserved
      simp [Shape.isBlank, hreserved]
    rw [List.singleton_append, scan, if_neg hb]
    simp only [Shape.longest?_eq_none_of halnum hreserved hpoint]
    rfl
  | unknown hm hends hc hf =>
    have hlongest : Shape.LongestMatch .name text after := hm.longestMatch hends
    rw [scan_lexeme hlongest, kindOf_eq_error_iff.2 ⟨rfl, resolve_eq_error_iff.2 ⟨rfl, hc, hf⟩⟩]

/-- Where the scanner fails, splitting has got to an obstacle, and what stands before it splits by itself. -/
theorem exists_obstacle {o : Obstacle} (h : scan r here cs = .error o) :
    ∃ before text after, cs = before ++ (text ++ after) ∧ o.span = spanAt (here + byteLength before) text ∧
      Reaches cs (text ++ after) ∧ (∃ pieces, Splits r here before pieces) ∧ Obstructs r o.kind text after := by
  induction here, cs using scan.induct r with
  | case1 here =>
    rw [scan] at h
    cases h
  | case2 here c rest hb ih =>
    rw [scan_blank hb] at h
    obtain ⟨before, text, after, rfl, hspan, hreaches, ⟨pieces, hs⟩, ho⟩ := ih h
    refine ⟨c :: before, text, after, rfl, ?_, .blank hb hreaches, ⟨pieces, .blank hb hs⟩, ho⟩
    rw [hspan, byteLength, Nat.add_assoc]
  | case3 here c rest hb hl =>
    rw [scan, if_neg hb] at h
    simp only [hl] at h
    cases h
    obtain ⟨halnum, hreserved, hpoint⟩ := Shape.of_longest?_eq_none (by simpa using hb) hl
    exact ⟨[], [c], rest, rfl, rfl, .refl _, ⟨_, .done here⟩, .unrecognized halnum hreserved hpoint⟩
  | case4 here c rest hb shape more hl kind hk =>
    rw [scan, if_neg hb] at h
    simp only [hl, hk] at h
    cases h
    obtain ⟨after, rfl, hm⟩ := Shape.longest?_eq_some_iff.1 hl
    obtain ⟨rfl, hresolve⟩ := kindOf_eq_error_iff.1 hk
    obtain ⟨rfl, hc, hf⟩ := resolve_eq_error_iff.1 hresolve
    exact ⟨[], c :: more, after, rfl, rfl, .refl _, ⟨_, .done here⟩, .unknown hm.isMatch hm.ends hc hf⟩
  | case5 here c rest hb shape more hl kind hk o' he ih =>
    rw [scan, if_neg hb] at h
    simp only [hl, hk, he] at h
    cases h
    obtain ⟨after, rfl, hm⟩ := Shape.longest?_eq_some_iff.1 hl
    rw [List.drop_left] at ih he
    obtain ⟨before, text, after', rfl, hspan, hreaches, ⟨pieces, hs⟩, ho⟩ := ih he
    refine ⟨c :: more ++ before, text, after', by simp, ?_, .lexeme hm hreaches,
      ⟨_, .lexeme (LongestMatch.of_append _ hm) hk hs⟩, ho⟩
    rw [hspan, byteLength_append, Nat.add_assoc]
  | case6 here c rest hb shape more hl kind hk pieces hok =>
    rw [scan, if_neg hb] at h
    simp only [hl, hk, hok] at h
    cases h

/-- What splitting gets to is scanned when the whole is. -/
theorem Reaches.scan_ok (h : Reaches cs rest) : ∀ {here pieces}, scan r here cs = .ok pieces →
    ∃ here' pieces', scan r here' rest = .ok pieces' := by
  induction h with
  | refl cs => exact fun hok => ⟨_, _, hok⟩
  | blank hb _ ih =>
    intro here pieces hok
    rw [scan_blank hb] at hok
    exact ih hok
  | @lexeme s text after rest hm _ ih =>
    intro here pieces hok
    rw [scan_lexeme hm] at hok
    cases hk : r.kindOf text s with
    | error kind =>
      rw [hk] at hok
      cases hok
    | ok kind =>
      cases hrest : scan r (here + byteLength text) after with
      | error o =>
        simp only [hk, hrest] at hok
        cases hok
      | ok pieces' => exact ih hrest

/-! ## The first obstacle -/

/-- Splitting gets to no obstacle. -/
def Unobstructed (r : Registry) (cs : List Char) : Prop :=
  ∀ kind text after, Reaches cs (text ++ after) → ¬Obstructs r kind text after

/-- The error is about the obstacle `text`, and what stands before it is lexed when it stands alone. -/
structure FirstObstacle (r : Registry) (source : String) (e : LexError) (before text after : List Char) : Prop where
  split : source.toList = before ++ (text ++ after)
  span : e.span = spanAt (byteLength before) text
  reached : Reaches source.toList (text ++ after)
  lexed : ∃ tokens, lex r (String.ofList before) = .ok tokens
  obstructs : Obstructs r e.kind text after
  /-- The offsets are not too large for a span. -/
  fits : Span.ofRange e.span.start e.span.stop = e.span

variable {source : String}

theorem exists_firstObstacle (hsize : source.utf8ByteSize < 2 ^ 30) {e : LexError} (h : lex r source = .error e) :
    ∃ before text after, FirstObstacle r source e before text after := by
  obtain ⟨before, text, after, hsplit, hspan, hreached, ⟨pieces, hs⟩, ho⟩ := exists_obstacle (obstacle_of_lex h)
  rw [Nat.zero_add] at hspan
  rw [← String.toList_ofList (l := before)] at hs
  obtain ⟨tokens, hlex, -⟩ := lex_eq_ok_iff.2 hs
  refine ⟨before, text, after, hsplit, hspan, hreached, ⟨tokens, hlex⟩, ho, ?_⟩
  have hlen := byteLength_toList source
  rw [hsplit, byteLength_append, byteLength_append] at hlen
  have hle : byteLength before + byteLength text ≤ source.utf8ByteSize := by omega
  rw [show e.span = spanAt (byteLength before) text from hspan]
  exact ofRange_eq hsize (Nat.le_add_right _ _) hle

theorem lex_ok_iff_unobstructed : (∃ tokens, lex r source = .ok tokens) ↔ Unobstructed r source.toList := by
  constructor
  · rintro ⟨tokens, h⟩ kind text after hreached ho
    obtain ⟨here, pieces, hok⟩ := hreached.scan_ok (piece_of_lex h)
    rw [ho.scan_eq] at hok
    cases hok
  · intro hfree
    cases h : lex r source with
    | ok tokens => exact ⟨tokens, rfl⟩
    | error e =>
      obtain ⟨before, text, after, -, -, hreached, -, ho⟩ := exists_obstacle (obstacle_of_lex h)
      exact absurd ho (hfree _ _ _ hreached)

/-- The lexer fails at the first obstacle that splitting the source gets to, and with an error that says what it is;
without an obstacle it succeeds. -/
theorem lex_obstacle (hsize : source.utf8ByteSize < 2 ^ 30) :
    (∀ e, lex r source = .error e → ∃ before text after, FirstObstacle r source e before text after) ∧
      ((∃ tokens, lex r source = .ok tokens) ↔ Unobstructed r source.toList) :=
  ⟨fun _ => exists_firstObstacle hsize, lex_ok_iff_unobstructed⟩

/-- A second point right behind a literal that ends with one. -/
theorem lex_obstacle_point : "sin(PI) + 2..x".utf8ByteSize < 2 ^ 30 ∧
    ∃ e, lex .standard "sin(PI) + 2..x" = .error e ∧ e.span = ⟨12, 13⟩ ∧
      (∃ before text after, FirstObstacle .standard "sin(PI) + 2..x" e before text after) ∧
      ¬Unobstructed .standard "sin(PI) + 2..x".toList := by
  have hspan : (lex .standard "sin(PI) + 2..x").casesOn (motive := fun _ => Option Span) (fun e => some e.span)
      (fun _ => none) = some ⟨12, 13⟩ := by decide +kernel
  cases h : lex .standard "sin(PI) + 2..x" with
  | ok tokens =>
    rw [h] at hspan
    cases hspan
  | error e =>
    rw [h] at hspan
    obtain ⟨hfirst, hiff⟩ := @lex_obstacle .standard "sin(PI) + 2..x" (by decide)
    refine ⟨by decide, e, rfl, Option.some.inj hspan, hfirst e h, fun hfree => ?_⟩
    obtain ⟨tokens, hok⟩ := hiff.2 hfree
    rw [h] at hok
    cases hok

end Token

end Reckon
