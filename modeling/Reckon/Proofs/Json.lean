import Mathlib.Data.List.Basic
import Reckon.Json
import Reckon.Proofs.Number.Scientific
/-!
# Texts of JSON are read in one way

The text of a value whose numbers are finite belongs to no other such value, whatever follows it, as long as that does
not go on with a numeral. The first character says what is written. A string ends at its first quote that is not
escaped, and what stands in front of it is unescaped one character at a time; an array or an object ends where the
closing bracket follows an item in place of a comma.
-/

namespace Reckon

open Number (isNumeral)

namespace Json

/-! ## Strings -/

/-- The characters whose escape is a letter behind a backslash, with their letters. -/
def letters : List (Char × Char) :=
  [('\x22', '\x22'), ('\x5c', '\x5c'), ('b', '\x08'), ('f', '\x0c'), ('n', '\n'), ('r', '\r'), ('t', '\t')]

/-- The control that is escaped by two digits. -/
def control? (high low : Char) : Option Char :=
  ((List.range 32).find? fun n => Nat.digitChar (n / 16) == high && Nat.digitChar (n % 16) == low).map Char.ofNat

/-- The first character inside a string and what follows it; there is none at the closing quote. -/
def unescaped (text : List Char) : Option (Char × List Char) :=
  match text with
  | [] => none
  | '\x22' :: _ => none
  | '\x5c' :: 'u' :: '0' :: '0' :: high :: low :: rest => (control? high low).map (·, rest)
  | '\x5c' :: letter :: rest => (letters.lookup letter).map (·, rest)
  | c :: rest => some (c, rest)

theorem control?_digitChar {n : Nat} (h : n < 32) :
    control? (Nat.digitChar (n / 16)) (Nat.digitChar (n % 16)) = some (Char.ofNat n) := by
  have hall : ∀ n < 32, (List.range 32).find? (fun m => Nat.digitChar (m / 16) == Nat.digitChar (n / 16) &&
      Nat.digitChar (m % 16) == Nat.digitChar (n % 16)) = some n := by decide
  rw [control?, hall n h, Option.map_some]

/-- What is escaped is read back. -/
theorem unescaped_escaped (c : Char) (rest : List Char) : unescaped (escaped c ++ rest) = some (c, rest) := by
  unfold escaped
  -- the seven characters with a letter
  iterate 7
    split
    · subst_vars
      rfl
  split
  case isTrue h =>
    show (control? (Nat.digitChar (c.toNat / 16)) (Nat.digitChar (c.toNat % 16))).map (·, rest) = some (c, rest)
    rw [control?_digitChar h, Char.ofNat_toNat, Option.map_some]
  case isFalse =>
    rw [List.singleton_append, unescaped.eq_def]
    split <;> simp_all

/-- No character inside a string begins like the closing quote. -/
theorem escaped_ne_quote {c : Char} {behind rest : List Char} : escaped c ++ behind ≠ '\x22' :: rest := by
  intro he
  have hread := unescaped_escaped c behind
  rw [he] at hread
  cases hread

/-- The inside of a string is read up to its closing quote. -/
theorem inside_unique (cs : List Char) : ∀ {cs' rest rest' : List Char},
    cs.flatMap escaped ++ '\x22' :: rest = cs'.flatMap escaped ++ '\x22' :: rest' → cs = cs' ∧ rest = rest' := by
  induction cs with
  | nil =>
    intro cs' rest rest' he
    cases cs' with
    | nil => exact ⟨rfl, List.tail_eq_of_cons_eq he⟩
    | cons c' cs' =>
      rw [List.flatMap_cons, List.append_assoc] at he
      exact absurd he.symm escaped_ne_quote
  | cons c cs ih =>
    intro cs' rest rest' he
    cases cs' with
    | nil =>
      rw [List.flatMap_cons, List.append_assoc] at he
      exact absurd he escaped_ne_quote
    | cons c' cs' =>
      rw [List.flatMap_cons, List.flatMap_cons, List.append_assoc, List.append_assoc] at he
      have hread := unescaped_escaped c (cs.flatMap escaped ++ '\x22' :: rest)
      rw [he, unescaped_escaped, Option.some.injEq, Prod.mk.injEq] at hread
      obtain ⟨rfl, hbehind⟩ := hread
      obtain ⟨rfl, hrest⟩ := ih hbehind.symm
      exact ⟨rfl, hrest⟩

theorem toList_quoted (s : String) : (quoted s).toList = '\x22' :: (s.toList.flatMap escaped ++ ['\x22']) := by
  simp only [quoted, String.toList_append, String.toList_ofList]
  rfl

/-- A string is read up to its closing quote. -/
theorem quoted_unique {s s' : String} {rest rest' : List Char}
    (he : (quoted s).toList ++ rest = (quoted s').toList ++ rest') : s = s' ∧ rest = rest' := by
  rw [toList_quoted, toList_quoted, List.cons_append, List.cons_append, List.append_assoc, List.append_assoc] at he
  obtain ⟨hs, hrest⟩ := inside_unique s.toList (List.tail_eq_of_cons_eq he)
  exact ⟨String.toList_inj.1 hs, hrest⟩

/-! ## Items -/

section

variable {α : Type} {p : α → Prop} {write : α → List Char} {as bs : List α} {close : Char} {rest rest' : List Char}

/-- What is written of `a` is not written of anything else, if no numeral follows. -/
def Legible (p : α → Prop) (write : α → List Char) (a : α) : Prop :=
  ∀ b, p b → ∀ rest rest', NotAhead isNumeral rest → NotAhead isNumeral rest' → write a ++ rest = write b ++ rest' →
    a = b ∧ rest = rest'

/-- What follows the first item, up to the closing bracket. -/
def behindFirst (write : α → List Char) (as : List α) : List Char := as.flatMap fun a => ',' :: write a

theorem notAhead_behindFirst (hclose : isNumeral close = false) (as : List α) :
    NotAhead isNumeral (behindFirst write as ++ close :: rest) := by
  cases as with
  | nil => exact notAhead_cons.2 hclose
  | cons a as => exact notAhead_cons.2 rfl

theorem behindFirst_unique (hclose : isNumeral close = false) (hcomma : close ≠ ',') (has : ∀ a ∈ as, Legible p write a) :
    ∀ {bs : List α} {rest rest' : List Char}, (∀ b ∈ bs, p b) →
      behindFirst write as ++ close :: rest = behindFirst write bs ++ close :: rest' → as = bs ∧ rest = rest' := by
  induction as with
  | nil =>
    intro bs rest rest' hbs he
    cases bs with
    | nil => exact ⟨rfl, List.tail_eq_of_cons_eq he⟩
    | cons b bs => exact absurd (List.head_eq_of_cons_eq he) hcomma
  | cons a as ih =>
    intro bs rest rest' hbs he
    cases bs with
    | nil => exact absurd (List.head_eq_of_cons_eq he).symm hcomma
    | cons b bs =>
      rw [List.forall_mem_cons] at has hbs
      have htail : write a ++ (behindFirst write as ++ close :: rest) =
          write b ++ (behindFirst write bs ++ close :: rest') := by
        simpa [behindFirst] using he
      obtain ⟨rfl, hbehind⟩ := has.1 b hbs.1 _ _ (notAhead_behindFirst hclose as) (notAhead_behindFirst hclose bs) htail
      obtain ⟨rfl, hrest⟩ := ih has.2 hbs.2 hbehind
      exact ⟨rfl, hrest⟩

theorem intercalate_map_cons (a : α) (as : List α) :
    [','].intercalate ((a :: as).map write) = write a ++ behindFirst write as := by
  induction as generalizing a with
  | nil => rw [List.map_singleton, List.intercalate_singleton, behindFirst, List.flatMap_nil, List.append_nil]
  | cons b as ih =>
    rw [List.map_cons, List.map_cons, List.intercalate_cons_cons, ← List.map_cons, ih, List.append_assoc]
    rfl

/-- Items that do not begin with the closing bracket are read up to it. -/
theorem items_unique (hclose : isNumeral close = false) (hcomma : close ≠ ',')
    (hopen : ∀ a, p a → ∀ rest rest', write a ++ rest ≠ close :: rest') (has : ∀ a ∈ as, p a ∧ Legible p write a)
    (hbs : ∀ b ∈ bs, p b)
    (he : [','].intercalate (as.map write) ++ close :: rest = [','].intercalate (bs.map write) ++ close :: rest') :
    as = bs ∧ rest = rest' := by
  cases as with
  | nil =>
    cases bs with
    | nil => exact ⟨rfl, List.tail_eq_of_cons_eq he⟩
    | cons b bs =>
      rw [intercalate_map_cons, List.append_assoc] at he
      exact absurd he.symm (hopen b (hbs b List.mem_cons_self) _ _)
  | cons a as =>
    rw [List.forall_mem_cons] at has
    cases bs with
    | nil =>
      rw [intercalate_map_cons, List.append_assoc] at he
      exact absurd he (hopen a has.1.1 _ _)
    | cons b bs =>
      rw [List.forall_mem_cons] at hbs
      rw [intercalate_map_cons, intercalate_map_cons, List.append_assoc, List.append_assoc] at he
      obtain ⟨rfl, hbehind⟩ := has.1.2 b hbs.1 _ _ (notAhead_behindFirst hclose as) (notAhead_behindFirst hclose bs) he
      obtain ⟨rfl, hrest⟩ := behindFirst_unique hclose hcomma (fun a ha => (has.2 a ha).2) hbs.2 hbehind
      exact ⟨rfl, hrest⟩

end

/-! ## Values -/

/-- Every number in the value is finite. -/
inductive Finite : Json → Prop
  | null : Finite null
  | nat (n : Nat) : Finite (nat n)
  | float {x : Float} (h : Number.isFinite x = true) : Finite (float x)
  | string (s : String) : Finite (string s)
  | array {items : List Json} (h : ∀ v ∈ items, Finite v) : Finite (array items)
  | object {fields : List (String × Json)} (h : ∀ f ∈ fields, Finite f.2) : Finite (object fields)

/-- What a text begins to write. -/
inductive Kind where
  | null
  | number
  | string
  | array
  | object

/-- What is written by a text that begins with the character. -/
def kindAt (c : Char) : Option Kind :=
  if isNumeral c then some .number
  else if c = 'n' then some .null
  else if c = '\x22' then some .string
  else if c = '[' then some .array
  else if c = '\x7b' then some .object
  else none

/-- What the value is written as. -/
def kind : Json → Kind
  | null => .null
  | nat _ => .number
  | float _ => .number
  | string _ => .string
  | array _ => .array
  | object _ => .object

variable {v v' : Json} {items : List Json} {fields : List (String × Json)} {x : Float} {rest rest' : List Char}

/-- The characters of the text of a value. -/
def chars (v : Json) : List Char := v.text.toList

/-- The characters of a field with its key. -/
def fieldChars (f : String × Json) : List Char := (quoted f.1).toList ++ ':' :: f.2.chars

theorem chars_float (h : Number.isFinite x = true) : (float x).chars = (Number.Layout.json.text x).toList := by
  rw [chars, text, if_pos h]

theorem chars_array (items : List Json) : (array items).chars = '[' :: ([','].intercalate (items.map chars) ++ [']']) := by
  have htexts : (texts items).map String.toList = items.map chars := by
    induction items with
    | nil => rfl
    | cons v items ih => rw [texts, List.map_cons, List.map_cons, ih, chars]
  rw [chars, text, String.toList_append, String.toList_append, String.toList_intercalate, htexts]
  rfl

theorem chars_object (fields : List (String × Json)) :
    (object fields).chars = '\x7b' :: ([','].intercalate (fields.map fieldChars) ++ ['\x7d']) := by
  have htexts : (fieldTexts fields).map String.toList = fields.map fieldChars := by
    induction fields with
    | nil => rfl
    | cons f fields ih =>
      rw [fieldTexts, List.map_cons, ih, String.toList_append, String.toList_append, List.append_assoc]
      rfl
  rw [chars, text, String.toList_append, String.toList_append, String.toList_intercalate, htexts]
  rfl

theorem fieldChars_ne_close {f : String × Json} {close : Char} (hclose : close ≠ '\x22') :
    fieldChars f ++ rest ≠ close :: rest' := by
  intro he
  rw [fieldChars, toList_quoted] at he
  exact hclose (List.head_eq_of_cons_eq he).symm

theorem legible_field {f : String × Json} (h : Legible Finite chars f.2) : Legible (fun f => Finite f.2) fieldChars f := by
  intro f' h' rest rest' hrest hrest' he
  rw [fieldChars, fieldChars, List.append_assoc, List.append_assoc] at he
  obtain ⟨hkey, hbehind⟩ := quoted_unique he
  obtain ⟨hvalue, hbehind⟩ := h f'.2 h' rest rest' hrest hrest' (List.tail_eq_of_cons_eq hbehind)
  exact ⟨Prod.ext hkey hvalue, hbehind⟩

namespace Finite

theorem isNumeral_of_mem_chars (h : v.Finite) (hk : v.kind = .number) : ∀ c ∈ v.chars, isNumeral c = true := by
  cases h with
  | nat n => exact fun c hc => Number.isNumeral_of_isDigit (Number.isDigit_of_mem_repr hc)
  | float hx =>
    rw [chars_float hx]
    exact fun c => Number.Layout.isNumeral_of_mem_text hx
  | _ => cases hk

/-- The first character says what is written. -/
theorem exists_cons (h : v.Finite) : ∃ c cs, v.chars = c :: cs ∧ kindAt c = some v.kind := by
  have hnumber : ∀ {v : Json}, v.Finite → v.kind = .number → v.chars ≠ [] →
      ∃ c cs, v.chars = c :: cs ∧ kindAt c = some .number := by
    intro v h hk hne
    obtain ⟨c, cs, hcs⟩ := List.exists_cons_of_ne_nil hne
    exact ⟨c, cs, hcs, if_pos (h.isNumeral_of_mem_chars hk c (hcs ▸ List.mem_cons_self))⟩
  cases h with
  | null => exact ⟨'n', _, rfl, rfl⟩
  | nat n => exact hnumber (.nat n) rfl (Number.toList_repr_ne_nil n)
  | float hx =>
    obtain ⟨c, hc, -⟩ := Number.Layout.exists_mem_text hx
    rw [← chars_float hx] at hc
    exact hnumber (.float hx) rfl (List.ne_nil_of_mem hc)
  | string s => exact ⟨'\x22', _, toList_quoted s, rfl⟩
  | array _ => exact ⟨'[', _, chars_array _, rfl⟩
  | object _ => exact ⟨'\x7b', _, chars_object _, rfl⟩

theorem kind_eq (h : v.Finite) (h' : v'.Finite) (he : v.chars ++ rest = v'.chars ++ rest') : v.kind = v'.kind := by
  obtain ⟨c, cs, hcs, hc⟩ := h.exists_cons
  obtain ⟨c', cs', hcs', hc'⟩ := h'.exists_cons
  rw [hcs, hcs'] at he
  rw [List.head_eq_of_cons_eq he, hc', Option.some.injEq] at hc
  exact hc.symm

theorem chars_ne_close {close : Char} (h : v.Finite) (hclose : kindAt close = none) : v.chars ++ rest ≠ close :: rest' := by
  obtain ⟨c, cs, hcs, hc⟩ := h.exists_cons
  intro he
  rw [hcs] at he
  rw [List.head_eq_of_cons_eq he, hclose] at hc
  cases hc

theorem number_unique (h : v.Finite) (h' : v'.Finite) (hk : v.kind = .number) (hk' : v'.kind = .number)
    (hrest : NotAhead isNumeral rest) (hrest' : NotAhead isNumeral rest') (he : v.chars ++ rest = v'.chars ++ rest') :
    v = v' ∧ rest = rest' := by
  obtain ⟨hchars, hbehind⟩ := run_unique (h.isNumeral_of_mem_chars hk) hrest (h'.isNumeral_of_mem_chars hk') hrest' he
  refine ⟨?_, hbehind⟩
  -- A double has a point or an exponent, and a whole number has neither.
  have hmixed : ∀ {n : Nat} {x : Float}, Number.isFinite x = true → (Json.nat n).chars ≠ (Json.float x).chars := by
    intro n x hx he
    obtain ⟨c, hc, hdigit⟩ := Number.Layout.exists_mem_text hx
    rw [← chars_float hx, ← he] at hc
    rw [Number.isDigit_of_mem_repr hc] at hdigit
    cases hdigit
  cases h with
  | nat n =>
    cases h' with
    | nat n' => rw [Nat.repr_inj.1 (String.toList_inj.1 hchars)]
    | float hx' => exact absurd hchars (hmixed hx')
    | _ => cases hk'
  | float hx =>
    cases h' with
    | nat n' => exact absurd hchars.symm (hmixed hx)
    | float hx' =>
      rw [chars_float hx, chars_float hx'] at hchars
      rw [Number.Layout.eq_of_json_text_eq hx hx' (String.toList_inj.1 hchars)]
    | _ => cases hk'
  | _ => cases hk

/-- A value belongs to its text, whatever follows that is no numeral. -/
theorem legible (h : v.Finite) : Legible Finite chars v := by
  -- The other value is of the same kind, since the texts begin with the same character.
  induction h with
  | null =>
    intro v' h' rest rest' hrest hrest' he
    have hkind := kind_eq .null h' he
    cases h' with
    | null => exact ⟨rfl, List.append_cancel_left he⟩
    | _ => cases hkind
  | nat n =>
    intro v' h' rest rest' hrest hrest' he
    exact number_unique (.nat n) h' rfl (kind_eq (.nat n) h' he).symm hrest hrest' he
  | float hx =>
    intro v' h' rest rest' hrest hrest' he
    exact number_unique (.float hx) h' rfl (kind_eq (.float hx) h' he).symm hrest hrest' he
  | string s =>
    intro v' h' rest rest' hrest hrest' he
    have hkind := kind_eq (.string s) h' he
    cases h' with
    | string s' =>
      obtain ⟨rfl, hbehind⟩ := quoted_unique he
      exact ⟨rfl, hbehind⟩
    | _ => cases hkind
  | array hitems ih =>
    intro v' h' rest rest' hrest hrest' he
    have hkind := kind_eq (.array hitems) h' he
    cases h' with
    | array hitems' =>
      rw [chars_array, chars_array, List.cons_append, List.cons_append, List.append_assoc, List.append_assoc] at he
      obtain ⟨rfl, hbehind⟩ := items_unique rfl (by decide) (fun v hv rest rest' => hv.chars_ne_close rfl)
        (fun v hv => ⟨hitems v hv, ih v hv⟩) hitems' (List.tail_eq_of_cons_eq he)
      exact ⟨rfl, hbehind⟩
    | _ => cases hkind
  | object hfields ih =>
    intro v' h' rest rest' hrest hrest' he
    have hkind := kind_eq (.object hfields) h' he
    cases h' with
    | object hfields' =>
      rw [chars_object, chars_object, List.cons_append, List.cons_append, List.append_assoc, List.append_assoc] at he
      obtain ⟨rfl, hbehind⟩ := items_unique rfl (by decide) (fun f hf rest rest' => fieldChars_ne_close (by decide))
        (fun f hf => ⟨hfields f hf, legible_field (ih f hf)⟩) hfields' (List.tail_eq_of_cons_eq he)
      exact ⟨rfl, hbehind⟩
    | _ => cases hkind

/-- Values with the same text are the same. -/
theorem eq_of_text_eq (h : v.Finite) (h' : v'.Finite) (he : v.text = v'.text) : v = v' :=
  (h.legible v' h' [] [] notAhead_nil notAhead_nil (congrArg (String.toList · ++ []) he)).1

end Finite

end Json

end Reckon
