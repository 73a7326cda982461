import Reckon.Command.Report
import Reckon.Proofs.Number.Distinct
import Reckon.Proofs.Token.Writing
/-!
# The listing of a tree can be read back

A listing has one line for each node, in preorder, and a line is made of words without blanks behind its indentation.
So it is taken apart at its line breaks and each line at its blanks; what the words say of a node is all of it but its
children, of which they say how many there are. A preorder with the numbers of children belongs to one tree only.
-/

namespace Reckon

/-! ## Heads -/

/-- A node without its children, of which the number is left. -/
inductive Head where
  | number (value : Float)
  | constant (name : String) (value : Float)
  | negate
  | binary (op : Operator)
  | call (name : String) (count : Nat)

namespace Head

/-- The words that the node is listed by. -/
def words : Head → List String
  | number v => ["Number", Number.plain v]
  | constant name v => ["Constant", name, "=", Number.plain v]
  | negate => ["Unary", "-"]
  | binary op => ["Binary", op.symbol]
  | call name n => ["Call", name ++ "/" ++ n.repr]

/-- The name of the node, if it has one, is an identifier. -/
def Named : Head → Prop
  | constant name _ => Shape.name.Matches name.toList
  | call name _ => Shape.name.Matches name.toList
  | _ => True

/-- The value of the node, if it has one, is a number. -/
def Numeric : Head → Prop
  | number v => v.isNaN = false
  | constant _ v => v.isNaN = false
  | _ => True

instance : DecidablePred Named
  | number _ => inferInstanceAs (Decidable True)
  | constant name _ => inferInstanceAs (Decidable (Shape.name.Matches name.toList))
  | negate => inferInstanceAs (Decidable True)
  | binary _ => inferInstanceAs (Decidable True)
  | call name _ => inferInstanceAs (Decidable (Shape.name.Matches name.toList))

instance : DecidablePred Numeric
  | number v => inferInstanceAs (Decidable (v.isNaN = false))
  | constant _ v => inferInstanceAs (Decidable (v.isNaN = false))
  | negate => inferInstanceAs (Decidable True)
  | binary _ => inferInstanceAs (Decidable True)
  | call _ _ => inferInstanceAs (Decidable True)

end Head

/-! ## Words and lines -/

section

variable {c : Char} {sep : String} {ws : List String}

theorem not_mem_intercalate (hsep : c ∉ sep.toList) (h : ∀ w ∈ ws, c ∉ w.toList) : c ∉ (sep.intercalate ws).toList := by
  induction ws with
  | nil => exact List.not_mem_nil
  | cons w ws ih =>
    obtain ⟨hw, hws⟩ := List.forall_mem_cons.1 h
    by_cases hne : ws = []
    · subst hne
      rwa [String.intercalate_singleton]
    · rw [String.intercalate_cons_of_ne_nil hne, String.toList_append, String.toList_append]
      exact List.not_mem_append (List.not_mem_append hw hsep) (ih hws)

/-- Texts that are put together with a separator are found again if none of them contains it. -/
theorem splitOn_toList_intercalate (hsep : sep.toList = [c]) (hne : ws ≠ []) (h : ∀ w ∈ ws, c ∉ w.toList) :
    (sep.intercalate ws).toList.splitOn c = ws.map String.toList := by
  rw [String.toList_intercalate, hsep]
  refine List.splitOn_intercalate c (fun l hl => ?_) (by simpa using hne)
  obtain ⟨w, hw, rfl⟩ := List.mem_map.1 hl
  exact h w hw

/-- Lines with a break behind each have breaks between them and an empty line at the end. -/
theorem join_breaks (ws : List String) : String.join (ws.map (· ++ "\n")) = "\n".intercalate (ws ++ [""]) := by
  induction ws with
  | nil => rfl
  | cons w ws ih =>
    rw [List.map_cons, String.join_cons, ih, List.cons_append, String.intercalate_cons_of_ne_nil (by simp)]

end

/-- Where lists agree by what one map makes of them, they do by another that it determines on their elements. -/
theorem map_eq_map_of_determines {α β γ : Type} {f : α → β} {g : α → γ} {as bs : List α}
    (h : ∀ a ∈ as, ∀ b ∈ bs, f a = f b → g a = g b) (he : as.map f = bs.map f) : as.map g = bs.map g := by
  induction as generalizing bs with
  | nil =>
    rw [List.map_eq_nil_iff.1 he.symm]
  | cons a as ih =>
    obtain ⟨b, bs, rfl, hhead, htail⟩ := List.map_eq_cons_iff.1 he.symm
    have hrest := ih (fun a ha b hb => h a (List.mem_cons_of_mem _ ha) b (List.mem_cons_of_mem _ hb)) htail.symm
    rw [List.map_cons, List.map_cons, h a List.mem_cons_self b List.mem_cons_self hhead.symm, hrest]

/-- The words have no character that is skipped between lexemes. -/
def WithoutBlanks (words : List String) : Prop := ∀ w ∈ words, ∀ c ∈ w.toList, Shape.isBlank c = false

theorem isBlank_of_mem_repr {n : Nat} {c : Char} (h : c ∈ n.repr.toList) : Shape.isBlank c = false :=
  Shape.isBlank_of_isDigit (Number.isDigit_of_mem_repr h)

namespace Operator

variable {op op' : Operator}

theorem isBlank_of_mem_symbol {c : Char} (h : c ∈ op.symbol.toList) : Shape.isBlank c = false :=
  (Shape.matches_symbol op).not_isBlank h

theorem eq_of_symbol_eq (h : op.symbol = op'.symbol) : op = op' := by
  cases op <;> cases op' <;> first | rfl | exact absurd h (by decide)

end Operator

namespace Span

theorem isBlank_of_mem_text {s : Span} {c : Char} (h : c ∈ s.text.toList) : Shape.isBlank c = false := by
  rw [text, String.toList_append, String.toList_append, List.mem_append, List.mem_append] at h
  rcases h with (h | h) | h
  · exact isBlank_of_mem_repr h
  · simp only [String.reduceToList, List.mem_cons, List.not_mem_nil, or_false, or_self] at h
    subst h
    rfl
  · exact isBlank_of_mem_repr h

/-- The text of a span shows both its ends. -/
theorem eq_of_text_eq {s s' : Span} (h : s.text = s'.text) : s = s' := by
  have hlist := congrArg String.toList h
  rw [text, text, String.toList_append, String.toList_append, String.toList_append, String.toList_append,
    List.append_assoc, List.append_assoc] at hlist
  have hdot : ∀ rest, NotAhead Char.isDigit ("..".toList ++ rest) := fun rest => notAhead_cons.2 rfl
  obtain ⟨hstart, hrest⟩ := run_unique (fun c => Number.isDigit_of_mem_repr) (hdot _)
    (fun c => Number.isDigit_of_mem_repr) (hdot _) hlist
  have hstop := List.append_cancel_left hrest
  rw [String.toList_inj, Nat.repr_inj] at hstart hstop
  cases s
  cases s'
  exact congrArg₂ Span.mk hstart hstop

end Span

namespace Head

variable {a b : Head}

theorem withoutBlanks_words (h : a.Named) : WithoutBlanks a.words := by
  have hname : ∀ {name : String}, Shape.name.Matches name.toList → ∀ c ∈ name.toList, Shape.isBlank c = false :=
    fun hm c hc => hm.not_isBlank hc
  have hplain : ∀ v, ∀ c ∈ (Number.plain v).toList, Shape.isBlank c = false := fun v c hc => Number.isBlank_of_mem_plain hc
  cases a with
  | number v => exact List.forall_mem_cons.2 ⟨hname (by decide), List.forall_mem_singleton.2 (hplain v)⟩
  | constant name v =>
    refine List.forall_mem_cons.2 ⟨hname (by decide), List.forall_mem_cons.2 ⟨hname h, ?_⟩⟩
    exact List.forall_mem_cons.2 ⟨List.forall_mem_singleton.2 rfl, List.forall_mem_singleton.2 (hplain v)⟩
  | negate =>
    exact List.forall_mem_cons.2 ⟨hname (by decide), List.forall_mem_singleton.2 (List.forall_mem_singleton.2 rfl)⟩
  | binary op =>
    exact List.forall_mem_cons.2 ⟨hname (by decide), List.forall_mem_singleton.2 fun c => Operator.isBlank_of_mem_symbol⟩
  | call name n =>
    refine List.forall_mem_cons.2 ⟨hname (by decide), List.forall_mem_singleton.2 fun c hc => ?_⟩
    rw [String.toList_append, String.toList_append, List.mem_append, List.mem_append] at hc
    rcases hc with (hc | hc) | hc
    · exact hname h c hc
    · cases List.mem_singleton.1 hc
      rfl
    · exact isBlank_of_mem_repr hc

/-- A call is listed by its name and the number of its arguments, which a slash keeps apart. -/
theorem eq_of_counted_eq {name name' : String} {n n' : Nat} (h : Shape.name.Matches name.toList)
    (h' : Shape.name.Matches name'.toList) (he : name ++ "/" ++ n.repr = name' ++ "/" ++ n'.repr) :
    name = name' ∧ n = n' := by
  have hlist := congrArg String.toList he
  simp only [String.toList_append, List.append_assoc] at hlist
  have hslash : ∀ rest, NotAhead Char.isAlphanum ("/".toList ++ rest) := fun rest => notAhead_cons.2 rfl
  obtain ⟨hname, hrest⟩ := run_unique h.alphabet (hslash _) h'.alphabet (hslash _) hlist
  exact ⟨String.toList_inj.1 hname, Nat.repr_inj.1 (String.toList_inj.1 (List.append_cancel_left hrest))⟩

/-- The words show all that there is to a head. -/
theorem eq_of_words_eq (ha : a.Named) (hb : b.Named) (hna : a.Numeric) (hnb : b.Numeric) (h : a.words = b.words) :
    a = b := by
  cases a <;> cases b <;> simp only [words, List.cons.injEq, String.reduceEq, false_and, reduceCtorEq, true_and, and_true] at h
  case number.number v v' => rw [Number.eq_of_plain_eq hna hnb h]
  case constant.constant name v name' v' => rw [h.1, Number.eq_of_plain_eq hna hnb h.2]
  case negate.negate => rfl
  case binary.binary op op' => rw [Operator.eq_of_symbol_eq h]
  case call.call name n name' n' =>
    obtain ⟨rfl, rfl⟩ := eq_of_counted_eq ha hb h
    rfl

end Head

namespace Expr

/-- The node without its children. -/
def head : Expr → Head
  | number v _ => .number v
  | constant name v _ => .constant name v
  | negate _ _ => .negate
  | binary op _ _ _ => .binary op
  | call name args _ => .call name args.length

/-! ## Lines -/

/-- The words of the line of a node. -/
def words (e : Expr) : List String := e.head.words ++ ["@", e.span.text]

variable {e e' : Expr} {d d' : Nat}

theorem headline_eq (e : Expr) : e.headline = " ".intercalate e.words := by
  refine String.toList_inj.1 ?_
  cases e <;> simp [headline, words, head, Head.words, span]

theorem withoutBlanks_words (h : e.head.Named) : WithoutBlanks e.words := by
  intro w hw
  rcases List.mem_append.1 hw with hw | hw
  · exact Head.withoutBlanks_words h w hw
  · rcases List.mem_cons.1 hw with rfl | hw
    · exact List.forall_mem_singleton.2 rfl
    · cases List.mem_singleton.1 hw
      exact fun c => Span.isBlank_of_mem_text

/-- A line begins with a word. -/
theorem notAhead_headline (e : Expr) : NotAhead (· == ' ') e.headline.toList := by
  cases e <;> simp [headline, NotAhead]

theorem toList_indented (d : Nat) (e : Expr) :
    (indented d e).toList = List.replicate (2 * d) ' ' ++ e.headline.toList := by
  rw [indented, Text.spaces, String.toList_append, Number.toList_pushn]

/-- A line has no break in it. -/
theorem not_mem_indented (h : e.head.Named) : '\n' ∉ (indented d e).toList := by
  rw [toList_indented, headline_eq]
  refine List.not_mem_append (fun hmem => ?_) (not_mem_intercalate (by decide) fun w hw hmem => ?_)
  · cases List.eq_of_mem_replicate hmem
  · cases withoutBlanks_words h w hw '\n' hmem

/-- What follows the indentation of a line determines the node but for its children. -/
theorem eq_of_headline_eq (h : e.head.Named) (h' : e'.head.Named) (hn : e.head.Numeric) (hn' : e'.head.Numeric)
    (he : e.headline = e'.headline) : e.head = e'.head ∧ e.span = e'.span := by
  have hsplit : ∀ e : Expr, e.head.Named → e.headline.toList.splitOn ' ' = e.words.map String.toList := by
    intro e h
    rw [headline_eq]
    refine splitOn_toList_intercalate rfl (by simp [words]) fun w hw hmem => ?_
    cases withoutBlanks_words h w hw ' ' hmem
  have hwords := hsplit e h
  rw [he, hsplit e' h'] at hwords
  have heq : e'.words = e.words := List.map_injective_iff.2 (fun _ _ => String.toList_inj.1) hwords
  obtain ⟨hhead, hspan⟩ := List.append_inj' heq rfl
  exact ⟨Head.eq_of_words_eq h h' hn hn' hhead.symm, Span.eq_of_text_eq (by simpa using hspan.symm)⟩

/-! ## Preorder -/

mutual

/-- The nodes of a tree at a depth, each with its own depth and in front of those below it. -/
def preorder (depth : Nat) : Expr → List (Nat × Expr)
  | number v s => [(depth, number v s)]
  | constant name v s => [(depth, constant name v s)]
  | negate e s => (depth, negate e s) :: preorder (depth + 1) e
  | binary op l r s => (depth, binary op l r s) :: (preorder (depth + 1) l ++ preorder (depth + 1) r)
  | call name args s => (depth, call name args s) :: preorderAll (depth + 1) args

/-- The nodes of some trees at a depth. -/
def preorderAll (depth : Nat) : List Expr → List (Nat × Expr)
  | [] => []
  | e :: es => preorder depth e ++ preorderAll depth es

end

theorem preorder_eq (d : Nat) (e : Expr) : preorder d e = (d, e) :: preorderAll (d + 1) e.children := by
  cases e <;> simp [preorder, preorderAll, children]

theorem listing_eq (d : Nat) (e : Expr) : listing d e = indented d e :: listings (d + 1) e.children := by
  cases e <;> simp [listing, listings, children]

/-- What holds of no trees, and of a tree and its siblings if it does of its children and of its siblings, holds of
all. -/
theorem forest_induction {P : List Expr → Prop} (nil : P []) (cons : ∀ e es, P e.children → P es → P (e :: es))
    (es : List Expr) : P es := by
  cases es with
  | nil => exact nil
  | cons e es => exact cons e es (forest_induction nil cons e.children) (forest_induction nil cons es)
  termination_by sizeAll es
  decreasing_by all_goals rw [sizeAll, size_eq_children]; omega

/-- The line of a node at its depth. -/
def line (p : Nat × Expr) : String := indented p.1 p.2

theorem listings_eq_map (es : List Expr) : ∀ d, listings d es = (preorderAll d es).map line := by
  induction es using forest_induction with
  | nil => exact fun d => rfl
  | cons e es ihChildren ih =>
    intro d
    rw [listings, preorderAll, listing_eq, preorder_eq, ihChildren, ih, List.cons_append, List.cons_append, List.map_cons,
      List.map_append]
    rfl

theorem listing_eq_map (d : Nat) (e : Expr) : listing d e = (preorder d e).map line := by
  rw [listing_eq, preorder_eq, listings_eq_map]
  rfl

theorem length_preorderAll (es : List Expr) : ∀ d, (preorderAll d es).length = sizeAll es := by
  induction es using forest_induction with
  | nil => exact fun d => rfl
  | cons e es ihChildren ih =>
    intro d
    rw [preorderAll, preorder_eq, List.length_append, List.length_cons, ihChildren, ih, sizeAll, size_eq_children]

theorem countPending_eq (count : Nat) (es : List Expr) : countPending count es = count + sizeAll es := by
  induction count, es using countPending.induct with
  | case1 count => rw [countPending, sizeAll, Nat.add_zero]
  | case2 count e pending ih =>
    rw [countPending, ih, sizeAll_append, sizeAll, size_eq_children]
    omega

theorem length_preorder (e : Expr) : (preorder 0 e).length = e.nodeCount := by
  rw [preorder_eq, List.length_cons, length_preorderAll, nodeCount, countPending_eq, sizeAll, sizeAll, size_eq_children]
  omega

/-- What a line says of a node. -/
def mark (p : Nat × Expr) : Head × Span := (p.2.head, p.2.span)

theorem eq_of_children_eq (h : e.head = e'.head) (hs : e.span = e'.span) (hc : e.children = e'.children) : e = e' := by
  cases e <;> cases e' <;> simp_all [head, span, children]

theorem length_children_eq (h : e.head = e'.head) : e.children.length = e'.children.length := by
  cases e <;> cases e' <;> simp_all [head, children]

/-- As many trees are determined by their nodes in preorder, whatever follows. -/
theorem eq_of_marks_eq (es : List Expr) : ∀ {d d' : Nat} {es' : List Expr} {rest rest' : List (Head × Span)},
    es.length = es'.length → (preorderAll d es).map mark ++ rest = (preorderAll d' es').map mark ++ rest' →
    es = es' ∧ rest = rest' := by
  induction es using forest_induction with
  | nil =>
    intro d d' es' rest rest' hlength h
    obtain rfl := List.length_eq_zero_iff.1 hlength.symm
    exact ⟨rfl, h⟩
  | cons e es ihChildren ih =>
    intro d d' es' rest rest' hlength h
    obtain ⟨e', es', rfl⟩ := List.exists_cons_of_length_eq_add_one hlength.symm
    simp only [preorderAll, preorder_eq, List.map_append, List.map_cons, List.cons_append, List.append_assoc,
      List.cons.injEq] at h
    obtain ⟨hmark, hbelow⟩ := h
    obtain ⟨hhead, hspan⟩ := Prod.mk.inj hmark
    -- the children take up as much of the rest on both sides
    obtain ⟨hchildren, hbehind⟩ := ihChildren (length_children_eq hhead) hbelow
    obtain rfl : e = e' := eq_of_children_eq hhead hspan hchildren
    obtain ⟨rfl, hrest⟩ := ih (Nat.succ.inj hlength) hbehind
    exact ⟨rfl, hrest⟩

theorem eq_of_preorder_eq (h : (e.preorder 0).map mark = (e'.preorder 0).map mark) : e = e' := by
  have hboth : (preorderAll 0 [e]).map mark ++ [] = (preorderAll 0 [e']).map mark ++ [] := by
    simpa only [preorderAll, List.append_nil] using h
  have hone : [e].length = [e'].length := rfl
  exact (List.cons.inj (eq_of_marks_eq [e] hone hboth).1).1

/-! ## The listing as a text -/

/-- The listing of a tree, with a break behind each line. -/
def listed (e : Expr) : String := String.join ((e.listing 0).map (· ++ "\n"))

/-- Every name in the tree is an identifier. -/
def Named (e : Expr) : Prop := ∀ p ∈ e.preorder 0, p.2.head.Named

/-- Every value in the tree is a number. -/
def Numeric (e : Expr) : Prop := ∀ p ∈ e.preorder 0, p.2.head.Numeric

instance : DecidablePred Named := fun e => inferInstanceAs (Decidable (∀ p ∈ e.preorder 0, p.2.head.Named))

instance : DecidablePred Numeric := fun e => inferInstanceAs (Decidable (∀ p ∈ e.preorder 0, p.2.head.Numeric))

/-- How a listing is laid out. -/
structure LaidOut (e : Expr) : Prop where
  /-- Between its breaks there is one line for each node, in preorder, and nothing is behind the last break. -/
  lines : e.listed.toList.splitOn '\n' = ((e.preorder 0).map fun p => (line p).toList) ++ [[]]
  count : (e.preorder 0).length = e.nodeCount
  /-- A line begins with two spaces for each level, and then with a word. -/
  indent : ∀ p ∈ e.preorder 0, (line p).toList.takeWhile (· == ' ') = List.replicate (2 * p.1) ' '

theorem lines_listed (h : e.Named) :
    e.listed.toList.splitOn '\n' = ((e.preorder 0).map fun p => (line p).toList) ++ [[]] := by
  rw [listed, listing_eq_map, join_breaks, splitOn_toList_intercalate rfl (by simp), List.map_append, List.map_map]
  · rfl
  · intro w hw
    rcases List.mem_append.1 hw with hw | hw
    · obtain ⟨p, hp, rfl⟩ := List.mem_map.1 hw
      exact not_mem_indented (h p hp)
    · cases List.mem_singleton.1 hw
      exact List.not_mem_nil

theorem isSpace_of_mem_replicate {n : Nat} : ∀ c ∈ List.replicate n ' ', (c == ' ') = true := by
  intro c hc
  rw [List.eq_of_mem_replicate hc]
  rfl

theorem laidOut (h : e.Named) : e.LaidOut where
  lines := lines_listed h
  count := length_preorder e
  indent p _ := by
    rw [line, toList_indented]
    exact takeWhile_append_of_notAhead isSpace_of_mem_replicate (notAhead_headline p.2)

/-- Nodes with the same line are the same but for their children. -/
theorem mark_of_line_eq {p q : Nat × Expr} (hp : p.2.head.Named ∧ p.2.head.Numeric) (hq : q.2.head.Named ∧ q.2.head.Numeric)
    (h : line p = line q) : mark p = mark q := by
  have hlist := congrArg String.toList h
  rw [line, line, toList_indented, toList_indented] at hlist
  obtain ⟨-, hheadline⟩ := run_unique isSpace_of_mem_replicate (notAhead_headline p.2) isSpace_of_mem_replicate
    (notAhead_headline q.2) hlist
  obtain ⟨hhead, hspan⟩ := eq_of_headline_eq hp.1 hq.1 hp.2 hq.2 (String.toList_inj.1 hheadline)
  exact Prod.ext hhead hspan

/-- A tree whose names are identifiers is listed line by line, and its listing tells it from any other such tree if
the values in them are numbers. -/
theorem listed_determines (h : e.Named) :
    e.LaidOut ∧ ∀ e' : Expr, e'.Named → e.Numeric → e'.Numeric → e.listed = e'.listed → e = e' := by
  refine ⟨laidOut h, fun e' h' hn hn' he => eq_of_preorder_eq ?_⟩
  have hlines := lines_listed h
  rw [he, lines_listed h'] at hlines
  refine map_eq_map_of_determines (fun p hp q hq hline => ?_) (List.append_cancel_right hlines).symm
  exact mark_of_line_eq ⟨h p hp, hn p hp⟩ ⟨h' q hq, hn' q hq⟩ (String.toList_inj.1 hline)

/-- Two trees that differ in the sign of a zero only are listed differently, although they agree as doubles are
compared. -/
theorem listed_determines_zeros : ∃ e e' : Expr, e.Named ∧ e'.Named ∧ e.Numeric ∧ e'.Numeric ∧ e.LaidOut ∧
    e.nodeCount = 4 ∧ e.same e' = true ∧ e.listed ≠ e'.listed := by
  let tree (zero : Float) : Expr := binary .sub (call "log" [number zero ⟨4, 5⟩] ⟨0, 6⟩)
    (constant "E" 2.5 ⟨9, 10⟩) ⟨0, 10⟩
  let e := tree (Number.ofMagnitude false 0)
  let e' := tree (Number.ofMagnitude true 0)
  have h : e.Named := by decide
  have h' : e'.Named := by decide
  have hn : e.Numeric := by decide +kernel
  have hn' : e'.Numeric := by decide +kernel
  obtain ⟨hlaid, hdetermines⟩ := listed_determines h
  refine ⟨e, e', h, h', hn, hn', hlaid, by rw [← hlaid.count]; rfl, by decide +kernel, fun he => ?_⟩
  obtain ⟨-, hcall, -, -⟩ := Expr.binary.inj (hdetermines e' h' hn hn' he)
  obtain ⟨-, hargs, -⟩ := Expr.call.inj hcall
  have hsign := congrArg Number.isNegative (Expr.number.inj (List.cons.inj hargs).1).1
  rw [Number.isNegative_ofMagnitude false (Nat.zero_le _), Number.isNegative_ofMagnitude true (Nat.zero_le _)] at hsign
  cases hsign

end Expr

namespace Report

/-- The listing is what the tree is shown by, behind its text. -/
theorem output_tree {i : Invocation} {tokens : List Token} {e : Expr} (hl : Token.lex .standard i.argument = .ok tokens)
    (he : Expr.ofTokens tokens = .ok e) (hj : i.options.json = false) : (tree i).output = e.text ++ "\n" ++ e.listed := by
  simp only [tree, hl, he, hj]
  rfl

end Report

end Reckon
