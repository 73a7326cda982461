import Reckon.Proofs.Expr.Climbing
import Reckon.Proofs.Expr.Segments
/-!
# The text of a node

The span of a node says where its text stands in the source. The text alone is lexed into the pieces of the node, and
these form the same node again with spans that count from the start of the text. So no node depends on what stands
around it.
-/

namespace Reckon

open Token (Piece Ordered)

/-! ## Shifted expressions -/

namespace Expr

mutual

/-- The expression, with `n` bytes less in front of it. -/
def shiftLeft (n : Nat) : Expr → Expr
  | number v s => number v (s.shiftLeft n)
  | constant name v s => constant name v (s.shiftLeft n)
  | negate e s => negate (shiftLeft n e) (s.shiftLeft n)
  | binary op l r s => binary op (shiftLeft n l) (shiftLeft n r) (s.shiftLeft n)
  | call name args s => call name (shiftLeftAll n args) (s.shiftLeft n)

/-- The expressions, with `n` bytes less in front of them. -/
def shiftLeftAll (n : Nat) : List Expr → List Expr
  | [] => []
  | e :: es => shiftLeft n e :: shiftLeftAll n es

end

variable (n : Nat)

@[simp] theorem span_shiftLeft (e : Expr) : (e.shiftLeft n).span = e.span.shiftLeft n := by
  cases e <;> simp [shiftLeft, span]

theorem shiftLeft_withSpan (e : Expr) (s : Span) : (e.withSpan s).shiftLeft n = (e.shiftLeft n).withSpan (s.shiftLeft n) := by
  cases e <;> simp [withSpan, shiftLeft]

theorem shiftLeft_negated (s : Span) (e : Expr) : (negated s e).shiftLeft n = negated (s.shiftLeft n) (e.shiftLeft n) := by
  simp [negated, shiftLeft, Span.shiftLeft_merge]

theorem shiftLeft_joined (op : Operator) (l r : Expr) :
    (joined op l r).shiftLeft n = joined op (l.shiftLeft n) (r.shiftLeft n) := by
  simp [joined, shiftLeft, Span.shiftLeft_merge]

end Expr

mutual

/-- Shifted pieces form the shifted expression. -/
theorem Forms.shiftLeft (n : Nat) : ∀ {level : Level} {ps : List Piece} {e : Expr}, Forms level ps e →
    Forms level (ps.map (Piece.shiftLeft n)) (e.shiftLeft n)
  | _, _, _, .loosen hl h => .loosen hl (h.shiftLeft n)
  | _, _, _, .chain op s hl hr => by
    rw [List.map_append, List.map_cons, Expr.shiftLeft_joined]
    exact .chain op _ (hl.shiftLeft n) (hr.shiftLeft n)
  | _, _, _, .integer v s => by
    rw [Expr.shiftLeft]
    exact .integer v _
  | _, _, _, .decimal v s => by
    rw [Expr.shiftLeft]
    exact .decimal v _
  | _, _, _, .constant name v s => by
    rw [Expr.shiftLeft]
    exact .constant name v _
  | _, _, _, .group s s' h => by
    rw [List.map_cons, List.map_append, Expr.shiftLeft_withSpan, Span.shiftLeft_merge]
    exact .group _ _ (h.shiftLeft n)
  | _, _, _, .negate s h => by
    rw [List.map_cons, Expr.shiftLeft_negated]
    exact .negate _ (h.shiftLeft n)
  | _, _, _, .bareCall name s s' s'' => by
    rw [Expr.shiftLeft, Expr.shiftLeftAll, Span.shiftLeft_merge]
    exact .bareCall name _ _ _
  | _, _, _, .call name s s' s'' h => by
    rw [List.map_cons, List.map_cons, List.map_append, Expr.shiftLeft, Span.shiftLeft_merge]
    exact .call name _ _ _ (h.shiftLeftAll n)

theorem FormsAll.shiftLeftAll (n : Nat) : ∀ {ps : List Piece} {es : List Expr}, FormsAll ps es →
    FormsAll (ps.map (Piece.shiftLeft n)) (Expr.shiftLeftAll n es)
  | _, _, .one h => .one (h.shiftLeft n)
  | _, _, .more s h hs => by
    rw [List.map_append, List.map_cons]
    exact .more _ (h.shiftLeft n) (hs.shiftLeftAll n)

end

/-! ## Nodes in their source -/

namespace Token

variable {r : Registry} {source : String} {tokens : List Token}

/-- The lexer gives its pieces in order. -/
theorem ordered_of_lex (h : lex r source = .ok tokens) : Ordered (pieces tokens) := by
  have hs : Splits r 0 source.toList (tokens.map piece) := lex_eq_ok_iff.1 ⟨tokens, h, rfl⟩
  have hp := map_piece_of_lex h
  refine ⟨fun p hmem => ?_, ?_⟩
  · have hmem' : p ∈ tokens.map piece := by
      rw [hp]
      exact List.mem_append_left _ hmem
    obtain ⟨before, text, after, -, hspan, hl⟩ := hs.exists_lexeme hmem' (ne_eof_of_mem_pieces hmem)
    have hpos := hl.byteLength_pos
    simp only [hspan, spanAt]
    omega
  · have hordered := hs.ordered
    rw [hp] at hordered
    exact (List.pairwise_append.1 hordered).1

end Token

/-- The tokens `own` are those of the node: they fill its span, and no others have a place in it. -/
structure Owns (n : Expr) (front own behind : List Token) : Prop where
  front_le : ∀ t ∈ front, t.span.stop ≤ n.span.start
  within : ∀ t ∈ own, n.span.start ≤ t.span.start ∧ t.span.stop ≤ n.span.stop
  le_behind : ∀ t ∈ behind, n.span.stop ≤ t.span.start
  /-- Parentheses right around them are those of a call. -/
  outermost : ∀ front' opening closing behind', front = front' ++ [opening] → behind = closing :: behind' →
    opening.kind = .leftParen → closing.kind = .rightParen → ∃ f ∈ front'.getLast?, ∃ name, f.kind = .function name

/-- Where a node stands in its source, and that it is made of its own text alone. -/
structure Placed (r : Registry) (source : String) (tokens : List Token) (n : Expr) : Prop where
  inside : n.span.start < n.span.stop ∧ n.span.stop ≤ source.utf8ByteSize
  children_within : ∀ m ∈ n.children, n.span.start ≤ m.span.start ∧ m.span.stop ≤ n.span.stop
  children_ordered : n.children.Pairwise fun l m => l.span.stop ≤ m.span.start
  reread : ∃ before text after, source.toList = before ++ text ++ after ∧ n.span = Token.spanAt (byteLength before) text ∧
    ∃ tokens', Token.lex r (String.ofList text) = .ok tokens' ∧ Expr.ofTokens tokens' = .ok (n.shiftLeft n.span.start)
  owns : ∃ front own behind, tokens = front ++ (own ++ behind) ∧ Owns n front own behind

section
variable {r : Registry} {source : String} {tokens front own behind : List Token} {n : Expr}

/-- A node owns the tokens of the pieces that form it. -/
theorem owns_of_forms (ho : ((front ++ (own ++ behind)).map Token.piece).Pairwise fun p q => p.span.stop ≤ q.span.start)
    (hown : Ordered (own.map Token.piece)) (hf : Forms .sum (own.map Token.piece) n)
    (hapart : front = [] ∨ Apart (front.map Token.piece) (behind.map Token.piece)) : Owns n front own behind := by
  have hext := hf.extent hown
  obtain ⟨⟨p, rest, hfirst, hstart⟩, ⟨init, q, hlast, hstop⟩⟩ := hext
  rw [List.map_append, List.map_append, List.pairwise_append, List.pairwise_append] at ho
  obtain ⟨-, ⟨-, -, hbehind⟩, hfront⟩ := ho
  refine ⟨fun t ht => ?_, fun t ht => ?_, fun t ht => ?_, ?_⟩
  · have hle := hfront _ (List.mem_map_of_mem ht) p (by simp [hfirst])
    rw [hstart] at hle
    exact hle
  · exact (hf.extent hown).within hown (List.mem_map_of_mem ht)
  · have hle := hbehind q (by simp [hlast]) _ (List.mem_map_of_mem ht)
    rw [hstop] at hle
    exact hle
  · rintro front' opening closing behind' rfl rfl hopening hclosing
    rcases hapart with hnil | hapart
    · simp at hnil
    · rw [List.map_append, List.map_singleton, List.map_cons] at hapart
      obtain ⟨before, name, s, he⟩ := hapart.exists_function hopening hclosing
      obtain ⟨front'', last, rfl, -, hlast⟩ := List.map_eq_append_iff.1 he
      obtain ⟨f, rfl, hpiece⟩ := List.map_eq_singleton_iff.1 hlast
      exact ⟨f, by simp, name, congrArg Piece.kind hpiece⟩

/-- Every node of an expression that is read from a source stands for its own text, parentheses included: its span
lies in the source and around those of its children, and the text in it is read as the same node, with no dependence
on the text around it. -/
theorem placed_of_isNode {e : Expr} (hl : Token.lex r source = .ok tokens) (he : Expr.ofTokens tokens = .ok e)
    (hn : IsNode n e) : Placed r source tokens n := by
  have hs : Token.Splits r 0 source.toList (tokens.map Token.piece) := Token.lex_eq_ok_iff.1 ⟨tokens, hl, rfl⟩
  have hordered := Token.ordered_of_lex hl
  have hpieces := Token.map_piece_of_lex hl
  obtain ⟨before, own, after, hsplit, hf, hapart⟩ : ∃ before own after, Token.pieces tokens = before ++ (own ++ after) ∧
      Forms .sum own n ∧ (before = [] ∨ Apart before after) := by
    rcases hn.segment (forms_of_ofTokens he) with hf | ⟨before, own, after, hsplit, hf, hapart⟩
    · exact ⟨[], _, [], by simp, hf, .inl rfl⟩
    · exact ⟨before, own, after, hsplit, hf, .inr hapart⟩
  have hown : Ordered own := by
    rw [hsplit] at hordered
    exact hordered.right.left
  have hext := hf.extent hown
  have hne : ∀ p ∈ own, p.kind ≠ .eof := by
    intro p hp
    have hmem : p ∈ Token.pieces tokens := by
      rw [hsplit]
      simp [hp]
    exact Token.ne_eof_of_mem_pieces hmem
  rw [hsplit, List.append_assoc, List.append_assoc] at hpieces
  rw [hpieces] at hs
  obtain ⟨_, text, _, hsource, hspan, tokens', hlex, htext⟩ := Token.lex_of_segment hs hext hne
  refine ⟨⟨hext.lt hown, ?_⟩, fun m hm => hf.children_within hown hm, hf.children_pairwise hown,
    ⟨_, text, _, hsource, hspan, tokens', hlex, ofTokens_of_forms ?_⟩, ?_⟩
  · rw [hspan, ← byteLength_toList, hsource, byteLength_append, byteLength_append]
    exact Nat.le_add_right _ _
  · rw [htext]
    exact hf.shiftLeft _
  · obtain ⟨front, rest, rfl, rfl, hrest⟩ := List.map_eq_append_iff.1 hpieces
    obtain ⟨ownTokens, behind, rfl, rfl, hbehind⟩ := List.map_eq_append_iff.1 hrest
    refine ⟨front, ownTokens, behind, rfl, owns_of_forms ?_ hown hf ?_⟩
    · rw [hpieces]
      exact hs.ordered
    · rcases hapart with hnil | hapart
      · exact .inl (List.map_eq_nil_iff.1 hnil)
      · rw [hbehind]
        exact .inr (hapart.extend [] _)

/-- A sum in two pairs of parentheses. -/
theorem placed_of_isNode_parentheses : ∃ tokens e n, Token.lex .standard "2 * ((1 + PI))" = .ok tokens ∧
    Expr.ofTokens tokens = .ok e ∧ IsNode n e ∧ n.span = ⟨4, 14⟩ ∧ Placed .standard "2 * ((1 + PI))" tokens n := by
  have hspans : ((Token.lex .standard "2 * ((1 + PI))").toOption.bind fun tokens => (Expr.ofTokens tokens).toOption.map
      fun e => e.children.map Expr.span) = some [⟨0, 1⟩, ⟨4, 14⟩] := by decide +kernel
  cases hl : Token.lex .standard "2 * ((1 + PI))" with
  | error err =>
    rw [hl] at hspans
    cases hspans
  | ok tokens =>
    rw [hl] at hspans
    cases he : Expr.ofTokens tokens with
    | error err => simp [Except.toOption, he] at hspans
    | ok e =>
      have hchildren : e.children.map Expr.span = [⟨0, 1⟩, ⟨4, 14⟩] := by simpa [Except.toOption, he] using hspans
      have hmem : (⟨4, 14⟩ : Span) ∈ e.children.map Expr.span := by simp [hchildren]
      obtain ⟨n, hn, hspan⟩ := List.mem_map.1 hmem
      have hnode : IsNode n e := .child hn (.root n)
      exact ⟨tokens, e, n, rfl, he, hnode, hspan, placed_of_isNode hl he hnode⟩

end

end Reckon
