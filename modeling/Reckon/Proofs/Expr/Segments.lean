import Reckon.Proofs.Expr.Forms
import Reckon.Proofs.Token.Cutting
/-!
# The pieces of a node

Every node of an expression is formed by neighbouring pieces, and its span goes from the first of them to the last.
The nodes below it are formed by fewer of these pieces, in their order. Next to the pieces of a node there is an
operator, a comma or the opening parenthesis of a call, unless they are all there are; so no parentheses around a node
are left out of its pieces.
-/

namespace Reckon

open Token (Piece Extent)

/-! ## Spans in their order -/

namespace Token

/-- The pieces have some text each and come one after the other. -/
structure Ordered (ps : List Piece) : Prop where
  forward : ∀ p ∈ ps, p.span.start < p.span.stop
  pairwise : ps.Pairwise fun p q => p.span.stop ≤ q.span.start

variable {ps ps' qs : List Piece} {s s' : Span}

theorem Ordered.sublist (h : Ordered ps) (hs : qs.Sublist ps) : Ordered qs :=
  ⟨fun p hp => h.forward p (hs.subset hp), h.pairwise.sublist hs⟩

theorem Ordered.left (h : Ordered (ps ++ qs)) : Ordered ps := h.sublist (List.sublist_append_left _ _)

theorem Ordered.right (h : Ordered (ps ++ qs)) : Ordered qs := h.sublist (List.sublist_append_right _ _)

theorem Ordered.tail {p : Piece} (h : Ordered (p :: ps)) : Ordered ps := h.sublist (List.sublist_cons_self _ _)

theorem Ordered.le (h : Ordered (ps ++ qs)) {p q : Piece} (hp : p ∈ ps) (hq : q ∈ qs) : p.span.stop ≤ q.span.start :=
  (List.pairwise_append.1 h.pairwise).2.2 p hp q hq

namespace Extent

theorem singleton (k : Kind) (s : Span) : Extent [⟨k, s⟩] s := ⟨⟨_, _, rfl, rfl⟩, ⟨[], _, rfl, rfl⟩⟩

/-- No piece lies outside. -/
theorem within (h : Extent ps s) (ho : Ordered ps) {p : Piece} (hp : p ∈ ps) :
    s.start ≤ p.span.start ∧ p.span.stop ≤ s.stop := by
  have hforward := ho.forward p hp
  obtain ⟨⟨first, rest, hfirst, hstart⟩, ⟨init, last, hlast, hstop⟩⟩ := h
  constructor
  · rw [hfirst] at hp ho
    have hpos := ho.forward first List.mem_cons_self
    rcases List.mem_cons.1 hp with rfl | hp
    · omega
    · have hle := (List.pairwise_cons.1 ho.pairwise).1 p hp
      omega
  · rw [hlast] at hp ho
    have hpos := ho.forward last (by simp)
    rcases List.mem_append.1 hp with hp | hp
    · have hle := ho.le hp List.mem_cons_self
      omega
    · cases List.mem_singleton.1 hp
      omega

theorem lt (h : Extent ps s) (ho : Ordered ps) : s.start < s.stop := by
  obtain ⟨p, rest, hfirst, -⟩ := h.first
  have hp : p ∈ ps := by simp [hfirst]
  have hpos := ho.forward p hp
  have hwithin := h.within ho hp
  omega

theorem le (h : Extent ps s) (h' : Extent ps' s') (ho : Ordered (ps ++ ps')) : s.stop ≤ s'.start := by
  obtain ⟨init, p, hp, hstop⟩ := h.last
  obtain ⟨q, rest, hq, hstart⟩ := h'.first
  have hle := ho.le (p := p) (q := q) (by simp [hp]) (by simp [hq])
  omega

/-- From the first pieces to the last. -/
theorem merge (h : Extent ps s) (qs : List Piece) (h' : Extent ps' s') (ho : Ordered (ps ++ (qs ++ ps'))) :
    Extent (ps ++ (qs ++ ps')) (s.merge s') := by
  have hsub : (ps ++ ps').Sublist (ps ++ (qs ++ ps')) := (List.Sublist.refl ps).append (List.sublist_append_right _ _)
  have hle := h.le h' (ho.sublist hsub)
  have hlt := h.lt ho.left
  have hlt' := h'.lt ho.right.right
  obtain ⟨p, rest, rfl, hstart⟩ := h.first
  obtain ⟨init, q, rfl, hstop⟩ := h'.last
  refine ⟨⟨p, _, rfl, ?_⟩, ⟨p :: rest ++ (qs ++ init), q, by simp, ?_⟩⟩
  · rw [hstart, Span.merge, Nat.min_eq_left (by omega)]
  · rw [hstop, Span.merge, Nat.max_eq_right (by omega)]

end Extent

end Token

open Token (Ordered)

theorem Expr.span_withSpan (e : Expr) (s : Span) : (e.withSpan s).span = s := by cases e <;> rfl

theorem Expr.children_withSpan (e : Expr) (s : Span) : (e.withSpan s).children = e.children := by cases e <;> rfl

/-- The span of an expression is the extent of its pieces. -/
theorem Forms.extent : ∀ {level : Level} {ps : List Piece} {e : Expr}, Forms level ps e → Ordered ps → Extent ps e.span
  | _, _, _, .loosen _ h, ho => h.extent ho
  | _, _, _, .chain op s hl hr, ho => (hl.extent ho.left).merge [_] (hr.extent ho.right.tail) ho
  | _, _, _, .integer v s, _ | _, _, _, .decimal v s, _ | _, _, _, .constant name v s, _ => .singleton _ s
  | _, _, _, @Forms.group ps e s s' _, ho => by
    rw [Expr.span_withSpan]
    exact (Extent.singleton _ s).merge ps (.singleton _ s') ho
  | _, _, _, .negate s h, ho => (Extent.singleton _ s).merge [] (h.extent ho.tail) ho
  | _, _, _, .bareCall name s s' s'', ho => (Extent.singleton _ s).merge [_] (.singleton _ s'') ho
  | _, _, _, @Forms.call ps _ name s s' s'' _, ho => (Extent.singleton _ s).merge (_ :: ps) (.singleton _ s'') ho

/-! ## Below a node -/

/-- The token keeps what stands in front of it apart from what stands behind it. -/
def Token.Kind.Separates (k : Kind) : Prop := k = .comma ∨ ∃ op, k = .operator op

/-- What stands in front and behind ends or begins with a separator, or else the former ends in the opening of a call.
-/
def Apart (before after : List Piece) : Prop :=
  (∃ before' p, before = before' ++ [p] ∧ p.kind.Separates) ∨ (∃ p after', after = p :: after' ∧ p.kind.Separates) ∨
    ∃ before' name s s', before = before' ++ [⟨.function name, s⟩, ⟨.leftParen, s'⟩]

theorem Apart.extend {before after : List Piece} (h : Apart before after) (ps qs : List Piece) :
    Apart (ps ++ before) (after ++ qs) := by
  rcases h with ⟨before', p, rfl, hp⟩ | ⟨p, after', rfl, hp⟩ | ⟨before', name, s, s', rfl⟩
  · exact .inl ⟨ps ++ before', p, by simp, hp⟩
  · exact .inr (.inl ⟨p, after' ++ qs, rfl, hp⟩)
  · exact .inr (.inr ⟨ps ++ before', name, s, s', by simp⟩)

/-- Parentheses around what is apart are those of a call. -/
theorem Apart.exists_function {before after : List Piece} {opening closing : Piece}
    (h : Apart (before ++ [opening]) (closing :: after)) (ho : opening.kind = .leftParen)
    (hc : closing.kind = .rightParen) : ∃ before' name s, before = before' ++ [⟨.function name, s⟩] := by
  rcases h with ⟨before', p, he, hp⟩ | ⟨p, after', he, hp⟩ | ⟨before', name, s, s', he⟩
  · obtain ⟨-, hlast⟩ := List.append_inj' he rfl
    rw [← List.singleton_inj.1 hlast, ho] at hp
    rcases hp with hp | ⟨op, hp⟩ <;> cases hp
  · rw [← (List.cons.inj he).1, hc] at hp
    rcases hp with hp | ⟨op, hp⟩ <;> cases hp
  · rw [List.append_cons before'] at he
    exact ⟨before', name, s, (List.append_inj' he rfl).1⟩

/-- The expression is formed by some of the pieces, which are apart from the others. -/
def Inner (ps : List Piece) (n : Expr) : Prop :=
  ∃ before own after, ps = before ++ (own ++ after) ∧ Forms .sum own n ∧ Apart before after

/-- The expression is formed by all of the pieces or by some of them. -/
def Segment (ps : List Piece) (n : Expr) : Prop := Forms .sum ps n ∨ Inner ps n

theorem Inner.extend {ps : List Piece} {n : Expr} (h : Inner ps n) (before after : List Piece) :
    Inner (before ++ (ps ++ after)) n := by
  obtain ⟨before', own, after', rfl, hf, hapart⟩ := h
  exact ⟨before ++ before', own, after' ++ after, by simp, hf, hapart.extend before after⟩

theorem Segment.extend {ps : List Piece} {n : Expr} (h : Segment ps n) {before after : List Piece}
    (ha : Apart before after) : Inner (before ++ (ps ++ after)) n := by
  rcases h with hf | h
  · exact ⟨before, ps, after, rfl, hf, ha⟩
  · exact h.extend before after

theorem Segment.exists_sublist {ps : List Piece} {n : Expr} (h : Segment ps n) :
    ∃ own : List Piece, own.Sublist ps ∧ Forms .sum own n := by
  rcases h with hf | ⟨before, own, after, rfl, hf, -⟩
  · exact ⟨ps, List.Sublist.refl ps, hf⟩
  · exact ⟨own, (List.sublist_append_left own after).trans (List.sublist_append_right before _), hf⟩

theorem Apart.of_operator_left (ps : List Piece) (op : Operator) (s : Span) (after : List Piece) :
    Apart (ps ++ [⟨.operator op, s⟩]) after :=
  .inl ⟨ps, _, rfl, .inr ⟨op, rfl⟩⟩

theorem Apart.of_call (name : String) (s s' : Span) (after : List Piece) :
    Apart [⟨.function name, s⟩, ⟨.leftParen, s'⟩] after :=
  .inr (.inr ⟨[], name, s, s', rfl⟩)

mutual

/-- The children of a node are formed by parts of its pieces. -/
theorem Forms.inner_children : ∀ {level : Level} {ps : List Piece} {e : Expr}, Forms level ps e →
    ∀ m ∈ e.children, Inner ps m
  | _, _, _, .loosen _ h, m, hm => h.inner_children m hm
  | _, _, _, @Forms.chain ps ps' l r op s hl hr, m, hm => by
    rcases List.mem_cons.1 hm with rfl | hm
    · exact ⟨[], ps, _, rfl, hl.toSum, .inr (.inl ⟨_, ps', rfl, .inr ⟨op, rfl⟩⟩)⟩
    · obtain rfl := List.mem_singleton.1 hm
      exact ⟨ps ++ [_], ps', [], by simp, hr.toSum, .of_operator_left ps op s []⟩
  | _, _, _, .integer v s, m, hm | _, _, _, .decimal v s, m, hm | _, _, _, .constant name v s, m, hm
  | _, _, _, .bareCall name s s' s'', m, hm => absurd hm List.not_mem_nil
  | _, _, _, .group s s' h, m, hm => by
    rw [Expr.children_withSpan] at hm
    exact (h.inner_children m hm).extend [_] [_]
  | _, _, _, @Forms.negate ps e s h, m, hm => by
    obtain rfl := List.mem_singleton.1 hm
    exact ⟨[_], ps, [], by simp, h.toSum, .of_operator_left [] .sub s []⟩
  | _, _, _, .call name s s' s'' h, m, hm =>
    (h.segment m hm).extend (.of_call name s s' [_])

/-- Each of several expressions is formed by a part of the pieces unless there is only one. -/
theorem FormsAll.segment : ∀ {ps : List Piece} {es : List Expr}, FormsAll ps es → ∀ m ∈ es, Segment ps m
  | _, _, .one h, m, hm => by
    obtain rfl := List.mem_singleton.1 hm
    exact .inl h
  | _, _, @FormsAll.more ps ps' e es s h hs, m, hm => by
    rcases List.mem_cons.1 hm with rfl | hm
    · exact .inr ⟨[], ps, _, rfl, h, .inr (.inl ⟨_, ps', rfl, .inl rfl⟩)⟩
    · have hapart : Apart (ps ++ [⟨.comma, s⟩]) [] := .inl ⟨ps, _, rfl, .inl rfl⟩
      have hinner := (hs.segment m hm).extend hapart
      rw [List.append_nil, List.append_assoc] at hinner
      exact .inr hinner

end

/-- The children of a node lie inside its span. -/
theorem Forms.children_within {level : Level} {ps : List Piece} {e m : Expr} (h : Forms level ps e) (ho : Ordered ps)
    (hm : m ∈ e.children) : e.span.start ≤ m.span.start ∧ m.span.stop ≤ e.span.stop := by
  obtain ⟨own, hsub, hf⟩ := Segment.exists_sublist (.inr (h.inner_children m hm))
  have he := h.extent ho
  obtain ⟨⟨p, rest, hfirst, hstart⟩, ⟨init, q, hlast, hstop⟩⟩ := hf.extent (ho.sublist hsub)
  have hp := he.within ho (hsub.subset (a := p) (by simp [hfirst]))
  have hq := he.within ho (hsub.subset (a := q) (by simp [hlast]))
  omega

theorem FormsAll.pairwise : ∀ {ps : List Piece} {es : List Expr}, FormsAll ps es → Ordered ps →
    es.Pairwise fun l m => l.span.stop ≤ m.span.start
  | _, _, .one _, _ => List.pairwise_singleton ..
  | _, _, .more s h hs, ho => by
    refine List.pairwise_cons.2 ⟨fun m hm => ?_, hs.pairwise ho.right.tail⟩
    obtain ⟨own, hsub, hf⟩ := (hs.segment m hm).exists_sublist
    exact (h.extent ho.left).le (hf.extent (ho.right.tail.sublist hsub))
      (ho.sublist ((List.Sublist.refl _).append (hsub.cons _)))

/-- The children of a node come in the order of their spans, which do not overlap. -/
theorem Forms.children_pairwise : ∀ {level : Level} {ps : List Piece} {e : Expr}, Forms level ps e → Ordered ps →
    e.children.Pairwise fun l m => l.span.stop ≤ m.span.start
  | _, _, _, .loosen _ h, ho => h.children_pairwise ho
  | _, _, _, .chain op s hl hr, ho => by
    refine List.pairwise_pair.2 ((hl.extent ho.left).le (hr.extent ho.right.tail) (ho.sublist ?_))
    exact (List.Sublist.refl _).append (List.sublist_cons_self _ _)
  | _, _, _, .integer v s, _ | _, _, _, .decimal v s, _ | _, _, _, .constant name v s, _
  | _, _, _, .bareCall name s s' s'', _ => .nil
  | _, _, _, .group s s' h, ho => by
    rw [Expr.children_withSpan]
    exact h.children_pairwise ho.tail.left
  | _, _, _, .negate s h, ho => List.pairwise_singleton ..
  | _, _, _, .call name s s' s'' h, ho => h.pairwise ho.tail.tail.left

/-- A node of an expression: the expression itself or a node of one of its children. -/
inductive IsNode : Expr → Expr → Prop
  | root (e) : IsNode e e
  | child {n m e} : m ∈ e.children → IsNode n m → IsNode n e

theorem IsNode.segment {n e : Expr} (hn : IsNode n e) {ps : List Piece} (h : Forms .sum ps e) : Segment ps n := by
  induction hn generalizing ps with
  | root => exact .inl h
  | child hm _ ih =>
    obtain ⟨before, own, after, rfl, hf, hapart⟩ := h.inner_children _ hm
    exact .inr ((ih hf).extend hapart)

end Reckon
