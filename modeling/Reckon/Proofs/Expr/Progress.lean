import Reckon.Proofs.Expr.Errors
import Reckon.Proofs.Expr.Moves
/-!
# Reading goes on

Wherever the cursor stands and however loosely operators may bind, reading an expression takes a token at least, or
fails. It goes over tokens in their order and not past the end of the input, and it stops in front of what it may not
take: an operator that binds more loosely, a closing parenthesis, a comma or the end. Of the operators that it has
taken, those outside all parentheses that join two operands bind tightly enough. Move by move it comes to an end as
well, after five moves for each token and four more.
-/

namespace Reckon

open Token (Piece)

/-! ## Operators between operands -/

/-- The operators that stand behind an operand and outside all parentheses. What stands behind no operand is a sign. -/
def Token.joints (depth : Nat) (behindOperand : Bool) : List Token.Kind → List Operator
  | [] => []
  | .leftParen :: ks => joints (depth + 1) false ks
  | .rightParen :: ks => joints (depth - 1) true ks
  | .operator op :: ks =>
    if depth = 0 ∧ behindOperand = true then op :: joints depth false ks else joints depth false ks
  | .integer _ :: ks => joints depth true ks
  | .decimal _ :: ks => joints depth true ks
  | .constant _ _ :: ks => joints depth true ks
  | .comma :: ks => joints depth false ks
  | .function _ :: ks => joints depth false ks
  | .eof :: ks => joints depth false ks

open Token (joints)

/-- The kinds are those of an operand or a chain of them, joined by operators that bind tightly enough. -/
def Joined (least : Nat) (ks : List Token.Kind) : Prop :=
  ∀ depth, ∃ ops, (∀ rest, joints depth false (ks ++ rest) = ops ++ joints depth true rest) ∧
    ∀ op ∈ ops, depth = 0 ∧ least ≤ op.precedence

namespace Joined

variable {m n : Nat} {k : Token.Kind} {ks ks' : List Token.Kind}

theorem mono (h : Joined n ks) (hmn : m ≤ n) : Joined m ks := by
  intro depth
  obtain ⟨ops, hops, hbind⟩ := h depth
  exact ⟨ops, hops, fun op hop => ⟨(hbind op hop).1, Nat.le_trans hmn (hbind op hop).2⟩⟩

theorem chain {op : Operator} (h : Joined op.precedence ks) (h' : Joined op.precedence ks') :
    Joined op.precedence (ks ++ .operator op :: ks') := by
  intro depth
  obtain ⟨ops, hops, hbind⟩ := h depth
  obtain ⟨ops', hops', hbind'⟩ := h' depth
  by_cases hdepth : depth = 0
  · refine ⟨ops ++ op :: ops', fun rest => ?_, fun next hnext => ?_⟩
    · rw [List.append_assoc, hops, List.cons_append, joints, if_pos ⟨hdepth, rfl⟩, hops', List.append_assoc, List.cons_append]
    · rcases List.mem_append.1 hnext with hnext | hnext
      · exact hbind next hnext
      · rcases List.mem_cons.1 hnext with rfl | hnext
        · exact ⟨hdepth, Nat.le_refl _⟩
        · exact hbind' next hnext
  · refine ⟨ops ++ ops', fun rest => ?_, fun next hnext => ?_⟩
    · rw [List.append_assoc, hops, List.cons_append, joints, if_neg fun hboth => hdepth hboth.1, hops', List.append_assoc]
    · exact (List.mem_append.1 hnext).elim (hbind next) (hbind' next)

/-- Inside of parentheses no operator counts. -/
theorem inside (h : Joined m ks) (depth : Nat) (rest : List Token.Kind) :
    joints (depth + 1) false (ks ++ rest) = joints (depth + 1) true rest := by
  obtain ⟨ops, hops, hbind⟩ := h (depth + 1)
  have hnil : ops = [] := List.eq_nil_iff_forall_not_mem.2 fun op hop => absurd (hbind op hop).1 (Nat.succ_ne_zero depth)
  rw [hops, hnil, List.nil_append]

end Joined

theorem Operator.precedence_le_rightLevel (op : Operator) : op.precedence ≤ op.rightLevel.least := by cases op <;> decide

mutual

/-- The operators of an expression that stand outside all parentheses belong to its chains. -/
theorem Forms.joined : ∀ {level : Level} {ps : List Piece} {e : Expr}, Forms level ps e →
    Joined level.least (ps.map Piece.kind)
  | _, _, _, .loosen hl h => h.joined.mono hl
  | _, _, _, .chain op s hl hr => by
    rw [List.map_append, List.map_cons, op.least_level]
    exact .chain (hl.joined.mono op.precedence_le_leftLevel) (hr.joined.mono op.precedence_le_rightLevel)
  | _, _, _, .integer v s | _, _, _, .decimal v s | _, _, _, .constant name v s =>
    fun depth => ⟨[], fun rest => rfl, List.forall_mem_nil _⟩
  | _, _, _, .group s s' h => by
    refine fun depth => ⟨[], fun rest => ?_, List.forall_mem_nil _⟩
    rw [List.map_cons, List.map_append, List.cons_append, List.append_assoc, joints, h.joined.inside]
    rfl
  | _, _, _, .negate s h => by
    intro depth
    obtain ⟨ops, hops, hbind⟩ := h.joined depth
    refine ⟨ops, fun rest => ?_, hbind⟩
    rw [List.map_cons, List.cons_append, joints, if_neg (by simp), hops]
  | _, _, _, .bareCall name s s' s'' => fun depth => ⟨[], fun rest => rfl, List.forall_mem_nil _⟩
  | _, _, _, .call name s s' s'' h => by
    refine fun depth => ⟨[], fun rest => ?_, List.forall_mem_nil _⟩
    rw [List.map_cons, List.map_cons, List.map_append, List.cons_append, List.cons_append, List.append_assoc, joints, joints,
      h.joints_inside]
    rfl

theorem FormsAll.joints_inside : ∀ {ps : List Piece} {es : List Expr}, FormsAll ps es → ∀ depth rest,
    joints (depth + 1) false (ps.map Piece.kind ++ rest) = joints (depth + 1) true rest
  | _, _, .one h, depth, rest => h.joined.inside depth rest
  | _, _, .more s h hs, depth, rest => by
    rw [List.map_append, List.map_cons, List.append_assoc, h.joined.inside, List.cons_append, joints, hs.joints_inside]

end

theorem le_precedence_of_least_ofLeast {n : Nat} {op : Operator} (h : (Level.ofLeast n).least ≤ op.precedence) :
    n ≤ op.precedence := by
  unfold Level.ofLeast at h
  cases op <;> simp only [Operator.precedence] at h ⊢ <;> split at h <;> grind [Level.least]

/-- Two operators join operands outside of the parentheses; the sign does not. -/
example (v : Float) : joints 0 false [.integer v, .operator .sub, .operator .sub, .leftParen, .integer v, .operator .add,
    .integer v, .rightParen, .operator .pow, .integer v] = [.sub, .pow] := rfl

/-! ## Readings -/

/-- What is true of a reading that begins at the cursor `c`: it passes some tokens. A reader that begins with the task
does the same move by move. -/
structure Reading.Proceeds {c : Cursor} (s : Reading c Expr) (task : Reader.Task) (passed : List Token) : Prop where
  /-- It goes over the tokens in their order. -/
  passes : c = { s.cursor with ahead := passed ++ s.cursor.ahead }
  /-- It does not go past the end of the input. -/
  live : ∀ t ∈ passed, t.kind ≠ .eof
  onward : ∀ e, s.outcome = .ok e → passed ≠ []
  /-- It comes to an end, after a number of moves that the tokens up to the end of the input tell. -/
  ended : ∀ n, 5 * c.pieces.length + 4 ≤ n → (Reader.after ⟨task, c, []⟩ n).Ended s

theorem Forms.ne_nil : ∀ {level : Level} {ps : List Piece} {e : Expr}, Forms level ps e → ps ≠ []
  | _, _, _, .loosen _ h => h.ne_nil
  | _, _, _, .chain _ _ _ _ => List.append_ne_nil_of_right_ne_nil _ (List.cons_ne_nil _ _)
  | _, _, _, .integer _ _ | _, _, _, .decimal _ _ | _, _, _, .constant _ _ _ | _, _, _, .group _ _ _
  | _, _, _, .negate _ _ | _, _, _, .bareCall _ _ _ _ | _, _, _, .call _ _ _ _ _ => List.cons_ne_nil _ _

variable {c : Cursor} {ps : List Piece}

namespace Cursor

/-- What is passed when an expression is read, or not. -/
theorem exists_passes_readExpr (c : Cursor) (least : Nat) : ∃ ps, c.Passes ps (c.readExpr least).cursor ∧
    ∀ e, (c.readExpr least).outcome = .ok e →
      Forms (.ofLeast least) ps e ∧ StopsBelow least (c.readExpr least).cursor.pieces := by
  cases ho : (c.readExpr least).outcome with
  | ok e =>
    obtain ⟨⟨ps, hc, hf⟩, hs⟩ := forms_of_reads.1 c least e _ ⟨ho, rfl⟩
    refine ⟨ps, hc, fun e' he => ?_⟩
    cases he
    exact ⟨hf, hs⟩
  | error err =>
    obtain ⟨ps, k, hc, -, -⟩ := stuckFrom_of_fails.1 c least err _ ⟨ho, rfl⟩
    exact ⟨ps, hc, fun e he => by cases he⟩

/-- What is passed when an operand is read, or not. -/
theorem exists_passes_readOperand (c : Cursor) : ∃ ps, c.Passes ps c.readOperand.cursor ∧
    ∀ e, c.readOperand.outcome = .ok e → Forms .primary ps e := by
  cases ho : c.readOperand.outcome with
  | ok e =>
    obtain ⟨ps, hc, hf⟩ := forms_of_reads.2.2.1 c e _ ⟨ho, rfl⟩
    refine ⟨ps, hc, fun e' he => ?_⟩
    cases he
    exact hf
  | error err =>
    obtain ⟨ps, k, hc, -, -⟩ := stuckFrom_of_fails.2.2.1 c err _ ⟨ho, rfl⟩
    exact ⟨ps, hc, fun e he => by cases he⟩

end Cursor

/-- A reading that passes pieces proceeds over the tokens that they are of. -/
theorem Reading.exists_proceeds {s : Reading c Expr} {task : Reader.Task} (hc : c.Passes ps s.cursor)
    (hne : ∀ e, s.outcome = .ok e → ps ≠ []) (hleads : Reader.Leads ⟨task, c, []⟩ s (Reader.giving []))
    (hrank : task.rank ≤ 4) : ∃ passed, s.Proceeds task passed ∧ passed.map Token.piece = ps := by
  obtain ⟨passed, hpasses, rfl, hlive⟩ := hc.exists_passed
  refine ⟨passed, ⟨hpasses, hlive, fun e he hnil => hne e he (by rw [hnil]; rfl), fun n hn => hleads.ended ?_⟩, rfl⟩
  exact Nat.le_trans (Nat.add_le_add_left hrank _) hn

/-- Wherever the cursor stands, the reading of an expression comes to an end and does not go back. If it gives an
expression, it has gone on and stands in front of no operator that binds tightly enough, and every operator that it
has taken as one of the expression itself does. The reading of an operand goes on likewise. -/
theorem proceeds_of_read (c : Cursor) (least : Nat) :
    (∃ passed, (c.readExpr least).Proceeds (.expr least) passed ∧ ∀ e, (c.readExpr least).outcome = .ok e →
      (∀ op, (c.readExpr least).cursor.kind = .operator op → op.precedence < least) ∧
        ∀ op ∈ joints 0 false (passed.map Token.kind), least ≤ op.precedence) ∧
    ∃ passed, c.readOperand.Proceeds .operand passed := by
  constructor
  · obtain ⟨ps, hc, hok⟩ := c.exists_passes_readExpr least
    have hne : ∀ e, (c.readExpr least).outcome = .ok e → ps ≠ [] := fun e he => (hok e he).1.ne_nil
    obtain ⟨passed, hproceeds, rfl⟩ := Reading.exists_proceeds hc hne (Reader.leads_readExpr c least []) (Nat.le_refl _)
    refine ⟨passed, hproceeds, fun e he => ?_⟩
    obtain ⟨hf, hs⟩ := hok e he
    refine ⟨fun op hk => Cursor.precedence_lt hs hk, fun op hop => ?_⟩
    obtain ⟨ops, hops, hbind⟩ := hf.joined 0
    have hall : joints 0 false (passed.map Token.kind) = ops := by
      have hend := hops []
      rwa [List.append_nil, List.map_map, joints, List.append_nil] at hend
    rw [hall] at hop
    exact le_precedence_of_least_ofLeast (hbind op hop).2
  · obtain ⟨ps, hc, hok⟩ := c.exists_passes_readOperand
    have hne : ∀ e, c.readOperand.outcome = .ok e → ps ≠ [] := fun e he => (hok e he).ne_nil
    obtain ⟨passed, hproceeds, -⟩ := Reading.exists_proceeds hc hne (Reader.leads_readOperand c []) (by decide)
    exact ⟨passed, hproceeds⟩

end Reckon
