import Mathlib.Data.List.Forall2
import Reckon.Proofs.Expr.Meaning
import Reckon.Proofs.Expr.Writing
import Reckon.Proofs.Guards
import Reckon.Proofs.Token.Joining
/-!
# Values of composed texts

A text in parentheses, between a parenthesis and a comma or between two commas is lexed as it is on its own, and its
tokens derive from a sum there as well. So a text that is put together from sources with values has the value that the
same operation gives on these, whatever stands in the sources. That is proved where counters have no limit
(`Registry.Evaluates`), and carried over to those of either build: the text is longer than the sources, so it may be
that only there one runs over.
-/

namespace Reckon

open Token

/-- The source evaluates to the value. -/
def Registry.Evaluates (r : Registry) (source : String) (v : Float) : Prop := (Evaluation.run r source).value? = some v

instance (r : Registry) (source : String) (v : Float) : Decidable (r.Evaluates source v) :=
  inferInstanceAs (Decidable ((Evaluation.run r source).value? = some v))

variable {r : Registry} {a : String} {u : Float}

/-- A source with a value is written for a tree of that value, wherever no lexeme can go on. -/
theorem Registry.Evaluates.exists_writes (h : r.Evaluates a u) :
    ∃ t, Writes r Shape.Apart .sum a t ∧ t.value r = .ok u := by
  obtain ⟨tokens, e, hl, he, hv⟩ := Evaluation.value?_run_eq_some_iff.1 h
  exact ⟨e.tree, ⟨_, lexes_of_lex hl, derives_of_ofTokens he⟩, Expr.value_of_eval r hv⟩

theorem evaluates_of_writes {t : Tree} (h : Writes r Anything .sum a t) (hv : t.value r = .ok u) : r.Evaluates a u := by
  obtain ⟨tokens, e, hl, he, rfl⟩ := exists_ofTokens_of_writes h.closed
  exact Evaluation.value?_run_eq_some_iff.2 ⟨tokens, e, hl, he, Expr.eval_of_value r hv⟩

/-- Sources with values, with commas between them, are written for trees of these values. -/
theorem exists_writesAll_of_evaluates {as : List String} {vs : List Float} (h : List.Forall₂ r.Evaluates as vs)
    (hne : as ≠ []) : ∃ ts, WritesAll r Shape.Apart (", ".intercalate as) ts ∧ Tree.values r ts = .ok vs := by
  induction h with
  | nil => exact absurd rfl hne
  | @cons a v as vs ha has ih =>
    obtain ⟨t, hw, hv⟩ := ha.exists_writes
    cases as with
    | nil =>
      cases has
      rw [String.intercalate_singleton]
      exact ⟨[t], .one hw, Tree.values_singleton_eq_ok.2 ⟨v, hv, rfl⟩⟩
    | cons a' as =>
      obtain ⟨ts, hws, hvs⟩ := ih (List.cons_ne_nil a' as)
      rw [String.intercalate_cons_cons]
      refine ⟨t :: ts, .more hw hws fun _ => Shape.apart_of_head rfl, ?_⟩
      rw [Tree.values, hv, hvs]

section
variable {b : String} {v : Float}

theorem apart_of_rightParen (rest : List Char) : Shape.Apart (')' :: rest) := Shape.apart_of_head rfl

theorem evaluates_binary (op : Operator) (ha : r.Evaluates a u) (hb : r.Evaluates b v) :
    r.Evaluates ("(" ++ a ++ ") " ++ op.symbol ++ " (" ++ b ++ ")") (op.apply u v) := by
  obtain ⟨t, ht, hv⟩ := ha.exists_writes
  obtain ⟨t', ht', hv'⟩ := hb.exists_writes
  have hall := (ht.group apart_of_rightParen).binary op (ht'.group apart_of_rightParen) fun _ => trivial
  have htext : "(" ++ a ++ ")" ++ " " ++ op.symbol ++ " " ++ ("(" ++ b ++ ")") =
      "(" ++ a ++ ") " ++ op.symbol ++ " (" ++ b ++ ")" := by
    simp only [String.append_assoc]
    rfl
  rw [htext] at hall
  exact evaluates_of_writes hall (Tree.value_binary_eq_ok.2 ⟨u, v, hv, hv', rfl⟩)

theorem evaluates_negate (ha : r.Evaluates a u) : r.Evaluates ("-(" ++ a ++ ")") (-u) := by
  obtain ⟨t, ht, hv⟩ := ha.exists_writes
  have hall := (ht.group apart_of_rightParen).negate.toSum
  rw [← String.append_assoc, ← String.append_assoc] at hall
  refine evaluates_of_writes hall ?_
  rw [Tree.value, hv]

theorem evaluates_call {f : NativeFunction} (hf : f ∈ r.functions) (hname : Shape.name.Matches f.name.toList)
    {as : List String} {vs : List Float} {w : Float} (has : List.Forall₂ r.Evaluates as vs)
    (hw : f.native (vs ++ (f.params.drop vs.length).map fun p => p.default.getD Number.nan) = .ok w) :
    r.Evaluates (f.name ++ "(" ++ ", ".intercalate as ++ ")") w := by
  have hlook : r.function? f.name = some f := Registry.function?_eq_some_iff.2 ⟨hf, rfl⟩
  by_cases hne : as = []
  · subst hne
    cases has
    rw [String.intercalate_nil, String.append_empty]
    exact evaluates_of_writes (Writes.bareCall hf hname).toSum (Tree.value_call_eq_ok.2 ⟨[], f, rfl, hlook, hw⟩)
  · obtain ⟨ts, hts, hvs⟩ := exists_writesAll_of_evaluates has hne
    exact evaluates_of_writes (Writes.call hf hname hts apart_of_rightParen).toSum
      (Tree.value_call_eq_ok.2 ⟨vs, f, hvs, hlook, hw⟩)

end

/-! ## Either build -/

/-- The source evaluates to the value with the counters of a build. What goes wrong in the lexer is the panic `p`. -/
def Registry.EvaluatesIn (r : Registry) (o : Overflow) (p : Panic) (source : String) (v : Float) : Prop :=
  (Evaluation.guardedIn o p r source).value? = some v

/-- The source evaluates to the value unless a checked counter runs over in it, which takes 2 ^ 30 bytes, and is
reported as a fault of the lexer. -/
def Registry.Yields (r : Registry) (o : Overflow) (p : Panic) (source : String) (v : Float) : Prop :=
  r.EvaluatesIn o p source v ∨ (RunsOver o r source ∧
    Evaluation.guardedIn o p r source = .failure source none none (.fault ⟨p, "lex"⟩) [.panic p.message])

variable {o : Overflow} {p : Panic}

theorem Registry.EvaluatesIn.evaluates (h : r.EvaluatesIn o p a u) : r.Evaluates a u := by
  obtain ⟨tokens, e, hl, he, hv⟩ := Evaluation.value?_guardedIn_eq_some_iff.1 h
  obtain ⟨tokens', hl', hkinds⟩ := lex_of_lexIn? hl
  obtain ⟨e', he', ht⟩ := exists_ofTokens_of_kinds hkinds he
  exact Evaluation.value?_run_eq_some_iff.2
    ⟨tokens', e', hl', he', Expr.eval_of_value r (ht ▸ Expr.value_of_eval r hv)⟩

theorem Registry.Evaluates.yields (h : r.Evaluates a u) (o : Overflow) (p : Panic) : r.Yields o p a u := by
  obtain ⟨tokens, e, hl, he, hv⟩ := Evaluation.value?_run_eq_some_iff.1 h
  rcases lexIn?_of_lex o hl with ⟨tokens', hl', hkinds⟩ | hover
  · obtain ⟨e', he', ht⟩ := exists_ofTokens_of_kinds hkinds he
    exact .inl (Evaluation.value?_guardedIn_eq_some_iff.2
      ⟨tokens', e', hl', he', Expr.eval_of_value r (ht ▸ Expr.value_of_eval r hv)⟩)
  · exact .inr ⟨hover, Evaluation.guardedIn_of_runsOver p hover⟩

/-- Below 2 ^ 30 bytes nothing runs over. -/
theorem Registry.Yields.evaluatesIn (h : r.Yields o p a u) (hsize : a.utf8ByteSize < 2 ^ 30) : r.EvaluatesIn o p a u :=
  h.resolve_right fun hover => not_runsOver_of_lt hsize hover.1

/-- So there the value is that of the evaluation with checked counters. -/
theorem Registry.Yields.value?_guarded (h : r.Yields .panics p a u) (hsize : a.utf8ByteSize < 2 ^ 30) :
    (Evaluation.guarded p r a).value? = some u := by
  rw [← Evaluation.guardedIn_panics]
  exact h.evaluatesIn hsize

end Reckon
