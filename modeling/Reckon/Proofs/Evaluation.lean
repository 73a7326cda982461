import Reckon.Evaluation
/-!
# Evaluations by stages

An evaluation succeeds when each of its stages does, and then it keeps what they give.
-/

namespace Reckon.Evaluation

theorem run_eq_success_iff {r : Registry} {source expression : String} {tokens : List Token} {e : Expr} {v : Float} :
    run r source = .success expression tokens e v ↔
      expression = source ∧ Token.lex r source = .ok tokens ∧ Expr.ofTokens tokens = .ok e ∧ e.eval r = .ok v := by
  refine ⟨fun h => ?_, ?_⟩
  · unfold run at h
    split at h
    · cases h
    · next tokens' hl =>
      split at h
      · cases h
      · next e' he =>
        split at h
        · next v' hv =>
          cases h
          exact ⟨rfl, hl, he, hv⟩
        · cases h
        · cases h
  · rintro ⟨rfl, hl, he, hv⟩
    unfold run
    simp only [hl, he, hv]

/-- The value, if there is one. -/
def value? : Evaluation → Option Float
  | success _ _ _ v => some v
  | failure .. => none

theorem value?_run_eq_some_iff {r : Registry} {source : String} {v : Float} :
    (run r source).value? = some v ↔
      ∃ tokens e, Token.lex r source = .ok tokens ∧ Expr.ofTokens tokens = .ok e ∧ e.eval r = .ok v := by
  cases h : run r source with
  | success expression tokens e v' =>
    obtain ⟨-, hl, he, hv⟩ := run_eq_success_iff.1 h
    constructor
    · intro hsome
      cases hsome
      exact ⟨tokens, e, hl, he, hv⟩
    · rintro ⟨tokens', e', hl', he', hv'⟩
      rw [run_eq_success_iff.2 ⟨rfl, hl', he', hv'⟩] at h
      cases h
      rfl
  | failure expression tokens tree error causes =>
    refine ⟨nofun, ?_⟩
    rintro ⟨tokens', e', hl', he', hv'⟩
    rw [run_eq_success_iff.2 ⟨rfl, hl', he', hv'⟩] at h
    cases h

end Reckon.Evaluation
