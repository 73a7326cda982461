import Mathlib.Data.List.Chain
import Reckon.Proofs.Legacy.Running
/-!
# How the stack is layered

Within a group operators lie at the bottom of the stack and functions on top of them, and the operators bind the
tighter the higher they lie. An operator that arrives releases what binds as tightly as it does and fails at a
function, so it never comes to lie on one; everything else only opens a new layer or takes some from the top. This
holds after any tokens, whether their parentheses balance or not.
-/

namespace Reckon.Legacy

variable {r : Registry} {op : Operator} {stack rest last : List Pending} {items : List Item} {t : Token}

/-- What may lie directly on what: no operator on a function, and on an operator only one that binds tighter, or a
power on a power. -/
def Rests : Pending → Pending → Prop
  | .operator _, .function _ => False
  | .operator op, .operator below => precedence below < precedence op ∨ op = .pow ∧ below = .pow
  | _, _ => True

/-- On the stack, whose top comes first, everything rests on what is below it. -/
def Layered (stack : List Pending) : Prop := stack.IsChain Rests

theorem layered_nil : Layered [] := .nil

theorem Layered.tail {p : Pending} (h : Layered (p :: stack)) : Layered stack := List.IsChain.tail h

theorem Layered.opening (h : Layered stack) : Layered (.opening :: stack) := h.cons fun _ _ => trivial

theorem Layered.function (h : Layered stack) (f : NativeFunction) : Layered (.function f :: stack) :=
  h.cons fun _ _ => trivial

/-- An operator rests on an operator that does not yield to it. -/
theorem rests_of_not_yields {below : Operator} (h : ¬yields op below = true) : Rests (.operator op) (.operator below) := by
  unfold Rests
  revert h
  cases op <;> cases below <;> decide

/-- An operator for which way was made rests on what is left. -/
theorem Layered.operator (h : Layered stack) (hway : makeWay op stack = .ok (items, rest)) :
    Layered (.operator op :: rest) := by
  -- What yields goes and leaves a stack that is layered as well. The new operator rests on the first that stays.
  fun_induction makeWay op stack generalizing items with
  | case1 below stack hy items' rest' hm ih =>
    cases hway
    exact ih h.tail hm
  | case2 below stack hy e hm ih => cases hway
  | case3 below stack hy =>
    cases hway
    exact List.isChain_cons_cons.2 ⟨rests_of_not_yields hy, h⟩
  | case4 f stack => cases hway
  | case5 stack hop hf =>
    cases hway
    cases rest with
    | nil => exact .singleton _
    | cons below rest =>
      refine List.isChain_cons_cons.2 ⟨?_, h⟩
      cases below with
      | opening => trivial
      | operator below => exact absurd rfl (hop below rest)
      | function f => exact absurd rfl (hf f rest)

/-- The end of a group only takes from the top. -/
theorem closeGroup_suffix (stack : List Pending) : (closeGroup stack).2 <:+ stack := by
  fun_induction closeGroup stack with
  | case1 => exact List.suffix_refl _
  | case2 f stack => exact (List.suffix_cons _ _).trans (List.suffix_cons _ _)
  | case3 stack _ => exact List.suffix_cons _ _
  | case4 op stack ih => exact ih.trans (List.suffix_cons _ _)
  | case5 f stack ih => exact ih.trans (List.suffix_cons _ _)

/-- An operator first makes way for itself. -/
theorem step_operator {s : String} (hf : r.function? s = none) (hop : operator? s = some op) :
    step r stack (.symbol s) = (makeWay op stack).map fun way => (way.1, .operator op :: way.2) := by
  rw [step, hf]
  simp only [hop]
  cases makeWay op stack <;> rfl

theorem exists_way_of_step {s : String} (hf : r.function? s = none) (hop : operator? s = some op)
    (h : step r stack (.symbol s) = .ok (items, rest)) :
    ∃ way, makeWay op stack = .ok (items, way) ∧ rest = .operator op :: way := by
  rw [step_operator hf hop] at h
  cases hway : makeWay op stack with
  | error e =>
    rw [hway] at h
    cases h
  | ok way =>
    rw [hway] at h
    cases h
    exact ⟨way.2, rfl, rfl⟩

/-- A token leaves the stack layered. -/
theorem layered_of_step (h : Layered stack) (hstep : step r stack t = .ok (items, rest)) : Layered rest := by
  cases takes_of_step hstep with
  | number v => exact h
  | function hf => exact h.function _
  | operator hf hop hstack =>
    obtain ⟨way, hway, hrest⟩ := exists_way_of_step hf hop hstep
    rw [hrest]
    exact h.operator hway
  | opening hf => exact h.opening
  | closing hf => exact h.suffix (closeGroup_suffix stack)
  | nothing hf hop hs hs' => exact h

/-- After any tokens the stack is layered. -/
theorem layered_of_takeAll {tokens : List Token} (h : Layered stack)
    (htake : takeAll r stack tokens = .ok (items, last)) : Layered last := by
  induction tokens generalizing stack items with
  | nil =>
    cases htake
    exact h
  | cons t tokens ih =>
    obtain ⟨items', rest, more, hstep, hmore, rfl⟩ := takeAll_cons_eq_ok.1 htake
    exact ih (layered_of_step h hstep) hmore

end Reckon.Legacy
