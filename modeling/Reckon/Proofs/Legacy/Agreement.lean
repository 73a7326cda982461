import Reckon.Legacy.Evaluation
import Reckon.Proofs.Evaluation
import Reckon.Proofs.Expr.Meaning
import Reckon.Proofs.Legacy.Admission
import Reckon.Proofs.Legacy.Conversion
/-!
# Where the legacy route agrees

On expressions without signs, remainders and powers written as two stars, with one argument to each function and only
functions that both routes have, the legacy route admits what the main one evaluates, its program is the tree in
post-order, and running the program gives the same double.
-/

namespace Reckon.Legacy

/-! ## Values -/

/-- A name that both registries give to a function means the same. -/
theorem function_eq {name : String} {f g : NativeFunction} (hf : Registry.standard.function? name = some f)
    (hg : registry.function? name = some g) : f = g := by
  obtain ⟨hmem, rfl⟩ := Registry.function?_eq_some_iff.1 hf
  simp only [Registry.standard, Registry.standardFunctions, List.mem_cons, List.not_mem_nil, or_false] at hmem
  rcases hmem with rfl | rfl | rfl | rfl | rfl | rfl | rfl | rfl | rfl | rfl | rfl | rfl | rfl <;> cases hg <;> rfl

/-- Running the post-order of a tree puts its value on the stack. -/
theorem valueFrom_postorder {t : Tree} (ht : Shared registry t) : ∀ {v : Float}, t.value .standard = .ok v →
    t.Registered .standard → ∀ (stack : List Float) (rest : List Item),
      valueFrom stack (postorder registry t ++ rest) = valueFrom (v :: stack) rest := by
  induction ht with
  | number x =>
    intro v hv _ stack rest
    cases hv
    rfl
  | constant name x =>
    intro v hv hreg stack rest
    obtain ⟨c, hc, rfl, rfl⟩ := hreg (.constant name x) List.mem_cons_self
    rw [Tree.value, Registry.constant?_eq_some_iff.2 ⟨hc, rfl⟩] at hv
    cases hv
    rfl
  | @binary left right op _ _ ihl ihr =>
    intro v hv hreg stack rest
    rw [Tree.Registered, Tree.nodes, List.forall_mem_append, List.forall_mem_cons] at hreg
    obtain ⟨x, y, hx, hy, rfl⟩ := Tree.value_binary_eq_ok.1 hv
    rw [postorder, List.append_assoc, List.append_assoc, ihl hx hreg.1, ihr hy hreg.2.2]
    rfl
  | @call name f arg hf _ ih =>
    intro v hv hreg stack rest
    rw [Tree.Registered, Tree.nodes, List.forall_mem_cons, Tree.nodesAll, Tree.nodesAll, List.append_nil] at hreg
    obtain ⟨xs, g, hxs, hg, hcall⟩ := Tree.value_call_eq_ok.1 hv
    obtain ⟨x, hx, rfl⟩ := Tree.values_singleton_eq_ok.1 hxs
    obtain rfl := function_eq hg hf
    rw [postorder, postorders, postorders, List.append_nil, hf, List.append_assoc, ih hx hreg.2]
    have hexec : execute (x :: stack) (.function g) = .ok (v :: stack) := by
      rw [execute, top, List.headD_cons, hcall]
      rfl
    simp only [Option.map_some, Option.toList_some, List.singleton_append, valueFrom, hexec]

/-! ## Tokens -/

theorem function?_of_mem_nodes {r : Registry} {t : Tree} (ht : Shared r t) {name : String}
    (hn : .function name ∈ t.nodes) : ∃ f, r.function? name = some f := by
  induction ht with
  | number v => cases List.mem_singleton.1 hn
  | constant name' v => cases List.mem_singleton.1 hn
  | binary op _ _ ihl ihr =>
    rw [Tree.nodes, List.mem_append, List.mem_cons] at hn
    rcases hn with hn | hn | hn
    · exact ihl hn
    · cases hn
    · exact ihr hn
  | @call name' f arg hf _ ih =>
    rw [Tree.nodes, List.mem_cons, Tree.nodesAll, Tree.nodesAll, List.append_nil] at hn
    rcases hn with hn | hn
    · cases hn
      exact ⟨f, hf⟩
    · exact ih hn

/-- A registered name means the same to the legacy route, which has the same constants. -/
theorem sameName_of_registered {k : Token.Kind} (h : ∀ n ∈ k.node?, n.Registered .standard) :
    Token.SameName registry k := by
  cases k with
  | constant name v =>
    obtain ⟨c, hc, rfl, hv⟩ := h _ rfl
    exact ⟨c, Registry.constant?_eq_some_iff.2 ⟨hc, rfl⟩, hv⟩
  | function name =>
    obtain ⟨f, hf, rfl⟩ := h _ rfl
    have hnone : Registry.standard.constant? f.name = none :=
      Registry.constant?_of_function? (Registry.function?_eq_some_iff.2 ⟨hf, rfl⟩)
    exact hnone
  | _ => trivial

/-- The legacy registry has the names of a tree that it shares. -/
theorem name_mem_registry {t : Tree} (ht : Shared registry t) (hreg : t.Registered .standard) {k : Token.Kind}
    (hk : ∀ n ∈ k.node?, n ∈ t.nodes) : ∀ n ∈ name? k, n ∈ registry.names.map String.toList := by
  intro n hn
  cases k with
  | constant name v =>
    cases hn
    obtain ⟨c, hc, rfl, -⟩ := hreg _ (hk _ rfl)
    exact List.mem_map_of_mem (List.mem_append_right _ (List.mem_map_of_mem hc))
  | function name =>
    cases hn
    obtain ⟨f, hf⟩ := function?_of_mem_nodes ht (hk _ rfl)
    obtain ⟨hmem, rfl⟩ := Registry.function?_eq_some_iff.1 hf
    exact List.mem_map_of_mem (List.mem_append_left _ (List.mem_map_of_mem hmem))
  | _ => cases hn

theorem mem_percent_of_rem {r : Registry} {source : String} {tokens : List Reckon.Token}
    (hl : Reckon.Token.lex r source = .ok tokens) (h : .operator .rem ∈ Reckon.Token.content tokens) :
    '%' ∈ source.toList := by
  obtain ⟨t, ht, hk⟩ := Reckon.Token.mem_of_mem_content h
  have hs := Reckon.Token.lex_eq_ok_iff.1 ⟨tokens, hl, rfl⟩
  have hne : t.piece.kind ≠ .eof := by
    rw [Reckon.Token.piece, hk]
    intro he
    cases he
  obtain ⟨before, text, after, hsource, -, hlex⟩ := hs.exists_lexeme (List.mem_map_of_mem ht) hne
  obtain ⟨s, hshape, hm⟩ := hlex.longest
  rw [Reckon.Token.piece, hk] at hshape
  cases hshape
  cases hm.isMatch
  rw [hsource]
  simp

/-! ## The two routes -/

/-- The legacy route agrees with the main one on the expressions that they share. A comma need not be excluded, since
calls with one argument have none. -/
theorem run_agrees {source : String} {tokens : List Reckon.Token} {e : Expr} {v : Float}
    (h : Reckon.Evaluation.run .standard source = .success source tokens e v) (hrem : '%' ∉ source.toList)
    (hstars : ¬['*', '*'] <:+: source.toList) (hshared : Shared registry e.tree)
    (hbare : ∀ c ∈ Registry.standard.constants, source ≠ c.name) :
    ∃ legacyTokens, Evaluation.run source = .success source v legacyTokens ∧
      legacyTokens = Token.lex registry source.toList ∧
      convert registry [] legacyTokens = .ok (postorder registry e.tree) := by
  obtain ⟨-, hl, he, hv⟩ := Reckon.Evaluation.run_eq_success_iff.1 h
  have hd := derives_of_ofTokens he
  have hreg := Reckon.Token.registered_of_lex hl he
  have hs := Reckon.Token.lex_eq_ok_iff.1 ⟨tokens, hl, rfl⟩
  have hrem' : .operator .rem ∉ Reckon.Token.content tokens := fun hmem => hrem (mem_percent_of_rem hl hmem)
  have hnames : ∀ k ∈ Reckon.Token.content tokens, ∀ n ∈ name? k, n ∈ registry.names.map String.toList := by
    intro k hk
    refine name_mem_registry hshared hreg fun n hn => ?_
    rw [← hd.filterMap_node?]
    exact List.mem_filterMap.2 ⟨k, hk, hn⟩
  have hlex : Token.lex registry source.toList = (Reckon.Token.content tokens).filterMap Token.ofKind? := by
    rw [Token.lex_of_splits hs (fun p hp => sameName_of_registered fun n hn => hs.registered hp hn) hstars, List.map_map,
      show (fun p => p.kind) ∘ Reckon.Token.piece = Reckon.Token.kind from rfl, Reckon.Token.map_kind_of_lex hl,
      List.filterMap_append]
    exact List.append_nil _
  -- Both programs and values come from the tree, which both routes have read from the same tokens.
  have hconvert := convert_of_derives hd hshared hrem'
  rw [← hlex] at hconvert
  have hvalue : value (postorder registry e.tree) = .ok v := by
    have hrun := valueFrom_postorder hshared (Expr.value_of_eval _ hv) hreg [] []
    rw [List.append_nil] at hrun
    exact hrun
  refine ⟨Token.lex registry source.toList, ?_, rfl, hconvert⟩
  unfold Evaluation.run
  simp only [check_eq_ok hl hd hnames hrem' hbare, hconvert, hvalue]
  rfl

/-- A difference of a call and a chain of powers. -/
theorem run_agrees_difference : ∃ tokens e v legacyTokens,
    Reckon.Evaluation.run .standard "sqrt(PI) - 2^3^.5" = .success "sqrt(PI) - 2^3^.5" tokens e v ∧
      '%' ∉ "sqrt(PI) - 2^3^.5".toList ∧ ¬['*', '*'] <:+: "sqrt(PI) - 2^3^.5".toList ∧ Shared registry e.tree ∧
      Evaluation.run "sqrt(PI) - 2^3^.5" = .success "sqrt(PI) - 2^3^.5" v legacyTokens ∧
      convert registry [] legacyTokens = .ok (postorder registry e.tree) := by
  have hrun : (Reckon.Evaluation.run .standard "sqrt(PI) - 2^3^.5").casesOn (motive := fun _ => Bool)
      (fun _ _ e _ => decide (Shared registry e.tree)) (fun _ _ _ _ _ => false) = true := by decide +kernel
  cases h : Reckon.Evaluation.run .standard "sqrt(PI) - 2^3^.5" with
  | failure =>
    rw [h] at hrun
    cases hrun
  | success expression tokens e v =>
    obtain ⟨rfl, -⟩ := Reckon.Evaluation.run_eq_success_iff.1 h
    rw [h] at hrun
    have hshared := of_decide_eq_true hrun
    obtain ⟨legacyTokens, hlegacy, -, hconvert⟩ :=
      run_agrees h (by decide) (by decide +kernel) hshared (by decide)
    exact ⟨tokens, e, v, legacyTokens, rfl, by decide, by decide +kernel, hshared, hlegacy, hconvert⟩

end Reckon.Legacy
