import Reckon.Registry.Basic
/-!
# Looking names up

No name occurs twice in the tables of a registry, so looking a name up finds the entry of that name, and no name is both
a constant's and a function's.
-/

namespace Reckon

/-- Where no key occurs twice, the first entry with a key is the entry with that key. -/
theorem find?_key_eq_some_iff {α : Type} {key : α → String} {entries : List α} (h : (entries.map key).Nodup)
    {name : String} {x : α} : entries.find? (fun y => key y = name) = some x ↔ x ∈ entries ∧ key x = name := by
  induction entries with
  | nil => simp
  | cons y ys ih =>
    rw [List.map_cons, List.nodup_cons] at h
    by_cases hy : key y = name
    · rw [List.find?_cons_of_pos (by simpa using hy)]
      refine ⟨fun he => ?_, fun ⟨hx, hk⟩ => ?_⟩
      · cases he
        exact ⟨List.mem_cons_self, hy⟩
      · rcases List.mem_cons.1 hx with rfl | hx
        · rfl
        · exact absurd (List.mem_map.2 ⟨x, hx, hk.trans hy.symm⟩) h.1
    · rw [List.find?_cons_of_neg (by simpa using hy), ih h.2, List.mem_cons]
      refine ⟨fun ⟨hx, hk⟩ => ⟨.inr hx, hk⟩, fun ⟨hx, hk⟩ => ⟨?_, hk⟩⟩
      rcases hx with rfl | hx
      · exact absurd hk hy
      · exact hx

namespace Registry

variable {r : Registry} {name : String}

theorem constant?_eq_some_iff {c : Constant} : r.constant? name = some c ↔ c ∈ r.constants ∧ c.name = name :=
  find?_key_eq_some_iff (List.nodup_append.1 r.nodup).2.1

theorem function?_eq_some_iff {f : NativeFunction} : r.function? name = some f ↔ f ∈ r.functions ∧ f.name = name :=
  find?_key_eq_some_iff (List.nodup_append.1 r.nodup).1

theorem constant?_eq_none_iff : r.constant? name = none ↔ ∀ c ∈ r.constants, c.name ≠ name := by
  simp [constant?]

theorem function?_eq_none_iff : r.function? name = none ↔ ∀ f ∈ r.functions, f.name ≠ name := by
  simp [function?]

/-- A function's name is no constant's. -/
theorem constant?_of_function? {f : NativeFunction} (h : r.function? name = some f) : r.constant? name = none := by
  cases hc : r.constant? name with
  | none => rfl
  | some c =>
    obtain ⟨hf, rfl⟩ := function?_eq_some_iff.1 h
    obtain ⟨hc, hn⟩ := constant?_eq_some_iff.1 hc
    have hne := (List.nodup_append.1 r.nodup).2.2 f.name (List.mem_map_of_mem hf) c.name (List.mem_map_of_mem hc)
    exact absurd hn.symm hne

end Registry

end Reckon
