import Mathlib.Data.List.AList
import Reckon.Proofs.Registry.Lookup
/-!
# Registries from tables

A registry comes of a table of functions and a table of constants, unless a name occurs twice in them. A name is
looked up by going through a table. Seen from below, there is an index beside each table, which has the position of
every name: the indexes are filled in one after the other, a name that is in one of them already ends this, and what
is found under a name is what stands at its position. `indexed_ofTables` says that the indexed registry breaks off at
the same name, and that its positions lead to the same entries and never behind the end of a table.
-/

namespace Reckon

variable {seen names : List String} {n : String}

/-! ## Repeated names -/

/-- The name is the first one of the list that occurs before itself. -/
def FirstRepeated (names : List String) (n : String) : Prop :=
  ∃ before after, names = before ++ n :: after ∧ before.Nodup ∧ n ∈ before

theorem firstRepeated?_eq_some_iff : firstRepeated? seen names = some n ↔
    ∃ before after, names = before ++ n :: after ∧ before.Nodup ∧ (∀ m ∈ before, m ∉ seen) ∧ (n ∈ seen ∨ n ∈ before) := by
  induction names generalizing seen with
  | nil => simp [firstRepeated?]
  | cons m ms ih =>
    rw [firstRepeated?]
    by_cases hm : m ∈ seen
    · rw [if_pos hm, Option.some.injEq]
      constructor
      · rintro rfl
        exact ⟨[], ms, rfl, List.nodup_nil, List.forall_mem_nil _, .inl hm⟩
      · rintro ⟨before, after, hnames, -, hfresh, -⟩
        cases before with
        | nil => exact (List.cons.inj hnames).1
        | cons b before =>
          obtain ⟨rfl, -⟩ := List.cons.inj hnames
          exact absurd hm (hfresh m List.mem_cons_self)
    · rw [if_neg hm, ih]
      constructor
      · rintro ⟨before, after, rfl, hnodup, hfresh, hn⟩
        refine ⟨m :: before, after, rfl, List.nodup_cons.2 ⟨?_, hnodup⟩, List.forall_mem_cons.2 ⟨hm, ?_⟩, ?_⟩
        · exact fun hmem => hfresh m hmem List.mem_cons_self
        · exact fun k hk hs => hfresh k hk (List.mem_cons_of_mem _ hs)
        · rw [List.mem_cons] at hn ⊢
          exact or_left_comm.1 (or_assoc.1 hn)
      · rintro ⟨before, after, hnames, hnodup, hfresh, hn⟩
        cases before with
        | nil =>
          obtain ⟨rfl, -⟩ := List.cons.inj hnames
          exact absurd (hn.resolve_right List.not_mem_nil) hm
        | cons b before =>
          obtain ⟨rfl, rfl⟩ := List.cons.inj hnames
          obtain ⟨hb, hnodup⟩ := List.nodup_cons.1 hnodup
          refine ⟨before, after, rfl, hnodup, fun k hk hs => ?_, ?_⟩
          · rcases List.mem_cons.1 hs with rfl | hs
            · exact hb hk
            · exact hfresh k (List.mem_cons_of_mem _ hk) hs
          · rw [List.mem_cons] at hn ⊢
            exact or_assoc.2 (or_left_comm.1 hn)

theorem firstRepeated?_nil_eq_some_iff : firstRepeated? [] names = some n ↔ FirstRepeated names n := by
  rw [firstRepeated?_eq_some_iff]
  simp [FirstRepeated]

theorem firstRepeated?_nil_eq_none_iff : firstRepeated? [] names = none ↔ names.Nodup := by
  refine ⟨fun h => (nodup_of_firstRepeated?_eq_none h).1, fun hnodup => Option.eq_none_iff_forall_ne_some.2 fun n hn => ?_⟩
  obtain ⟨before, after, rfl, -, hmem⟩ := firstRepeated?_nil_eq_some_iff.1 hn
  exact (List.nodup_append.1 hnodup).2.2 n hmem n List.mem_cons_self rfl

/-- The names of one list and then those of another. -/
theorem firstRepeated?_append (ms : List String) : firstRepeated? seen (ms ++ names) =
    (firstRepeated? seen ms).or (firstRepeated? (ms.reverse ++ seen) names) := by
  induction ms generalizing seen with
  | nil => rfl
  | cons m ms ih =>
    rw [List.cons_append, firstRepeated?, firstRepeated?]
    split
    · rfl
    · rw [ih, List.reverse_cons, List.append_assoc]
      rfl

/-! ## Indexes -/

/-- Positions by name. -/
abbrev Index := AList fun _ : String => Nat

namespace Index

/-- Enters names at the positions from `here` on, up to the first one that is taken or has a position already. -/
def fill (taken : String → Bool) : Index → Nat → List String → Except DuplicateName Index
  | index, _, [] => .ok index
  | index, here, n :: ns =>
    if taken n || (index.lookup n).isSome then .error ⟨n⟩ else fill taken (index.insert n here) (here + 1) ns

/-- What stands at the position of a name, with nothing inside if that is behind the end of the table. -/
def fetch? {α : Type} (index : Index) (entries : List α) (name : String) : Option (Option α) :=
  (index.lookup name).map fun i => entries[i]?

/-- The index has the position of each name and no other names. -/
def Lists (index : Index) (names : List String) : Prop := ∀ n i, index.lookup n = some i ↔ names[i]? = some n

variable {index : Index}

theorem lists_empty : Lists ∅ [] := by
  intro n i
  rw [AList.lookup_empty, List.getElem?_nil]
  constructor <;> (intro h; cases h)

theorem Lists.isSome_lookup (h : index.Lists names) : (index.lookup n).isSome = true ↔ n ∈ names := by
  rw [List.mem_iff_getElem?, Option.isSome_iff_exists]
  exact exists_congr (h n)

/-- A new name gets the next position. -/
theorem Lists.insert (h : index.Lists names) (hn : n ∉ names) : Lists (AList.insert n names.length index) (names ++ [n]) := by
  intro m i
  by_cases hm : m = n
  · subst hm
    rw [AList.lookup_insert, Option.some.injEq]
    constructor
    · rintro rfl
      exact List.getElem?_concat_length
    · intro hi
      by_contra hne
      have hlt := (List.getElem?_eq_some_iff.1 hi).1
      rw [List.length_append, List.length_singleton] at hlt
      rw [List.getElem?_append_left (by omega)] at hi
      exact hn (List.mem_of_getElem? hi)
  · rw [AList.lookup_insert_ne hm, h m i]
    by_cases hi : i < names.length
    · rw [List.getElem?_append_left hi]
    · rw [List.getElem?_append_right (Nat.not_lt.1 hi), List.getElem?_eq_none (Nat.not_lt.1 hi), List.getElem?_singleton]
      split
      · exact ⟨nofun, fun hs => absurd (Option.some.inj hs).symm hm⟩
      · rfl

/-- The index is filled in up to the first name that was seen before. -/
theorem Lists.fill {passed : List String} {taken : String → Bool} (h : index.Lists passed)
    (hseen : ∀ n, n ∈ seen ↔ taken n = true ∨ n ∈ passed) :
    (∃ n, firstRepeated? seen names = some n ∧ index.fill taken passed.length names = .error ⟨n⟩) ∨
      (firstRepeated? seen names = none ∧
        ∃ filled, index.fill taken passed.length names = .ok filled ∧ filled.Lists (passed ++ names)) := by
  induction names generalizing index passed seen with
  | nil => exact .inr ⟨rfl, index, rfl, by rwa [List.append_nil]⟩
  | cons n ns ih =>
    have hknown : (taken n || (index.lookup n).isSome) = true ↔ n ∈ seen := by
      rw [Bool.or_eq_true, h.isSome_lookup, hseen]
    rw [firstRepeated?, Index.fill]
    by_cases hn : n ∈ seen
    · rw [if_pos hn, if_pos (hknown.2 hn)]
      exact .inl ⟨n, rfl, rfl⟩
    · rw [if_neg hn, if_neg (hknown.not.2 hn)]
      have hfresh : n ∉ passed := fun hp => hn ((hseen n).2 (.inr hp))
      have hseen' (m : String) : m ∈ n :: seen ↔ taken m = true ∨ m ∈ passed ++ [n] := by
        rw [List.mem_cons, hseen, List.mem_append, List.mem_singleton, or_left_comm, @or_comm (m = n)]
      have hnext := ih (h.insert hfresh) hseen'
      rw [List.length_append, List.length_singleton, List.append_assoc] at hnext
      exact hnext

/-- An index that is filled in from the start. -/
theorem fill_empty {taken : String → Bool} (names : List String) (hseen : ∀ n, n ∈ seen ↔ taken n = true) :
    (∃ n, firstRepeated? seen names = some n ∧ fill taken ∅ 0 names = .error ⟨n⟩) ∨
      (firstRepeated? seen names = none ∧ ∃ filled, fill taken ∅ 0 names = .ok filled ∧ filled.Lists names) := by
  have hseen' (n : String) : n ∈ seen ↔ taken n = true ∨ n ∈ [] := by
    rw [hseen]
    exact (or_iff_left List.not_mem_nil).symm
  exact lists_empty.fill hseen'

/-- The position of a name leads to the entry that is found by going through the table. -/
theorem Lists.fetch?_eq {α : Type} {key : α → String} {entries : List α} (h : index.Lists (entries.map key))
    (hnodup : (entries.map key).Nodup) (name : String) :
    index.fetch? entries name = (entries.find? fun x => key x = name).map some := by
  rw [fetch?]
  cases hi : index.lookup name with
  | none =>
    have hnot : name ∉ entries.map key := by
      rw [← h.isSome_lookup, hi]
      exact Bool.false_ne_true
    have hnone : entries.find? (fun x => key x = name) = none := by
      rw [List.find?_eq_none]
      intro x hx hkey
      exact hnot (List.mem_map.2 ⟨x, hx, of_decide_eq_true hkey⟩)
    rw [hnone]
    rfl
  | some i =>
    have hname := (h name i).1 hi
    rw [List.getElem?_map, Option.map_eq_some_iff] at hname
    obtain ⟨x, hx, hkey⟩ := hname
    rw [(find?_key_eq_some_iff hnodup).2 ⟨List.mem_of_getElem? hx, hkey⟩, Option.map_some, Option.map_some, hx]

end Index

namespace Registry

variable {functions : List NativeFunction} {constants : List Constant} {r : Registry}

/-- A registry whose tables have indexes. -/
structure Indexed where
  functions : List NativeFunction
  functionIndex : Index
  constants : List Constant
  constantIndex : Index

/-- The indexed registry with the given tables, unless a name occurs twice in them. -/
def Indexed.ofTables (functions : List NativeFunction) (constants : List Constant) : Except DuplicateName Indexed :=
  match Index.fill (fun _ => false) ∅ 0 (functions.map NativeFunction.name) with
  | .error e => .error e
  | .ok functionIndex =>
    match Index.fill (fun n => (functionIndex.lookup n).isSome) ∅ 0 (constants.map Constant.name) with
    | .error e => .error e
    | .ok constantIndex => .ok ⟨functions, functionIndex, constants, constantIndex⟩

/-- The indexed registry has the same tables and finds the same entries, none of them behind the end of its table. -/
structure Indexed.FindsLike (i : Indexed) (r : Registry) : Prop where
  functions : i.functions = r.functions
  constants : i.constants = r.constants
  function? : ∀ name, i.functionIndex.fetch? i.functions name = (r.function? name).map some
  constant? : ∀ name, i.constantIndex.fetch? i.constants name = (r.constant? name).map some

/-! ## Tables -/

theorem ofTables_eq_error_iff {e : DuplicateName} : ofTables functions constants = .error e ↔
    firstRepeated? [] (functions.map NativeFunction.name ++ constants.map Constant.name) = some e.name := by
  unfold ofTables
  split
  next n h =>
    rw [h, Except.error.injEq, Option.some.injEq, DuplicateName.mk.injEq]
  next h =>
    refine ⟨nofun, fun hs => ?_⟩
    rw [h] at hs
    cases hs

/-- A registry is what comes of its tables. -/
theorem ofTables_eq_ok_iff : ofTables functions constants = .ok r ↔ r.functions = functions ∧ r.constants = constants := by
  constructor
  · intro h
    unfold ofTables at h
    split at h
    · cases h
    · cases h
      exact ⟨rfl, rfl⟩
  · rintro ⟨rfl, rfl⟩
    have hnone := firstRepeated?_nil_eq_none_iff.2 r.nodup
    unfold ofTables
    split
    next n h =>
      rw [hnone] at h
      cases h
    next => rfl

theorem exists_ofTables_eq_ok_iff : (∃ r, ofTables functions constants = .ok r) ↔
    (functions.map NativeFunction.name ++ constants.map Constant.name).Nodup := by
  constructor
  · rintro ⟨r, hr⟩
    obtain ⟨rfl, rfl⟩ := ofTables_eq_ok_iff.1 hr
    exact r.nodup
  · exact fun hnodup => ⟨⟨functions, constants, hnodup⟩, ofTables_eq_ok_iff.2 ⟨rfl, rfl⟩⟩

/-- With indexes, the tables come to the same error or to a registry that finds the same. -/
theorem indexed_ofTables (functions : List NativeFunction) (constants : List Constant) :
    (∃ e, ofTables functions constants = .error e ∧ Indexed.ofTables functions constants = .error e) ∨
      ∃ r i, ofTables functions constants = .ok r ∧ Indexed.ofTables functions constants = .ok i ∧ i.FindsLike r := by
  have hsplit := @firstRepeated?_append [] (constants.map Constant.name) (functions.map NativeFunction.name)
  rw [List.append_nil] at hsplit
  have hnone (n : String) : n ∈ [] ↔ (fun _ => false) n = true := by simp
  rcases Index.fill_empty (functions.map NativeFunction.name) hnone with
    ⟨n, hrepeated, hfill⟩ | ⟨hrepeated, functionIndex, hfill, hfunctions⟩
  · refine .inl ⟨⟨n⟩, ofTables_eq_error_iff.2 (by rw [hsplit, hrepeated]; rfl), ?_⟩
    rw [Indexed.ofTables, hfill]
  · rw [hrepeated, Option.none_or] at hsplit
    -- For the constants, a name is taken when a function has it.
    have htaken (n : String) : n ∈ (functions.map NativeFunction.name).reverse ↔ (functionIndex.lookup n).isSome = true := by
      rw [hfunctions.isSome_lookup, List.mem_reverse]
    rcases Index.fill_empty (constants.map Constant.name) htaken with
      ⟨n, hrepeated, hfill'⟩ | ⟨hrepeated, constantIndex, hfill', hconstants⟩
    · refine .inl ⟨⟨n⟩, ofTables_eq_error_iff.2 (by rw [hsplit, hrepeated]), ?_⟩
      rw [Indexed.ofTables, hfill]
      simp only [hfill']
    · have hnodup := firstRepeated?_nil_eq_none_iff.1 (hsplit.trans hrepeated)
      obtain ⟨hleft, hright, -⟩ := List.nodup_append.1 hnodup
      refine .inr ⟨⟨functions, constants, hnodup⟩, ⟨functions, functionIndex, constants, constantIndex⟩,
        ofTables_eq_ok_iff.2 ⟨rfl, rfl⟩, ?_, rfl, rfl, hfunctions.fetch?_eq hleft, hconstants.fetch?_eq hright⟩
      rw [Indexed.ofTables, hfill]
      simp only [hfill']

/-- The registry has the entries of two tables, each under its own name. -/
structure Holds (r : Registry) (fs : List NativeFunction) (cs : List Constant) : Prop where
  functions : r.functions = fs
  constants : r.constants = cs
  function? : ∀ name f, r.function? name = some f ↔ f ∈ fs ∧ f.name = name
  constant? : ∀ name c, r.constant? name = some c ↔ c ∈ cs ∧ c.name = name
  /-- No name is both a function's and a constant's. -/
  disjoint : ∀ name, r.function? name = none ∨ r.constant? name = none
  names : r.names = fs.map NativeFunction.name ++ cs.map Constant.name
  once : r.names.Nodup

theorem holds (r : Registry) : r.Holds r.functions r.constants where
  functions := rfl
  constants := rfl
  function? _ _ := function?_eq_some_iff
  constant? _ _ := constant?_eq_some_iff
  disjoint name := by
    cases hf : r.function? name with
    | none => exact .inl rfl
    | some f => exact .inr (constant?_of_function? hf)
  names := rfl
  once := r.nodup

/-- Two tables make a registry just when no name occurs twice in them, and otherwise the first name is reported that
occurs before itself. The registry has the entries of the tables, and so has the one with indexes. -/
theorem ofTables_holds (functions : List NativeFunction) (constants : List Constant) :
    ((∃ r, ofTables functions constants = .ok r) ↔
      (functions.map NativeFunction.name ++ constants.map Constant.name).Nodup) ∧
    (∀ e, ofTables functions constants = .error e ↔
      FirstRepeated (functions.map NativeFunction.name ++ constants.map Constant.name) e.name) ∧
    (∀ r, ofTables functions constants = .ok r → r.Holds functions constants) ∧
    ((∃ e, ofTables functions constants = .error e ∧ Indexed.ofTables functions constants = .error e) ∨
      ∃ r i, ofTables functions constants = .ok r ∧ Indexed.ofTables functions constants = .ok i ∧ i.FindsLike r) := by
  refine ⟨exists_ofTables_eq_ok_iff, fun e => ?_, fun r hr => ?_, indexed_ofTables functions constants⟩
  · rw [ofTables_eq_error_iff, firstRepeated?_nil_eq_some_iff]
  · obtain ⟨rfl, rfl⟩ := ofTables_eq_ok_iff.1 hr
    exact r.holds

/-- A constant that has a function's name, in front of one that is there twice, and the same tables without these two.
-/
theorem ofTables_holds_clash :
    ofTables [⟨"half", [⟨"x", none⟩], fun _ => .error .silent⟩] [⟨"ten", 10⟩, ⟨"half", 0.5⟩, ⟨"ten", 11⟩] =
      .error ⟨"half"⟩ ∧
    ∃ r, ofTables [⟨"half", [⟨"x", none⟩], fun _ => .error .silent⟩] [⟨"ten", 10⟩] = .ok r ∧
      r.Holds [⟨"half", [⟨"x", none⟩], fun _ => .error .silent⟩] [⟨"ten", 10⟩] := by
  obtain ⟨-, hclash, -, -⟩ := ofTables_holds [⟨"half", [⟨"x", none⟩], fun _ => .error .silent⟩]
    [⟨"ten", 10⟩, ⟨"half", 0.5⟩, ⟨"ten", 11⟩]
  obtain ⟨hok, -, hholds, -⟩ := ofTables_holds [⟨"half", [⟨"x", none⟩], fun _ => .error .silent⟩] [⟨"ten", 10⟩]
  refine ⟨(hclash ⟨"half"⟩).2 ⟨["half", "ten"], ["ten"], rfl, by decide, by decide⟩, ?_⟩
  obtain ⟨r, hr⟩ := hok.2 (by decide)
  exact ⟨r, hr, hholds r hr⟩

end Registry

end Reckon
