import Mathlib.Data.List.TakeWhile
import Reckon.Command.Invocation
/-!
# Options and words

Before a bare `--`, two dashes with a letter behind them begin an option, and every other argument is a word.
`Options.read` goes along the arguments once, and keeps the options that it has read. What comes of it is said of the
arguments as a whole: the first option that is refused, the words in their order, whether `--json` is among them, and
the last colour mode. `ofArguments_separates` puts this together for a command line, where nothing behind the bare
`--` is looked at.
-/

namespace Reckon

namespace Argument

/-! ## Single arguments -/

/-- Two dashes with a letter behind them begin an option. -/
def isOption (s : String) : Bool := "--".toList.isPrefixOf s.toList && (s.toList.drop 2).head?.any Char.isAlpha

/-- The mode that a colour option names. -/
def mode? (s : String) : Option String :=
  if "--color=".toList.isPrefixOf s.toList then some (String.ofList (s.toList.drop 8)) else none

/-- The colour mode that an option sets. -/
def color? (s : String) : Option ColorMode := (mode? s).bind ColorMode.ofName?

/-- Why an option is refused. -/
def refusal? (s : String) : Option UsageError :=
  match mode? s with
  | some mode => if (ColorMode.ofName? mode).isNone then some (.invalidColor mode) else none
  | none => if isOption s && s != "--json" then some (.unknownOption s) else none

variable {s mode : String}

theorem mode?_eq_some_iff : mode? s = some mode ↔ s = "--color=" ++ mode := by
  have hdrop (rest : List Char) : ("--color=".toList ++ rest).drop 8 = rest := rfl
  unfold mode?
  constructor
  · intro h
    split at h
    next hprefix =>
      obtain ⟨rest, hrest⟩ := List.isPrefixOf_iff_prefix.1 hprefix
      rw [← hrest, hdrop, Option.some.injEq] at h
      rw [← String.toList_inj, String.toList_append, ← h, @String.toList_ofList rest]
      exact hrest.symm
    next => cases h
  · rintro rfl
    rw [String.toList_append, if_pos (List.isPrefixOf_iff_prefix.2 (List.prefix_append ..)), hdrop, String.ofList_toList]

theorem isOption_of_mode? (h : mode? s = some mode) : isOption s = true := by
  rw [mode?_eq_some_iff] at h
  subst h
  unfold isOption
  rw [String.toList_append]
  rfl

theorem ofText_eq (h : s ≠ "--") (hjson : s ≠ "--json") :
    ofText s = (mode? s).elim (if isOption s then unknown else word) color := by
  unfold ofText mode?
  rw [if_neg h, if_neg hjson]
  split
  · rfl
  · unfold isOption
    generalize s.toList = cs
    split
    next => rfl
    next hne =>
      have hword : ¬("--".toList.isPrefixOf cs && (cs.drop 2).head?.any Char.isAlpha) = true := by
        intro hoption
        obtain ⟨hdashes, hletter⟩ := Bool.and_eq_true_iff.1 hoption
        obtain ⟨rest, rfl⟩ := List.isPrefixOf_iff_prefix.1 hdashes
        cases rest with
        | nil => cases hletter
        | cons c tail => exact hne _ _ rfl
      rw [if_neg hword]
      rfl

end Argument

/-! ## Runs of arguments -/

namespace Options

open Argument

/-- The options with what one argument sets. -/
def set (options : Options) (arg : String) : Options :=
  ⟨options.json || "--json" == arg, (color? arg).getD options.color⟩

/-- What is read of arguments behind some words. -/
def prepend (words : List String) : Except UsageError (Options × List String) → Except UsageError (Options × List String)
  | .ok (options, more) => .ok (options, words ++ more)
  | .error e => .error e

variable {options : Options} {arg : String} {args front rest : List String} {e : UsageError}

theorem prepend_nil (outcome : Except UsageError (Options × List String)) : prepend [] outcome = outcome := by
  cases outcome <;> rfl

theorem prepend_append (words more : List String) (outcome : Except UsageError (Options × List String)) :
    prepend (words ++ more) outcome = prepend words (prepend more outcome) := by
  cases outcome with
  | error e => rfl
  | ok p => simp only [prepend, List.append_assoc]

theorem read_refused (hne : arg ≠ "--") (h : refusal? arg = some e) : read options (arg :: args) = .error e := by
  have hjson : arg ≠ "--json" := by
    rintro rfl
    have hnone : refusal? "--json" = none := by decide
    rw [hnone] at h
    cases h
  rw [read, ofText_eq hne hjson]
  unfold refusal? at h
  cases hmode : mode? arg with
  | some mode =>
    rw [hmode] at h
    cases hcolor : ColorMode.ofName? mode with
    | some color => simp [hcolor] at h
    | none =>
      simp only [hcolor, Option.isNone_none, if_true, Option.some.injEq] at h
      simp only [Option.elim, hcolor, h]
  | none =>
    rw [hmode] at h
    cases hoption : isOption arg with
    | false => simp [hoption] at h
    | true => simpa [hoption, hjson] using h

/-- An option is set, and a word is kept. -/
theorem read_cons (hne : arg ≠ "--") (h : refusal? arg = none) :
    read options (arg :: args) = prepend ([arg].filter (!isOption ·)) (read (options.set arg) args) := by
  by_cases hjson : arg = "--json"
  · subst hjson
    have hword : ["--json"].filter (!isOption ·) = [] := by decide
    have htext : ofText "--json" = .json := by decide
    have hcolor : color? "--json" = none := by decide
    rw [hword, prepend_nil, set, hcolor, beq_self_eq_true, Bool.or_true]
    simp only [read, htext, Option.getD_none]
  rw [read, ofText_eq hne hjson, set, beq_false_of_ne (Ne.symm hjson), Bool.or_false]
  unfold refusal? at h
  cases hmode : mode? arg with
  | some mode =>
    rw [hmode] at h
    cases hcolor : ColorMode.ofName? mode with
    | none => simp [hcolor] at h
    | some color =>
      rw [List.filter_cons_of_neg (by simp [isOption_of_mode? hmode]), List.filter_nil, prepend_nil]
      simp only [color?, hmode, Option.bind_some, hcolor, Option.getD_some, Option.elim]
  | none =>
    rw [hmode] at h
    cases hoption : isOption arg with
    | true => simp [hoption, hjson] at h
    | false =>
      rw [List.filter_cons_of_pos (by simp [hoption]), List.filter_nil]
      simp only [color?, hmode, Option.bind_none, Option.getD_none, Option.elim, Bool.false_eq_true, if_false]
      cases read options args <;> rfl

/-- Arguments without a bare `--` and without anything to refuse, in front of others. -/
theorem read_append (hne : "--" ∉ front) (h : ∀ a ∈ front, refusal? a = none) :
    read options (front ++ rest) = prepend (front.filter (!isOption ·)) (read (front.foldl set options) rest) := by
  induction front generalizing options with
  | nil => exact (prepend_nil _).symm
  | cons a front ih =>
    rw [List.mem_cons, not_or] at hne
    obtain ⟨ha, hfront⟩ := List.forall_mem_cons.1 h
    have hfilter : (a :: front).filter (!isOption ·) = [a].filter (!isOption ·) ++ front.filter (!isOption ·) :=
      List.filter_append [a] front
    rw [List.cons_append, read_cons (Ne.symm hne.1) ha, ih hne.2 hfront, List.foldl_cons, hfilter, prepend_append]

theorem foldl_set (front : List String) : front.foldl set options =
    ⟨options.json || front.contains "--json", (front.filterMap color?).getLast?.getD options.color⟩ := by
  induction front generalizing options with
  | nil =>
    rw [List.contains_nil, Bool.or_false]
    rfl
  | cons a front ih =>
    rw [List.foldl_cons, ih, set, List.filterMap_cons, List.contains_cons, Bool.or_assoc]
    cases color? a with
    | none => rfl
    | some color =>
      rw [List.getLast?_cons]
      rfl

end Options

namespace Invocation

open Argument

/-! ## Command lines -/

/-- The command of a command line, and the arguments that are left for it. -/
inductive Selects : List String → Command → List String → Prop
  | named {word rest command} : Command.ofWord? word = some command → Selects (word :: rest) command rest
  | implied {args} : (∀ word ∈ args.head?, Command.ofWord? word = none) → Selects args .eval args

/-- Arguments cut at the first bare `--`. -/
inductive CutAtDashes : List String → List String → List String → Prop
  | whole {before} : "--" ∉ before → CutAtDashes before before []
  | cut {before after} : "--" ∉ before → CutAtDashes (before ++ "--" :: after) before after

/-- A command line with its command, the arguments before the first bare `--`, and those behind it. -/
def Parts (args : List String) (command : Command) (before after : List String) : Prop :=
  ∃ rest, Selects args command rest ∧ CutAtDashes rest before after

/-- The text has nothing but white space. -/
def Blank (s : String) : Prop := ∀ c ∈ s.toList, Text.isBlank c = true

/-- What is made of a command with its argument and its options. -/
inductive Decides (isTerminal : Bool) (command : Command) (argument : String) (options : Options) :
    Except UsageError Invocation → Prop
  | missing : command ≠ .functions → Blank argument → Decides isTerminal command argument options (.error .missingArgument)
  | unexpected : command = .functions → argument ≠ "" →
      Decides isTerminal command argument options (.error .unexpectedArgument)
  | invocation : (command ≠ .functions → ¬Blank argument) → (command = .functions → argument = "") →
      Decides isTerminal command argument options (.ok ⟨command, argument, options, isTerminal⟩)

variable {args args' rest before moved after after' : List String} {command : Command} {isTerminal : Bool}

theorem split_of_selects (h : Selects args command rest) : split args = (command, rest) := by
  cases h with
  | named h => rw [split, h]
  | implied h =>
    cases args with
    | nil => rfl
    | cons word rest => rw [split, h word rfl]

theorem exists_parts (args : List String) : ∃ command before after, Parts args command before after := by
  have hselects : ∃ command rest, Selects args command rest := by
    cases args with
    | nil => exact ⟨_, _, .implied nofun⟩
    | cons word rest =>
      cases h : Command.ofWord? word with
      | some command => exact ⟨_, _, .named h⟩
      | none => exact ⟨_, _, .implied (by simpa using h)⟩
  obtain ⟨command, rest, hrest⟩ := hselects
  by_cases h : "--" ∈ rest
  · obtain ⟨before, after, rfl, hbefore⟩ := List.eq_append_cons_of_mem h
    exact ⟨command, before, after, _, hrest, .cut hbefore⟩
  · exact ⟨command, rest, [], rest, hrest, .whole h⟩

/-- The first argument that is refused decides. -/
theorem read_of_refused (h : CutAtDashes rest before after) {e : UsageError} (he : before.findSome? refusal? = some e)
    (options : Options) : options.read rest = .error e := by
  obtain ⟨valid, bad, more, rfl, hbad, hvalid⟩ := List.findSome?_eq_some_iff.1 he
  have key {tail : List String} (hne : "--" ∉ valid ++ bad :: more) :
      options.read (valid ++ bad :: tail) = .error e := by
    rw [List.mem_append, List.mem_cons, not_or, not_or] at hne
    rw [Options.read_append hne.1 hvalid, Options.read_refused (Ne.symm hne.2.1) hbad]
    rfl
  cases h with
  | whole hne => exact key hne
  | cut hne =>
    rw [List.append_assoc]
    exact key hne

/-- Where nothing is refused, the words and what is behind the dashes are left. -/
theorem read_of_valid (h : CutAtDashes rest before after) (hvalid : before.findSome? refusal? = none) (options : Options) :
    options.read rest = .ok (before.foldl Options.set options, before.filter (!isOption ·) ++ after) := by
  rw [List.findSome?_eq_none_iff] at hvalid
  cases h with
  | whole hne =>
    have hread := @Options.read_append options rest [] hne hvalid
    rwa [List.append_nil] at hread
  | cut hne =>
    rw [Options.read_append hne hvalid]
    rfl

theorem isEmpty_trimmed_iff {s : String} : (Text.trimmed s).isEmpty = true ↔ Blank s := by
  rw [String.isEmpty_iff, Text.trimmed, String.ofList_eq_empty_iff, List.reverse_eq_nil_iff, List.dropWhile_eq_nil_iff]
  constructor
  · intro h
    by_contra hnot
    have hne : s.toList.dropWhile Text.isBlank ≠ [] := fun hnil => hnot (List.dropWhile_eq_nil_iff.1 hnil)
    have hhead := List.head_dropWhile_not Text.isBlank hne
    rw [h _ (List.mem_reverse.2 (List.head_mem hne))] at hhead
    cases hhead
  · intro h c hc
    exact h c ((List.dropWhile_sublist _).mem (List.mem_reverse.1 hc))

theorem ofArguments_refused (h : Parts args command before after) {e : UsageError}
    (he : before.findSome? refusal? = some e) : ofArguments args isTerminal = .error e := by
  obtain ⟨rest, hrest, hcut⟩ := h
  unfold ofArguments
  simp only [split_of_selects hrest, read_of_refused hcut he]

theorem ofArguments_decides (h : Parts args command before after) (hvalid : before.findSome? refusal? = none) :
    Decides isTerminal command (" ".intercalate (before.filter (!isOption ·) ++ after))
      ⟨before.contains "--json", (before.filterMap color?).getLast?.getD .auto⟩ (ofArguments args isTerminal) := by
  obtain ⟨rest, hrest, hcut⟩ := h
  have htakes : command.takesArgument = true ↔ command ≠ .functions := by cases command <;> decide
  unfold ofArguments
  simp only [split_of_selects hrest, read_of_valid hcut hvalid, Options.foldl_set, Options.standard, Bool.false_or]
  split
  next hc =>
    rw [htakes] at hc
    split
    next hblank => exact .missing hc (isEmpty_trimmed_iff.1 hblank)
    next hblank => exact .invocation (fun _ hb => hblank (isEmpty_trimmed_iff.2 hb)) (fun hf => absurd hf hc)
  next hc =>
    rw [htakes, not_not] at hc
    split
    next hempty => exact .invocation (fun hne => absurd hc hne) (fun _ => String.isEmpty_iff.1 hempty)
    next hempty => exact .unexpected hc (fun h => hempty (String.isEmpty_iff.2 h))

theorem Decides.unique {argument : String} {options : Options} {outcome outcome' : Except UsageError Invocation}
    (h : Decides isTerminal command argument options outcome) (h' : Decides isTerminal command argument options outcome') :
    outcome = outcome' := by
  cases h with
  | missing hne hblank =>
    cases h' with
    | missing => rfl
    | unexpected he => exact absurd he hne
    | invocation hnot => exact absurd hblank (hnot hne)
  | unexpected he hne =>
    cases h' with
    | missing hnot => exact absurd he hnot
    | unexpected => rfl
    | invocation _ hempty => exact absurd (hempty he) hne
  | invocation hnot hempty =>
    cases h' with
    | missing hne hblank => exact absurd hblank (hnot hne)
    | unexpected he hne => exact absurd (hempty he) hne
    | invocation => rfl

/-! ## Arguments in another order -/

/-- The arguments have been put into another order, but for the words and for the colour options. -/
structure Moved (before moved : List String) : Prop where
  perm : moved.Perm before
  words : moved.filter (!isOption ·) = before.filter (!isOption ·)
  colors : moved.filter (mode? · |>.isSome) = before.filter (mode? · |>.isSome)

theorem filterMap_color? (args : List String) :
    args.filterMap color? = (args.filter (mode? · |>.isSome)).filterMap color? := by
  rw [List.filterMap_filter]
  congr 1
  funext arg
  cases h : mode? arg <;> simp [color?, h]

theorem Moved.refused (h : Moved before moved) : moved.findSome? refusal? = none ↔ before.findSome? refusal? = none := by
  simp only [List.findSome?_eq_none_iff, h.perm.mem_iff]

/-- Where nothing is refused, only the words and the colour options have an order. -/
theorem Moved.ofArguments_eq (h : Moved before moved) (hparts : Parts args command before after)
    (hparts' : Parts args' command moved after) (hvalid : before.findSome? refusal? = none) :
    ofArguments args' isTerminal = ofArguments args isTerminal := by
  have hdecides := @ofArguments_decides _ _ _ _ isTerminal hparts' (h.refused.2 hvalid)
  rw [h.words, filterMap_color?, h.colors, ← filterMap_color?, h.perm.contains_eq] at hdecides
  exact hdecides.unique (ofArguments_decides hparts hvalid)

/-- Of the options that are refused, the first one decides. -/
theorem Moved.ofArguments_eq_iff (h : Moved before moved) (hparts : Parts args command before after)
    (hparts' : Parts args' command moved after) : ofArguments args' isTerminal = ofArguments args isTerminal ↔
      moved.findSome? refusal? = before.findSome? refusal? := by
  cases hbefore : before.findSome? refusal? with
  | none => exact iff_of_true (h.ofArguments_eq hparts hparts' hbefore) (h.refused.2 hbefore)
  | some e =>
    cases hmoved : moved.findSome? refusal? with
    | none =>
      rw [h.refused.1 hmoved] at hbefore
      cases hbefore
    | some e' =>
      rw [ofArguments_refused hparts hbefore, ofArguments_refused hparts' hmoved, Except.error.injEq, Option.some.injEq]

/-- What a command line asks for, by its command, the arguments before the first bare `--`, and those behind it. -/
structure Separates (args : List String) (isTerminal : Bool) (command : Command) (before after : List String) : Prop where
  refused : ∀ e, before.findSome? refusal? = some e → ofArguments args isTerminal = .error e
  decides : before.findSome? refusal? = none →
    Decides isTerminal command (" ".intercalate (before.filter (!isOption ·) ++ after))
      ⟨before.contains "--json", (before.filterMap color?).getLast?.getD .auto⟩ (ofArguments args isTerminal)
  /-- With the same command, moving options among the words and past each other changes nothing, unless it changes
  which of them is the first to be refused. -/
  moved : ∀ args' moved, Parts args' command moved after → Moved before moved →
    (ofArguments args' isTerminal = ofArguments args isTerminal ↔ moved.findSome? refusal? = before.findSome? refusal?)
  /-- What is behind the dashes only makes up the argument. -/
  verbatim : ∀ args' after', Parts args' command before after' → ∀ i i', ofArguments args isTerminal = .ok i →
    ofArguments args' isTerminal = .ok i' → i'.command = i.command ∧ i'.options = i.options

theorem command_of_ofArguments (h : Parts args command before after) {i : Invocation}
    (hi : ofArguments args isTerminal = .ok i) : i.command = command ∧
      i.options = ⟨before.contains "--json", (before.filterMap color?).getLast?.getD .auto⟩ := by
  cases hbefore : before.findSome? refusal? with
  | some e =>
    rw [ofArguments_refused h hbefore] at hi
    cases hi
  | none =>
    have hdecides := @ofArguments_decides _ _ _ _ isTerminal h hbefore
    rw [hi] at hdecides
    cases hdecides with
    | invocation => exact ⟨rfl, rfl⟩

end Invocation

end Reckon
