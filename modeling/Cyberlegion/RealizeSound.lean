import Cyberlegion.Realize
import Cyberlegion.Lib.Shell
import Cyberlegion.Lib.Toml

/-!
# What a launch command carries

A shell splits the command into the harness's binary and its arguments, with the texts of the
definition as they are. Under codex two of them are TOML assignments: the instructions
read back, the effort where none of its characters needs an escape.
-/

namespace Cyberlegion.Definition

open Shell

/-! ## The words of a command -/

/-- What a word of the command is to be: a text, or the assignment of one to a key. -/
inductive Intent
  | word (text : String)
  | override (key value : String)

def Intent.Met : Intent → Line → Prop
  | .word text, w => w = text.toList
  | .override key value, w => Toml.assignment w = some (key.toList, value.toList)

def flag (name : String) (value : Option String) : List Intent :=
  match given value with
  | some value => [.word name, .word value]
  | none => []

def config (key : String) (value : Option String) : List Intent :=
  match given value with
  | some value => [.word "-c", .override key value]
  | none => []

def intents (harness : Harness) (model effort instructions : Option String) : List Intent :=
  .word (binary harness) :: flag "--model" model ++
    match harness with
    | .claude => flag "--effort" effort ++ flag "--append-system-prompt" instructions
    | .codex => config "model_reasoning_effort" effort ++ config "developer_instructions" instructions
    | .cursor => []

section
variable (d : AgentDef) (opts : RealizeLaunchOptions)

def askedHarness : Harness := (opts.harness.or d.harness).getD .claude

def askedModel : Option String := opts.model.or d.model

def askedEffort : Option String := opts.effort.or d.effort

/-- The command launches the harness with what the definition and its overrides ask for. -/
structure Carries : Prop where
  harness : (realizeLaunch d opts).harness = askedHarness d opts
  command : ∃ words, Shell.words (realizeLaunch d opts).command.toList = some words ∧ List.Forall₂ Intent.Met
    (intents (askedHarness d opts) (realizeLaunch d opts).model (askedEffort d opts) (some d.instructions)) words
  /-- The model is the one asked for; cursor may launch the listed id that carries the effort. -/
  model : (realizeLaunch d opts).model = askedModel d opts ∨ askedHarness d opts = .cursor ∧
    ∃ m e, given (askedModel d opts) = some m ∧ given (askedEffort d opts) = some e ∧
      (realizeLaunch d opts).model = some (m ++ ("-" ++ e)) ∧ m ++ ("-" ++ e) ∈ opts.listCursorModels
  /-- An effort that the command does not carry is reported. -/
  effort : ∀ e, given (askedEffort d opts) = some e → (realizeLaunch d opts).effortNotApplied = some e ∨
    (realizeLaunch d opts).effort = some e ∧ (askedHarness d opts = .cursor →
      ∃ m ∈ opts.listCursorModels, (realizeLaunch d opts).model = some m ∧ m.endsWith ("-" ++ e))
  /-- So are instructions. -/
  instructions : askedHarness d opts = .cursor → (realizeLaunch d opts).briefInstructions = given (some d.instructions)

end

section
variable {c : Char} {s text : String} {value model effort : Option String} {harness : Harness}

theorem shellQuote_toList : (shellQuote text).toList = quote text.toList := by
  have hchar : ∀ c : Char, (if c = '\'' then "'\\''" else c.toString).toList =
      if c = '\'' then ['\'', '\\', '\'', '\''] else [c] := by
    intro c
    by_cases hc : c = '\''
    · rw [if_pos hc, if_pos hc]
      rfl
    · rw [if_neg hc, if_neg hc]
      exact String.toList_singleton c
  rw [shellQuote, String.toList_append, String.toList_append, String.toList_join, List.flatMap_map, quote]
  simp only [hchar]
  rfl

theorem spells_shellQuote : Spells (shellQuote text).toList text.toList := by
  rw [shellQuote_toList]
  exact spells_quote text.toList

theorem spells_self (h : text.toList ≠ [] ∧ text.toList.all Shell.plain = true) : Spells text.toList text.toList :=
  spells_plain h.1 (List.all_eq_true.mp h.2)

/-! ## TOML -/

theorem hexNumber_control : ∀ n < 32,
    Toml.hexNumber ['0', '0', Nat.digitChar (n / 16), Nat.digitChar (n % 16)] = some n ∧
      ['\\', 'u', '0', '0', Nat.digitChar (n / 16), Nat.digitChar (n % 16)].flatMap escapeDelete =
        ['\\', 'u', '0', '0', Nat.digitChar (n / 16), Nat.digitChar (n % 16)] := by
  decide

theorem toNat_inj {c d : Char} (h : c.toNat = d.toNat) : c = d := Char.ext (UInt32.toNat_inj.mp h)

theorem jsonEscape_body (c : Char) (s : Line) :
    Toml.body ((jsonEscape c).flatMap escapeDelete ++ s) = (Toml.body s).map (c :: ·) := by
  by_cases hnamed : c ∈ ['"', '\\', '\x08', '\t', '\n', '\x0c', '\r']
  · simp only [List.mem_cons, List.not_mem_nil, or_false] at hnamed
    rcases hnamed with rfl | rfl | rfl | rfl | rfl | rfl | rfl <;> rfl
  · simp only [List.mem_cons, List.not_mem_nil, or_false, not_or] at hnamed
    obtain ⟨hquote, hslash, hb, ht, hn, hf, hr⟩ := hnamed
    rw [jsonEscape, if_neg hquote, if_neg hslash, if_neg hb, if_neg ht, if_neg hn, if_neg hf, if_neg hr]
    by_cases hcontrol : c.toNat < 32
    · obtain ⟨hnumber, hescape⟩ := hexNumber_control c.toNat hcontrol
      rw [if_pos hcontrol, hescape]
      have hvalid : c.toNat.isValidChar := .inl (by omega)
      have hread := Toml.body_unicode (s := s) hnumber hvalid
      rw [Char.ofNat_toNat] at hread
      exact hread
    · rw [if_neg hcontrol]
      by_cases hdel : c = '\x7f'
      · subst hdel
        exact Toml.body_unicode (by decide) (.inl (by decide))
      · have hescape : [c].flatMap escapeDelete = [c] := by
          rw [List.flatMap_singleton, escapeDelete, if_neg hdel]
        have hplain : Toml.plain c = true := by
          refine decide_eq_true ⟨hquote, hslash, fun h => ?_⟩
          rcases of_decide_eq_true h with h | h
          · exact hcontrol h.1
          · exact hdel (toNat_inj h)
        rw [hescape]
        exact Toml.body_plain hplain

theorem tomlBasicString_reads : Toml.basicString (tomlBasicString text).toList = some text.toList := by
  have hbody : ∀ text : Line, Toml.body ((text.flatMap jsonEscape).flatMap escapeDelete ++ ['"']) = some text := by
    intro text
    induction text with
    | nil => rfl
    | cons c text ih =>
      rw [List.flatMap_cons, List.flatMap_append, List.append_assoc, jsonEscape_body, ih]
      rfl
  have hquotes : (tomlBasicString text).toList =
      '"' :: ((text.toList.flatMap jsonEscape).flatMap escapeDelete ++ ['"']) := by
    rw [tomlBasicString, String.toList_ofList, jsonString, String.toList_ofList, List.cons_append, List.flatMap_cons,
      List.flatMap_append]
    rfl
  rw [hquotes]
  exact hbody text.toList

/-! ## The words -/

def flagWords (name : String) (value : Option String) : List Line :=
  match given value with
  | some value => [name.toList, value.toList]
  | none => []

/-- The words of a text that is put after `key=`. -/
def configWords (key : String) (write : String → String) (value : Option String) : List Line :=
  match given value with
  | some value => ["-c".toList, (key ++ "=" ++ write value).toList]
  | none => []

def quoteEffort (effort : String) : String := "\"" ++ effort ++ "\""

def launchWords (harness : Harness) (model effort instructions : Option String) : List Line :=
  (binary harness).toList :: flagWords "--model" model ++
    match harness with
    | .claude => flagWords "--effort" effort ++ flagWords "--append-system-prompt" instructions
    | .codex => configWords "model_reasoning_effort" quoteEffort effort ++
        configWords "developer_instructions" tomlBasicString instructions
    | .cursor => []

theorem spells_flag {name : String} {v : String} (hname : name.toList ≠ [] ∧ name.toList.all Shell.plain = true) :
    List.Forall₂ Spells ([name, shellQuote v].map String.toList) [name.toList, v.toList] :=
  .cons (spells_self hname) (.cons spells_shellQuote .nil)

theorem words_command {instructions : String} :
    Shell.words (" ".intercalate ([binary harness] ++ modelAndEffortArgs harness model effort ++
      instructionArgs harness instructions)).toList = some (launchWords harness model effort (some instructions)) := by
  have hbinary : Spells (binary harness).toList (binary harness).toList := by
    cases harness <;> exact spells_self (by decide)
  have hmodel : List.Forall₂ Spells ((match given model with
      | some model => ["--model", shellQuote model]
      | none => []).map String.toList) (flagWords "--model" model) := by
    unfold flagWords
    cases given model with
    | none => exact .nil
    | some model => exact spells_flag (by decide)
  have heffort : List.Forall₂ Spells ((modelAndEffortArgs harness model effort).map String.toList)
      (flagWords "--model" model ++ match harness with
        | .claude => flagWords "--effort" effort
        | .codex => configWords "model_reasoning_effort" quoteEffort effort
        | .cursor => []) := by
    unfold modelAndEffortArgs
    cases harness with
    | claude =>
      unfold flagWords at hmodel ⊢
      cases given effort with
      | none => exact (List.append_nil _).symm ▸ hmodel
      | some effort =>
        rw [List.map_append]
        exact List.rel_append hmodel (spells_flag (by decide))
    | codex =>
      unfold configWords
      cases given effort with
      | none => exact (List.append_nil _).symm ▸ hmodel
      | some effort =>
        rw [List.map_append]
        refine List.rel_append hmodel ?_
        have hwritten : "model_reasoning_effort=\"" ++ effort ++ "\"" = "model_reasoning_effort" ++ "=" ++
            quoteEffort effort := by
          rw [quoteEffort, ← String.append_assoc, ← String.append_assoc]
          rfl
        rw [hwritten]
        exact spells_flag (by decide)
    | cursor =>
      cases given effort with
      | none => exact (List.append_nil _).symm ▸ hmodel
      | some effort => exact (List.append_nil _).symm ▸ hmodel
  have hinstructions : List.Forall₂ Spells ((instructionArgs harness instructions).map String.toList)
      (match harness with
      | .claude => flagWords "--append-system-prompt" (some instructions)
      | .codex => configWords "developer_instructions" tomlBasicString (some instructions)
      | .cursor => []) := by
    unfold instructionArgs
    cases harness with
    | claude =>
      unfold flagWords
      cases given (some instructions) with
      | none => exact .nil
      | some instructions => exact spells_flag (by decide)
    | codex =>
      unfold configWords
      cases given (some instructions) with
      | none => exact .nil
      | some instructions => exact spells_flag (by decide)
    | cursor => cases given (some instructions) <;> exact .nil
  rw [String.toList_intercalate]
  apply words_intercalate
  rw [List.map_append, List.map_append]
  have hall := List.rel_append (List.rel_append (.cons hbinary .nil) heffort) hinstructions
  cases harness <;> simpa [launchWords] using hall

theorem met_flag {name : String} : List.Forall₂ Intent.Met (flag name value) (flagWords name value) := by
  unfold flag flagWords
  cases given value with
  | none => exact .nil
  | some value => exact .cons rfl (.cons rfl .nil)

theorem assignment_config {key : String} (hkey : key.toList ≠ [] ∧ key.toList.all Toml.bareKey = true)
    {written : String} :
    Toml.assignment (key ++ "=" ++ written).toList = (Toml.basicString written.toList).map (key.toList, ·) := by
  have hlist : (key ++ "=" ++ written).toList = key.toList ++ '=' :: written.toList := by
    rw [String.toList_append, String.toList_append, List.append_assoc]
    rfl
  rw [hlist]
  exact Toml.assignment_append hkey.1 (List.all_eq_true.mp hkey.2)

theorem effort_met_iff {effort : String} :
    Intent.Met (.override "model_reasoning_effort" effort)
    ("model_reasoning_effort" ++ "=" ++ quoteEffort effort).toList ↔
      ∀ c ∈ effort.toList, Toml.plain c = true := by
  have hread : Toml.basicString (quoteEffort effort).toList = Toml.body (effort.toList ++ ['"']) := by
    rw [quoteEffort, String.toList_append, String.toList_append, List.append_assoc]
    rfl
  rw [Intent.Met, assignment_config (by decide), hread, ← Toml.body_self_iff]
  constructor
  · intro h
    obtain ⟨read, hbody, hpair⟩ := Option.map_eq_some_iff.mp h
    rw [hbody]
    exact congrArg some (Prod.mk.inj hpair).2
  · intro h
    rw [h]
    rfl

theorem met_iff {instructions : Option String} :
    List.Forall₂ Intent.Met (intents harness model effort instructions)
    (launchWords harness model effort instructions) ↔
      (harness = .codex → ∀ e, given effort = some e → ∀ c ∈ e.toList, Toml.plain c = true) := by
  have hfront : List.Forall₂ Intent.Met (.word (binary harness) :: flag "--model" model)
      ((binary harness).toList :: flagWords "--model" model) := .cons rfl met_flag
  have hlength : (Intent.word (binary harness) :: flag "--model" model).length =
      ((binary harness).toList :: flagWords "--model" model).length := hfront.length_eq
  cases harness with
  | claude => exact ⟨fun _ h => (by cases h), fun _ => List.rel_append hfront (List.rel_append met_flag met_flag)⟩
  | cursor => exact ⟨fun _ h => (by cases h), fun _ => List.rel_append hfront .nil⟩
  | codex =>
    have hinstructions : List.Forall₂ Intent.Met (config "developer_instructions" instructions)
        (configWords "developer_instructions" tomlBasicString instructions) := by
      unfold config configWords
      cases given instructions with
      | none => exact .nil
      | some text =>
        refine .cons rfl (.cons ?_ .nil)
        rw [Intent.Met, assignment_config (by decide), tomlBasicString_reads]
        rfl
    have heffort : List.Forall₂ Intent.Met (config "model_reasoning_effort" effort)
        (configWords "model_reasoning_effort" quoteEffort effort) ↔
          ∀ e, given effort = some e → ∀ c ∈ e.toList, Toml.plain c = true := by
      unfold config configWords
      cases given effort with
      | none => exact ⟨fun _ e he => (by cases he), fun _ => .nil⟩
      | some e =>
        constructor
        · intro h e' he'
          cases he'
          cases h with
          | cons _ hrest =>
            cases hrest with
            | cons hmet _ => exact effort_met_iff.mp hmet
        · exact fun h => .cons rfl (.cons (effort_met_iff.mpr (h e rfl)) .nil)
    constructor
    · intro h _
      have hsplit : List.Forall₂ Intent.Met
          ((Intent.word (binary .codex) :: flag "--model" model) ++
            (config "model_reasoning_effort" effort ++ config "developer_instructions" instructions))
          (((binary .codex).toList :: flagWords "--model" model) ++
            (configWords "model_reasoning_effort" quoteEffort effort ++
              configWords "developer_instructions" tomlBasicString instructions)) := h
      have hback := List.forall₂_drop (Intent.word (binary .codex) :: flag "--model" model).length hsplit
      rw [List.drop_left, hlength, List.drop_left] at hback
      have heffortLength : (config "model_reasoning_effort" effort).length =
          (configWords "model_reasoning_effort" quoteEffort effort).length := by
        unfold config configWords
        cases given effort <;> rfl
      have htake := List.forall₂_take (config "model_reasoning_effort" effort).length hback
      rw [List.take_left, heffortLength, List.take_left] at htake
      exact heffort.mp htake
    · intro h
      exact List.rel_append hfront (List.rel_append (heffort.mpr (h rfl)) hinstructions)

end

/-! ## The launch -/

section
variable {d : AgentDef} {opts : RealizeLaunchOptions}

/-- Cursor launches the model that is asked for, or the listed id that carries the effort; an effort
that it does not carry is told. -/
theorem cursorModel_spec (model effort : Option String) (listed : List String) :
    ((cursorModel model effort listed).model = model ∨ ∃ m e, given model = some m ∧ given effort = some e ∧
      (cursorModel model effort listed).model = some (m ++ ("-" ++ e)) ∧ m ++ ("-" ++ e) ∈ listed) ∧
    ∀ e, given effort = some e → (cursorModel model effort listed).effortApplied = true →
      ∃ m ∈ listed, (cursorModel model effort listed).model = some m ∧ m.endsWith ("-" ++ e) := by
  have hgiven : ∀ {o : Option String} {v}, given o = some v → o = some v := fun h => (Option.filter_eq_some_iff.mp h).1
  unfold cursorModel
  cases hm : given model with
  | none =>
    refine ⟨.inl rfl, fun e he happlied => ?_⟩
    rw [he] at happlied
    cases happlied
  | some m =>
    cases he : given effort with
    | none => exact ⟨.inl rfl, fun e h => by cases h⟩
    | some e =>
      dsimp only
      split
      · next hcarries =>
        refine ⟨.inl (hgiven hm).symm, fun e' he' _ => ?_⟩
        cases he'
        exact ⟨m, hcarries.2, rfl, hcarries.1⟩
      · split
        · next hflat =>
          refine ⟨.inr ⟨m, e, rfl, rfl, rfl, hflat⟩, fun e' he' _ => ?_⟩
          cases he'
          refine ⟨_, hflat, rfl, ?_⟩
          have hlist : (m ++ ("-" ++ e)).toList = m.toList ++ ("-" ++ e).toList := String.toList_append
          rw [← String.endsWith_toSlice, String.Slice.endsWith_string_iff, String.copy_toSlice, hlist]
          exact List.suffix_append _ _
        · exact ⟨.inl (hgiven hm).symm, fun e' _ h => by cases h⟩

theorem realizeLaunch_words :
    Shell.words (realizeLaunch d opts).command.toList = some (launchWords (askedHarness d opts)
    (realizeLaunch d opts).model (askedEffort d opts) (some d.instructions)) := words_command

theorem realizeLaunch_cursor (h : askedHarness d opts = .cursor) :
    (realizeLaunch d opts).model = (cursorModel (askedModel d opts) (askedEffort d opts) opts.listCursorModels).model ∧
    (realizeLaunch d opts).effortNotApplied =
      (if (cursorModel (askedModel d opts) (askedEffort d opts) opts.listCursorModels).effortApplied then none
        else given (askedEffort d opts)) := by
  have hharness : (opts.harness.or d.harness).getD .claude = .cursor := h
  simp only [realizeLaunch, hharness, if_true, Option.any_some]
  refine ⟨rfl, ?_⟩
  show (if (¬(cursorModel (askedModel d opts) (askedEffort d opts) opts.listCursorModels).effortApplied =
      true : Bool) = true
    then given (askedEffort d opts) else none) = _
  cases (cursorModel (askedModel d opts) (askedEffort d opts) opts.listCursorModels).effortApplied <;> rfl

theorem realizeLaunch_other (h : askedHarness d opts ≠ .cursor) : (realizeLaunch d opts).model = askedModel d opts ∧
    (realizeLaunch d opts).effortNotApplied = none := by
  have hharness : ¬(opts.harness.or d.harness).getD .claude = .cursor := h
  simp only [realizeLaunch, if_neg hharness]
  exact ⟨rfl, rfl⟩

theorem realizeLaunch_effort (h : (realizeLaunch d opts).effortNotApplied = none) :
    (realizeLaunch d opts).effort = askedEffort d opts := by
  have hnone : ((realizeLaunch d opts).effortNotApplied.isSome) = false := by rw [h]; rfl
  exact if_neg (by rw [← Bool.not_eq_true] at hnone; exact hnone)

theorem launch_carries_iff (d : AgentDef) (opts : RealizeLaunchOptions) : Carries d opts ↔
    (askedHarness d opts = .codex → ∀ e, given (askedEffort d opts) = some e → ∀ c ∈ e.toList,
      Toml.plain c = true) := by
  constructor
  · intro h
    obtain ⟨words, hwords, hmet⟩ := h.command
    rw [realizeLaunch_words] at hwords
    cases hwords
    exact met_iff.mp hmet
  · intro hplain
    have hgiven : ∀ {o : Option String} {v}, given o = some v → o = some v :=
      fun h => (Option.filter_eq_some_iff.mp h).1
    obtain ⟨hmodel, heffort⟩ := cursorModel_spec (askedModel d opts) (askedEffort d opts) opts.listCursorModels
    refine ⟨rfl, ⟨_, realizeLaunch_words, met_iff.mpr hplain⟩, ?_, fun e he => ?_, fun hcursor => if_pos hcursor⟩
    · by_cases hcursor : askedHarness d opts = .cursor
      · rw [(realizeLaunch_cursor hcursor).1]
        exact hmodel.imp id fun h => ⟨hcursor, h⟩
      · exact .inl (realizeLaunch_other hcursor).1
    · by_cases hcursor : askedHarness d opts = .cursor
      · obtain ⟨hlaunched, hnotApplied⟩ := realizeLaunch_cursor hcursor
        cases happlied : (cursorModel (askedModel d opts) (askedEffort d opts) opts.listCursorModels).effortApplied with
        | false =>
          rw [happlied] at hnotApplied
          exact .inl (hnotApplied.trans he)
        | true =>
          rw [happlied] at hnotApplied
          refine .inr ⟨(realizeLaunch_effort hnotApplied).trans (hgiven he), fun _ => ?_⟩
          rw [hlaunched]
          exact heffort e he happlied
      · obtain ⟨-, hnone⟩ := realizeLaunch_other hcursor
        exact .inr ⟨(realizeLaunch_effort hnone).trans (hgiven he), fun h => absurd h hcursor⟩

theorem launch_carries_quotes : Carries
    { name := "a", instructions := "don't \\ \"stop\"\nnow", path := "/a.md", effort := some "low" }
    { harness := some .codex, effort := some "high" } := by
  refine (launch_carries_iff _ _).mpr fun _ e he => ?_
  cases he
  exact List.all_eq_true.mp (by decide)

/-- An effort with quotes in it, under codex. -/
theorem launch_misspells_effort : ¬Carries { name := "a", instructions := "", path := "/a.md" }
    { harness := some .codex, effort := some "very \"high\"" } := by
  intro h
  obtain ⟨words, hwords, hmet⟩ := h.command
  rw [realizeLaunch_words] at hwords
  cases hwords
  have hquote := met_iff.mp hmet rfl "very \"high\"" rfl '"' (by decide)
  revert hquote
  decide

end

end Cyberlegion.Definition
