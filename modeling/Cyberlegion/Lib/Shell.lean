import Mathlib.Data.List.Basic

/-!
# Words of a shell

How a POSIX shell splits a simple command into words: blanks part them, single and
double quotes and backslashes quote. A command in which an unquoted character means
something else (an operator, an expansion, a comment, a second line) has no words here.
-/

namespace Shell

inductive Mode
  | bare | single | double
deriving DecidableEq

/-- The unquoted characters that are more than themselves. -/
def special (c : Char) : Bool := c ∈ "|&;<>()$`*?[]#~=%!{}\n".toList

/-- The words of the rest of a command, `word` being the one that is open. -/
def split : Mode → Option (List Char) → List Char → Option (List (List Char))
  | .bare, word, [] => some word.toList
  | .single, _, [] | .double, _, [] => none
  | .bare, word, '\'' :: s => split .single (some (word.getD [])) s
  | .bare, word, '"' :: s => split .double (some (word.getD [])) s
  | .bare, _, ['\\'] => none
  | .bare, word, '\\' :: c :: s => if c = '\n' then split .bare word s else split .bare (some (word.getD [] ++ [c])) s
  | .bare, word, c :: s =>
    if c = ' ' ∨ c = '\t' then (split .bare none s).map (word.toList ++ ·)
    else if special c then none
    else split .bare (some (word.getD [] ++ [c])) s
  | .single, word, '\'' :: s => split .bare word s
  | .single, word, c :: s => split .single (some (word.getD [] ++ [c])) s
  | .double, word, '"' :: s => split .bare word s
  | .double, _, ['\\'] => none
  | .double, word, '\\' :: c :: s =>
    if c = '\n' then split .double word s
    else if c ∈ ['$', '`', '"', '\\'] then split .double (some (word.getD [] ++ [c])) s
    else split .double (some (word.getD [] ++ ['\\', c])) s
  | .double, word, c :: s => if c = '$' ∨ c = '`' then none else split .double (some (word.getD [] ++ [c])) s

def words (command : List Char) : Option (List (List Char)) := split .bare none command

/-- However a command goes on after the text, the text spells the word. -/
def Spells (text word : List Char) : Prop := ∀ s, split .bare none (text ++ s) = split .bare (some word) s

def plain (c : Char) : Bool := ¬special c ∧ c ∉ [' ', '\t', '\'', '"', '\\']

section
variable {text word s : List Char} {w : Option (List Char)} {c : Char}

theorem split_plain (hc : plain c = true) : split .bare w (c :: s) = split .bare (some (w.getD [] ++ [c])) s := by
  have hplain := of_decide_eq_true hc
  simp only [List.mem_cons, List.not_mem_nil, or_false, not_or] at hplain
  obtain ⟨hspecial, hspace, htab, hquote, hdouble, hslash⟩ := hplain
  rw [split]
  · rw [if_neg (not_or.mpr ⟨hspace, htab⟩), if_neg hspecial]
  all_goals intros; simp_all

theorem spells_plain (hne : text ≠ []) (h : ∀ c ∈ text, plain c = true) : Spells text text := by
  have hopen : ∀ (text : List Char), (∀ c ∈ text, plain c = true) → ∀ front s,
      split .bare (some front) (text ++ s) = split .bare (some (front ++ text)) s := by
    intro text
    induction text with
    | nil =>
      intro _ front s
      rw [List.append_nil, List.nil_append]
    | cons c text ih =>
      intro h front s
      rw [List.cons_append, split_plain (h c List.mem_cons_self), ih fun d hd => h d (List.mem_cons_of_mem c hd)]
      rw [Option.getD_some, List.append_assoc, List.singleton_append]
  obtain ⟨c, rest, rfl⟩ := List.exists_cons_of_ne_nil hne
  intro s
  rw [List.cons_append, split_plain (h c List.mem_cons_self)]
  exact hopen rest (fun d hd => h d (List.mem_cons_of_mem c hd)) [c] s

/-! ## Single quotes -/

/-- A text in single quotes; a single quote in it closes them, stands escaped, and opens them again. -/
def quote (text : List Char) : List Char :=
  '\'' :: text.flatMap (fun c => if c = '\'' then ['\'', '\\', '\'', '\''] else [c]) ++ ['\'']

theorem spells_quote (text : List Char) : Spells (quote text) text := by
  have hinside : ∀ (text front s : List Char), split .single (some front)
      (text.flatMap (fun c => if c = '\'' then ['\'', '\\', '\'', '\''] else [c]) ++ '\'' :: s) =
        split .bare (some (front ++ text)) s := by
    intro text
    induction text with
    | nil =>
      intro front s
      rw [List.append_nil]
      rfl
    | cons c text ih =>
      intro front s
      rw [List.flatMap_cons, List.append_assoc]
      by_cases hc : c = '\''
      · rw [if_pos hc, hc]
        have hstep : ∀ r, split .single (some front) (['\'', '\\', '\'', '\''] ++ r) =
            split .single (some (front ++ ['\''])) r :=
          fun r => rfl
        rw [hstep, ih, List.append_assoc, List.singleton_append]
      · rw [if_neg hc, List.singleton_append, split]
        · rw [Option.getD_some, ih, List.append_assoc, List.singleton_append]
        · exact fun h => hc h
  intro s
  rw [quote, List.append_assoc, List.cons_append]
  exact hinside text [] s

/-! ## Commands -/

/-- Spelled words with blanks between them are split into the words. -/
theorem words_intercalate {texts ws : List (List Char)} (h : List.Forall₂ Spells texts ws) :
    words ([' '].intercalate texts) = some ws := by
  have hspace : ∀ (w s : List Char), split .bare (some w) (' ' :: s) =
      (split .bare none s).map (w :: ·) := fun w s => rfl
  rw [words]
  induction h with
  | nil => rfl
  | @cons text w texts ws htext hrest ih =>
    cases hrest with
    | nil =>
      have hone : [' '].intercalate [text] = text ++ [] := by simp [List.intercalate]
      rw [hone, htext]
      rfl
    | @cons text' w' texts ws htext' hrest =>
      have hmore : [' '].intercalate (text :: text' :: texts) = text ++ ' ' :: [' '].intercalate (text' :: texts) := by
        simp [List.intercalate]
      rw [hmore, htext, hspace, ih]
      rfl

end

end Shell
