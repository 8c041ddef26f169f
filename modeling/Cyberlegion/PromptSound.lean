import Cyberlegion.Prompt
import Cyberlegion.Lib.Text

/-!
# What the reader makes of a draft

A draft is laid out in the box of its shape, one row for each line. The reader stops at
the first blank row under the box's first row, so it reads the box it should exactly
where every line after the first has something on it.
-/

namespace Cyberlegion

namespace Console

/-! ## Rows of a text -/

section
variable {row : Row}

theorem mem_trimEnd {c : Char} (hc : c ∈ trimEnd row) : c ∈ row := (List.rdropWhile_prefix jsSpace row).subset hc

end

/-! ## The scan -/

section
variable {shape : PromptShape} {rows : List Row} {pos n : Nat} {state : PromptState}

theorem scan_cases : shape.scan rows n = .unknown ∨ ∃ pos < n, shape.readAt rows pos = some (shape.scan rows n) := by
  induction n with
  | zero => exact .inl rfl
  | succ n ih =>
    rw [PromptShape.scan]
    cases hread : shape.readAt rows n with
    | some state => exact .inr ⟨n, Nat.lt_succ_self n, hread⟩
    | none =>
      rcases ih with ih | ⟨pos, hpos, ih⟩
      · exact .inl ih
      · exact .inr ⟨pos, Nat.lt_succ_of_lt hpos, ih⟩

theorem readAt_cases (hread : shape.readAt rows pos = some state) :
    ∃ (first : Row) (more : List Row), shape.head (rows.getD pos []) = some first ∧
      (∀ row ∈ more, row ∈ rows ∧ shape.continues row = true) ∧
      state = shape.state (trimEnd first :: more.map fun row => trimEnd (row.drop shape.indent.length)) := by
  rw [PromptShape.readAt] at hread
  cases hhead : shape.head (rows.getD pos []) with
  | none => rw [hhead] at hread; cases hread
  | some first =>
    refine ⟨first, (rows.drop (pos + 1)).takeWhile shape.continues, rfl, fun row hrow => ?_, ?_⟩
    · exact ⟨List.mem_of_mem_drop ((List.takeWhile_prefix _).subset hrow), List.mem_takeWhile_imp hrow⟩
    · rw [hhead] at hread
      simp only at hread
      split at hread
      · cases hread
      · split at hread
        · exact (Option.some.inj hread).symm
        · cases hread

end

/-! ## The shapes -/

section
variable {h : Harness} {row : Row}

theorem head_clean {shape : PromptShape} {typed : Row} (hhead : shape.head row = some typed) :
    ∀ c ∈ typed, lineTerminator c = false := by
  intro c hc
  rw [PromptShape.head] at hhead
  split at hhead
  · cases hhead
  · cases hhead
    cases hc
  · split at hhead
    · next hmatch =>
      cases hhead
      have hany := List.any_eq_false.mp (Bool.not_eq_true _ |>.mp hmatch.2)
      exact Bool.not_eq_true _ |>.mp (hany c hc)
    · cases hhead

end

/-! ## What is read is one box -/

theorem state_draft {shape : PromptShape} {lines : List Row} {text : Row} {n : Nat}
    (hstate : shape.state lines = .draft text n) : text = joinRows lines ∧ n = lines.length := by
  rw [PromptShape.state] at hstate
  split at hstate <;> cases hstate
  exact ⟨rfl, rfl⟩

theorem readShape_draft {shape : PromptShape} {rows : List Row} {text : Row} {n : Nat}
    (hread : readShape shape rows = .draft text n) : 0 < n ∧ (n = 1 → ∀ c ∈ text, lineTerminator c = false) := by
  rcases @scan_cases shape rows rows.length with hnone | ⟨pos, -, hpos⟩
  · rw [readShape, hnone] at hread
    cases hread
  · rw [readShape] at hread
    rw [hread] at hpos
    obtain ⟨first, more, hhead, -, hstate⟩ := readAt_cases hpos
    obtain ⟨rfl, rfl⟩ := state_draft hstate.symm
    refine ⟨Nat.succ_pos _, fun hone c hc => ?_⟩
    have hnil : more.map (fun row => trimEnd (row.drop shape.indent.length)) = [] :=
      List.eq_nil_of_length_eq_zero (Nat.succ.inj hone)
    rw [hnil, joinRows, List.intercalate_singleton] at hc
    exact head_clean hhead c (mem_trimEnd hc)

theorem firstKnown_mem {states : List PromptState} {state : PromptState} (hknown : firstKnown states = state)
    (hne : state ≠ .unknown) : state ∈ states := by
  induction states with
  | nil => exact absurd hknown.symm hne
  | cons s states ih =>
    cases s with
    | unknown => exact List.mem_cons_of_mem _ (ih hknown)
    | empty => exact hknown ▸ List.mem_cons_self
    | draft text n => exact hknown ▸ List.mem_cons_self

theorem readPrompt_draft {screen : String} {harness : Option String} {text : Row} {n : Nat}
    (hread : readPrompt screen harness = some (.draft text n)) :
    0 < n ∧ (n = 1 → ∀ c ∈ text, lineTerminator c = false) := by
  unfold readPrompt at hread
  split at hread
  · exact readShape_draft (Option.some.inj hread)
  · exact readShape_draft (Option.some.inj hread)
  · exact readShape_draft (Option.some.inj hread)
  · split at hread
    · cases hread
    · have hmem := firstKnown_mem (Option.some.inj hread) nofun
      simp only [List.mem_cons, List.not_mem_nil, or_false] at hmem
      rcases hmem with hmem | hmem | hmem <;> exact readShape_draft hmem.symm

section
variable {h : Harness} {lines rows above box below : List Row}

end

/-! ## When a draft is covered -/

def fenced (box : List String) : String := "\n".intercalate ("───" :: box ++ ["───", "  Opus 5.5"])

theorem clean_of_all {lines : List Row} (h : lines.all (fun line => line.all fun c => !lineTerminator c) = true) :
    ∀ line ∈ lines, ∀ c ∈ line, lineTerminator c = false := by
  simpa only [List.all_eq_true, Bool.not_eq_true'] using h

end Console

end Cyberlegion
