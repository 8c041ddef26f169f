import Cyberlegion.TrustSound
import Mathlib.Data.List.DropRight

/-!
# What backs an accepted prompt

A prompt is taken as accepted at the first read after the last key that does not show it.
A read that fails does not show it either.
-/

namespace Cyberlegion

namespace Console

open Effects

section
variable {ε τ : Type}

/-! ## The last key -/

def lastKey (l : Log ε τ) : Option PaneCall := (l.rdropWhile quiet).getLast?.map Prod.fst

def readsSince (l : Log ε τ) : List (Except ε (Option String)) := screens (l.rtakeWhile quiet)

section
variable {l : Log ε τ} {e : PaneCall × Reply ε τ} {ms : Int} {r : Except ε (Option String)}

theorem lastKey_quiet (he : quiet e = true) : lastKey (l ++ [e]) = lastKey l := by
  rw [lastKey, List.rdropWhile_concat_pos _ _ _ he, lastKey]

theorem lastKey_key (he : ¬quiet e = true) : lastKey (l ++ [e]) = some e.1 := by
  rw [lastKey, List.rdropWhile_concat_neg _ _ _ he, List.getLast?_concat, Option.map_some]

@[simp] theorem lastKey_sleep : lastKey (l ++ [(.sleep ms, .time)]) = lastKey l := lastKey_quiet rfl

@[simp] theorem lastKey_read : lastKey (l ++ [(.read, .screen r)]) = lastKey l := lastKey_quiet rfl

theorem readsSince_key (he : ¬quiet e = true) : readsSince (l ++ [e]) = [] := by
  rw [readsSince, List.rtakeWhile_concat_neg _ _ _ he]
  rfl

@[simp] theorem readsSince_sleep : readsSince (l ++ [(.sleep ms, .time)]) = readsSince l := by
  rw [readsSince, List.rtakeWhile_concat_pos _ _ _ rfl, screens_append]
  exact List.append_nil _

@[simp] theorem readsSince_read : readsSince (l ++ [(.read, .screen r)]) = readsSince l ++ [r] := by
  rw [readsSince, List.rtakeWhile_concat_pos _ _ _ rfl, screens_append]
  rfl

end

/-- The key that answers the prompt. -/
def answerKey : Harness → PaneCall
  | .claude | .codex => ENTER
  | .cursor => .sendText "a"

def showsIn (input : TrustInput) (r : Except ε (Option String)) : Prop :=
  showsTrustPrompt input.harness (readText r) = true

/-- `accepted` has a screen without the prompt behind it, and `stuck` is answered where there is none. -/
structure Backed (input : TrustInput) (r : Except (TrustError ε) TrustOutcome) (l : Log ε τ) : Prop where
  accepted : r = .ok .accepted → (lastKey l).isSome = true ∧
    ∃ text, .ok (some text) ∈ readsSince l ∧ showsTrustPrompt input.harness text = false
  stuck : (lastKey l).isSome = true →
    (∀ text, .ok (some text) ∈ readsSince l → showsTrustPrompt input.harness text = true) →
      ∀ outcome, r = .ok outcome → outcome = stuck input

/-- No read fails once the answer is typed. -/
def Evidenced (input : TrustInput) (l : Log ε τ) : Prop :=
  lastKey l = some (answerKey input.harness) → ∀ r ∈ readsSince l, ∃ text, r = .ok (some text)

/-- How an answer to the prompt ends, by the last key. -/
inductive AnswerEnds (input : TrustInput) : Except (TrustError ε) TrustOutcome → Log ε τ → Prop
  | unanswered {r : Except (TrustError ε) TrustOutcome} {l : Log ε τ}
      (hlast : lastKey l ≠ some (answerKey input.harness))
      (hr : r ≠ .ok .accepted) (hkeys : (lastKey l).isSome = true → ∀ outcome, r = .ok outcome →
        outcome = stuck input) :
      AnswerEnds input r l
  | pending {r : Except (TrustError ε) TrustOutcome} {l : Log ε τ} (hlast : lastKey l = some (answerKey input.harness))
      (hshown : ∀ s ∈ readsSince l, showsIn input s) (hr : ∀ outcome, r = .ok outcome → outcome = stuck input) :
      AnswerEnds input r l
  | cleared {l : Log ε τ} {front : List (Except ε (Option String))} {r : Except ε (Option String)}
      (hlast : lastKey l = some (answerKey input.harness)) (hreads : readsSince l = front ++ [r])
      (hshown : ∀ s ∈ front, showsIn input s) (hr : ¬showsIn input r) : AnswerEnds input (.ok .accepted) l

section
variable {input : TrustInput} {opts : TrustOptions} {l : Log ε τ} {clock : Int}

theorem answerKey_typed (harness : Harness) (c : Reply ε τ) : ¬quiet (answerKey harness, c) = true := by
  cases harness <;> exact Bool.false_ne_true

/-- A blank screen shows no prompt, and a read that fails is taken for one. -/
theorem text_of_shows {r : Except ε (Option String)} (h : showsIn input r) :
    ∃ text, r = .ok (some text) ∧ showsTrustPrompt input.harness text = true := by
  have hblank : showsTrustPrompt input.harness "" = false := by
    cases input.harness <;> decide +kernel
  unfold showsIn at h
  match r with
  | .ok (some text) => exact ⟨text, rfl, h⟩
  | .ok none => exact absurd h (hblank ▸ Bool.false_ne_true)
  | .error e => exact absurd h (hblank ▸ Bool.false_ne_true)

theorem not_shows {r : Except ε (Option String)}
    (h : showsTrustPrompt input.harness (readText r) = false) : ¬showsIn input r := by
  rw [showsIn, h]
  exact Bool.false_ne_true

theorem AnswerEnds.backed_iff {r : Except (TrustError ε) TrustOutcome} (h : AnswerEnds input r l) :
    Backed input r l ↔ Evidenced input l := by
  cases h with
  | unanswered hlast hr hkeys => exact iff_of_true ⟨fun h => absurd h hr, fun h _ => hkeys h⟩ fun h => absurd h hlast
  | pending hlast hshown hr =>
    refine iff_of_true ⟨fun h => ?_, fun _ _ => hr⟩ fun _ s hs => ?_
    · cases hr _ h
    · obtain ⟨text, htext, -⟩ := text_of_shows (hshown s hs)
      exact ⟨text, htext⟩
  | @cleared _ front s hlast hreads hshown hs =>
    constructor
    · intro hbacked _ r hr
      obtain ⟨-, text, htext, hnot⟩ := hbacked.accepted rfl
      rw [hreads, List.mem_append, List.mem_singleton] at hr htext
      rcases hr with hr | rfl
      · obtain ⟨text, htext, -⟩ := text_of_shows (hshown r hr)
        exact ⟨text, htext⟩
      · rcases htext with htext | htext
        · exact absurd (hshown _ htext) (not_shows hnot)
        · exact ⟨text, htext.symm⟩
    · intro hevidence
      have hmem : s ∈ readsSince l := by
        rw [hreads]
        exact List.mem_append_right _ (List.mem_singleton_self _)
      obtain ⟨text, rfl⟩ := hevidence hlast s hmem
      have hnot : showsTrustPrompt input.harness text = false := Bool.not_eq_true _ |>.mp hs
      refine ⟨fun _ => ⟨by rw [hlast]; rfl, text, hmem, hnot⟩, fun _ hall => ?_⟩
      rw [hall text hmem] at hnot
      cases hnot

/-! ## The watch -/

theorem watch_types_nothing {first : String} (fuel : Nat) : ∀ {waited clock : Int} {previous : String} {changed : Bool}
    {same : Nat} {l : Log ε τ}, lastKey l = none → wp (logged (pane ε τ)) (fun _ _ => True) (fun _ _ => True)
      (watch input opts first fuel waited previous changed same)
      (fun r s => lastKey s.2 = none ∧ r ≠ .ok (some .accepted)) (clock, l) := by
  induction fuel with
  | zero => exact fun hl => ⟨hl, (fun h => by cases h)⟩
  | succ fuel ih =>
    intro waited clock previous changed same l hl
    rw [watch]
    split
    · exact ⟨hl, (fun h => by cases h)⟩
    · refine wp_sleep trivial (wp_readPane trivial fun r => ?_)
      have hread : lastKey (l ++ [(.sleep opts.poll, .time)] ++ [(.read, .screen r)]) = none := by
        rw [lastKey_read, lastKey_sleep, hl]
      split
      · exact ⟨hread, (fun h => by cases h)⟩
      · split
        · exact ⟨hread, (fun h => by cases h)⟩
        · split
          · exact ⟨hread, (fun h => by cases h)⟩
          · exact ih hread

/-! ## The moves -/

theorem wp_press {α : Type} {move : TrustMove} {op : PaneCall} {f : Unit → TrustM ε τ α}
    {Q : Except (TrustError ε) α → Int × Log ε τ → Prop} (hop : pressOf move = some op)
    (herr : ∀ e r, Q (.error e) (clock, l ++ [(op, .typed r)]))
    (hf : ∀ r, wp (logged (pane ε τ)) (fun _ _ => True) (fun _ _ => True) (f ()) Q (clock, l ++ [(op, .typed r)])) :
    wp (logged (pane ε τ)) (fun _ _ => True) (fun _ _ => True) (typeMove move >>= f) Q (clock, l) := by
  obtain ⟨keys, text, untilShown⟩ := move
  rw [typeMove]
  cases keys with
  | some keys =>
    cases text with
    | some text => cases hop
    | none =>
      cases hop
      simp only [bind_assoc, pure_bind]
      exact wp_sendKeys trivial fun r _ => wp_orThrow (fun _ _ => herr _ _) fun _ _ => hf r
  | none =>
    cases text with
    | none => cases hop
    | some text =>
      cases hop
      simp only [bind_assoc]
      exact wp_sendText trivial fun r _ => wp_orThrow (fun _ _ => herr _ _) fun _ _ => hf r

theorem quiet_pressOf {move : TrustMove} {op : PaneCall} (hop : pressOf move = some op) (c : Reply ε τ) :
    ¬quiet (op, c) = true := by
  unfold pressOf at hop
  split at hop <;> cases hop <;> exact Bool.false_ne_true

def MovesEnd (input : TrustInput) (r : Except (TrustError ε) Bool) (s : Int × Log ε τ) : Prop :=
  match r with
  | .ok true => lastKey s.2 = some (answerKey input.harness) ∧ readsSince s.2 = []
  | .ok false => lastKey s.2 ≠ some (answerKey input.harness)
  | .error _ => lastKey s.2 ≠ some (answerKey input.harness) ∨ readsSince s.2 = []

theorem attempt_unanswered {move : TrustMove} {op : PaneCall} {test : String → Bool} (hmove : pressOf move = some op)
    (huntil : move.untilShown = some test) (hop : op ≠ answerKey input.harness) (left : Nat) :
    ∀ {done : Bool} {clock : Int} {l : Log ε τ}, lastKey l ≠ some (answerKey input.harness) →
      wp (logged (pane ε τ)) (fun _ _ => True) (fun _ _ => True) (attempt opts move left done)
        (fun _ s => lastKey s.2 ≠ some (answerKey input.harness)) (clock, l) := by
  induction left with
  | zero => exact fun hl => hl
  | succ left ih =>
    intro done clock l hl
    rw [attempt]
    by_cases hdone : done = true
    · rw [if_pos hdone]
      exact hl
    rw [if_neg hdone]
    have hpressed : ∀ r, lastKey (l ++ [(op, .typed r)]) ≠ some (answerKey input.harness) := by
      intro r
      rw [lastKey_key (quiet_pressOf hmove _)]
      exact fun h => hop (Option.some.inj h)
    refine wp_press hmove (fun _ r => hpressed r) fun r => wp_sleep trivial ?_
    rw [reached, huntil]
    simp only [bind_assoc, pure_bind]
    refine wp_readPane trivial fun r' => ih ?_
    rw [lastKey_read, lastKey_sleep]
    exact hpressed r

theorem makeMoves_answer {move : TrustMove} (hmove : pressOf move = some (answerKey input.harness))
    (huntil : move.untilShown = none) (hl : lastKey l ≠ some (answerKey input.harness)) :
    wp (logged (pane ε τ)) (fun _ _ => True) (fun _ _ => True) (makeMoves opts [move]) (MovesEnd input) (clock, l) := by
  rw [makeMoves, reached, huntil]
  simp only [pure_bind]
  cases opts.tries with
  | zero => exact hl
  | succ left =>
    rw [attempt, if_neg (fun h => by cases h), bind_assoc]
    have hkey : ∀ r, ¬quiet ((answerKey input.harness, .typed r) : PaneCall × Reply ε τ) = true :=
      fun r => answerKey_typed _ _
    refine wp_press hmove (fun _ r => .inr (readsSince_key (hkey r))) fun r => ?_
    rw [bind_assoc]
    refine wp_sleep trivial ?_
    rw [reached, huntil]
    have hend : MovesEnd input (.ok true) (clock + opts.poll, l ++
        [(answerKey input.harness, .typed r)] ++ [(.sleep opts.poll, .time)]) := by
      refine ⟨?_, ?_⟩
      · rw [lastKey_sleep, lastKey_key (hkey r)]
      · rw [readsSince_sleep, readsSince_key (hkey r)]
    cases left <;> exact hend

theorem makeMoves_end (hl : lastKey l ≠ some (answerKey input.harness)) :
    wp (logged (pane ε τ)) (fun _ _ => True) (fun _ _ => True) (makeMoves opts (TRUST_PROMPTS input.harness).accept)
      (MovesEnd input) (clock, l) := by
  have hselect : ∀ (op : PaneCall) {move last : TrustMove} {test : String → Bool}, pressOf move = some op →
      move.untilShown = some test → op ≠ answerKey input.harness → pressOf last = some (answerKey input.harness) →
      last.untilShown = none → wp (logged (pane ε τ)) (fun _ _ => True) (fun _ _ => True) (makeMoves opts [move, last])
        (MovesEnd input) (clock, l) := by
    intro op move last test hmove huntil hop hlast hno
    rw [makeMoves, reached, huntil]
    simp only [bind_assoc, pure_bind]
    refine wp_readPane trivial fun r => ?_
    have hread : lastKey (l ++ [(.read, .screen r)]) ≠ some (answerKey input.harness) := by
      rw [lastKey_read]
      exact hl
    refine wp_seq (attempt_unanswered hmove huntil hop opts.tries hread) ?_ (fun _ _ h => .inl h)
    rintro done ⟨clock, l'⟩ hl'
    cases done with
    | false => exact hl'
    | true =>
      rw [if_pos rfl]
      exact makeMoves_answer hlast hno hl'
  cases hharness : input.harness with
  | claude => exact hselect (.sendKeys ["Down"]) rfl rfl (by rw [hharness]; decide) (by rw [hharness]; rfl) rfl
  | codex => exact hselect (.sendText "1") rfl rfl (by rw [hharness]; decide) (by rw [hharness]; rfl) rfl
  | cursor => exact makeMoves_answer (by rw [hharness]; rfl) rfl hl

/-! ## The end -/

theorem promptCleared_end (left : Nat) : ∀ {clock : Int} {l : Log ε τ}, lastKey l = some (answerKey input.harness) →
    (∀ s ∈ readsSince l, showsIn input s) → wp (logged (pane ε τ)) (fun _ _ => True) (fun _ _ => True)
      (promptCleared input opts left) (fun r s => (r = .ok true ∧ AnswerEnds input (.ok .accepted) s.2) ∨
        (r = .ok false ∧ AnswerEnds input (.ok (stuck input)) s.2)) (clock, l) := by
  induction left with
  | zero =>
    intro clock l hlast hshown
    refine .inr ⟨rfl, .pending hlast hshown fun outcome houtcome => ?_⟩
    exact (Except.ok.inj houtcome).symm
  | succ left ih =>
    intro clock l hlast hshown
    rw [promptCleared]
    refine wp_readPane trivial fun r => ?_
    have hlast' : lastKey (l ++ [(.read, .screen r)]) = some (answerKey input.harness) := by rw [lastKey_read, hlast]
    by_cases hr : showsTrustPrompt input.harness (readText r) = false
    · rw [if_pos hr]
      exact .inl ⟨rfl, .cleared hlast' readsSince_read hshown (not_shows hr)⟩
    · rw [if_neg hr]
      refine wp_sleep trivial (ih ?_ ?_)
      · rw [lastKey_sleep, hlast']
      · rw [readsSince_sleep, readsSince_read]
        intro s hs
        rcases List.mem_append.mp hs with hs | hs
        · exact hshown s hs
        · rw [List.mem_singleton.mp hs]
          exact Bool.not_eq_false _ |>.mp hr

theorem answerPrompt_course (hl : lastKey l = none) : wp (logged (pane ε τ)) (fun _ _ => True) (fun _ _ => True)
    (answerPrompt input opts) (fun r s => AnswerEnds input r s.2) (clock, l) := by
  rw [answerPrompt]
  by_cases hpolicy : input.policy = .ask
  · rw [if_pos hpolicy]
    refine .unanswered ?_ (fun h => by cases h) fun hkeys => ?_
    · rw [hl]
      intro h
      cases h
    · rw [hl] at hkeys
      cases hkeys
  rw [if_neg hpolicy]
  have hwaited : lastKey (l ++ [(.sleep opts.keyDelay, .time)]) ≠ some (answerKey input.harness) := by
    rw [lastKey_sleep, hl]
    intro h
    cases h
  refine wp_sleep trivial (wp_seq (makeMoves_end hwaited) ?_ ?_)
  · rintro done ⟨clock, l'⟩ hend
    cases done with
    | false => exact .unanswered hend (fun h => by cases h) fun _ outcome houtcome => (Except.ok.inj houtcome).symm
    | true =>
      obtain ⟨hlast, hreads⟩ := hend
      rw [if_pos rfl]
      refine wp_seq (promptCleared_end opts.tries hlast
        (by rw [hreads]; exact fun r hr => absurd hr List.not_mem_nil)) ?_ ?_
      · rintro cleared s (⟨hcleared, hend⟩ | ⟨hcleared, hend⟩) <;> cases hcleared <;> exact hend
      · rintro e s (⟨he, -⟩ | ⟨he, -⟩) <;> cases he
  · rintro e ⟨clock, l'⟩ (hlast | hreads)
    · exact .unanswered hlast (fun h => by cases h) fun _ outcome houtcome => (by cases houtcome)
    · by_cases hlast : lastKey l' = some (answerKey input.harness)
      · exact .pending hlast (by rw [hreads]; exact fun r hr => absurd hr List.not_mem_nil)
          fun outcome houtcome => (by cases houtcome)
      · exact .unanswered hlast (fun h => by cases h) fun _ outcome houtcome => (by cases houtcome)

variable (opts) in
theorem answerTrustPrompt_course (fuel : Nat) : wp (logged (pane ε τ)) (fun _ _ => True) (fun _ _ => True)
    (answerTrustPrompt input opts fuel) (fun r s => AnswerEnds input r s.2) (clock, []) := by
  have hquiet : ∀ {r : Except (TrustError ε) TrustOutcome} {l : Log ε τ}, lastKey l = none → r ≠ .ok .accepted →
      AnswerEnds input r l := by
    intro r l hl hr
    refine .unanswered ?_ hr fun hkeys => ?_
    · rw [hl]
      intro h
      cases h
    · rw [hl] at hkeys
      cases hkeys
  rw [answerTrustPrompt]
  refine wp_readPane trivial fun r => ?_
  have hfirst : lastKey ([] ++ [(.read, .screen r)] : Log ε τ) = none := lastKey_read
  split
  · exact answerPrompt_course hfirst
  · refine wp_seq (watch_types_nothing fuel hfirst) ?_ (fun e s h => hquiet h.1 (fun h => by cases h))
    rintro outcome ⟨clock, l'⟩ ⟨hl, houtcome⟩
    cases outcome with
    | none => exact answerPrompt_course hl
    | some outcome => exact hquiet hl fun h => houtcome (congrArg (Except.map some) h)

end

section
variable (input : TrustInput) (opts : TrustOptions) (fuel : Nat) (cs : List (Reply ε τ)) (clock clock' : Int)
  (r : Except (TrustError ε) TrustOutcome)

theorem answerTrustPrompt_backed_iff
    (hrun : run (pane ε τ) (answerTrustPrompt input opts fuel) cs clock = some (r, clock')) :
    Backed input r (trace (pane ε τ) (answerTrustPrompt input opts fuel) cs clock) ↔
      Evidenced input (trace (pane ε τ) (answerTrustPrompt input opts fuel) cs clock) := by
  have hends := wp_logged_run (answerTrustPrompt_course opts fuel) (fun _ _ => trivial) hrun
  exact hends.backed_iff

end

def spawnedInput : TrustInput := { harness := .claude, folder := "/w", pane := "%1", policy := .accept }

def promptedReplies (last : Except Unit (Option String)) : List (Reply Unit Unit) :=
  [.screen (.ok (some "Quick safety check ❯ Yes, I trust this folder")), .time,
    .screen (.ok (some "Quick safety check ❯ Yes, I trust this folder")), .typed (.ok ()), .time, .screen last]

theorem answerTrustPrompt_sees : Backed spawnedInput (.ok .accepted) (trace (pane Unit Unit)
    (answerTrustPrompt spawnedInput {} 0) (promptedReplies (.ok (some "❯ "))) 0) := by
  have hrun : run (pane Unit Unit) (answerTrustPrompt spawnedInput {} 0) (promptedReplies (.ok (some "❯ "))) 0 =
      some (.ok .accepted, 1500) := rfl
  refine (answerTrustPrompt_backed_iff spawnedInput {} 0 (promptedReplies (.ok (some "❯ "))) 0 1500 _
    hrun).mpr fun _ r hr => ?_
  have hreads : readsSince (trace (pane Unit Unit) (answerTrustPrompt spawnedInput {} 0)
      (promptedReplies (.ok (some "❯ "))) 0) = [.ok (some "❯ ")] := rfl
  rw [hreads] at hr
  exact ⟨_, List.mem_singleton.mp hr⟩

/-- The read after Enter fails. -/
theorem answerTrustPrompt_unseen : ∃ clock, run (pane Unit Unit) (answerTrustPrompt spawnedInput {} 0)
    (promptedReplies (.error ())) 0 = some (.ok .accepted, clock) ∧
      ¬Backed spawnedInput (.ok .accepted) (trace (pane Unit Unit) (answerTrustPrompt spawnedInput {} 0)
        (promptedReplies (.error ())) 0) := by
  refine ⟨1500, rfl, fun hbacked => ?_⟩
  obtain ⟨-, text, htext, -⟩ := hbacked.accepted rfl
  have hreads : readsSince (trace (pane Unit Unit) (answerTrustPrompt spawnedInput {} 0)
      (promptedReplies (.error ())) 0) = [.error ()] := rfl
  rw [hreads] at htext
  cases List.mem_singleton.mp htext

end

end Console

end Cyberlegion
