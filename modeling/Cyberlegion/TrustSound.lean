import Cyberlegion.Trust

/-!
# When a trust prompt is answered

Every key is pressed under `MayPress`, and `none` is answered under `Unprompted`; the watch
keeps `Watching` from read to read.
-/

namespace Cyberlegion

namespace Console

open Effects

section
variable {ε τ : Type}

def textsOf (l : Log ε τ) : List String := (screens l).map readText

@[simp] theorem textsOf_append (l m : Log ε τ) : textsOf (l ++ m) = textsOf l ++ textsOf m := by
  rw [textsOf, screens_append, List.map_append, textsOf, textsOf]

/-- The screen shows the option that trusts the folder selected. -/
def selected : Harness → String → Bool
  | .claude => claudeSelected
  | .codex => codexSelected
  | .cursor => fun _ => false

/-- The key that moves the selection to that option. -/
def selects : Harness → PaneCall → Bool
  | .claude, .sendKeys keys => keys = ["Down"]
  | .codex, .sendText text => text = "1"
  | _, _ => false

def ENTER : PaneCall := .sendKeys ["Enter"]

/-- What must hold where a key is pressed after the calls of `l`. -/
structure MayPress (input : TrustInput) (op : PaneCall) (l : Log ε τ) : Prop where
  vouched : input.policy = .accept
  shown : ∃ text ∈ textsOf l, showsTrustPrompt input.harness text = true
  enter : op = ENTER → ["Enter"] ∉ pressed l ∧
    ∃ front r, l = front ++ [(.read, .screen r)] ∧ selected input.harness (readText r) = true
  select : selects input.harness op = true → ∃ watched since, l = watched ++ since ∧
    (∀ e ∈ watched, quiet e = true) ∧
    textsOf since ≠ [] ∧ ∀ text ∈ textsOf since, selected input.harness text = false

def TrustCall (input : TrustInput) : PaneCall → Int × Log ε τ → Prop
  | .sendKeys keys, s => MayPress input (.sendKeys keys) s.2
  | .sendText text, s => MayPress input (.sendText text) s.2
  | .submit _, _ | .send, _ => False
  | _, _ => True

/-- The screen has changed since the first read and then held still, and no read showed the prompt. -/
structure Unprompted (input : TrustInput) (opts : TrustOptions) (l : Log ε τ) : Prop where
  changed : ∃ text ∈ textsOf l, (textsOf l).head? ≠ some text
  stable : ∃ front text, textsOf l = front ++ List.replicate opts.stable text
  unshown : ∀ text ∈ textsOf l, showsTrustPrompt input.harness text = false

def TrustEnds (input : TrustInput) (opts : TrustOptions) (r : Except (TrustError ε) TrustOutcome) (s : Int × Log ε τ) :
    Prop := r = .ok .none → Unprompted input opts s.2

/-! ## The watch -/

structure Watching (input : TrustInput) (first previous : String) (changed : Bool) (same : Nat)
    (l : Log ε τ) : Prop where
  quiet : ∀ e ∈ l, quiet e = true
  firstRead : (textsOf l).head? = some first
  unshown : ∀ text ∈ textsOf l, showsTrustPrompt input.harness text = false
  changedSince : changed = true → ∃ text ∈ textsOf l, text ≠ first
  held : ∃ front, textsOf l = front ++ List.replicate same previous

/-- The prompt was shown, and nothing was typed yet. -/
structure Prompted (input : TrustInput) (l : Log ε τ) : Prop where
  quiet : ∀ e ∈ l, quiet e = true
  shown : ∃ text ∈ textsOf l, showsTrustPrompt input.harness text = true

section
variable {input : TrustInput} {opts : TrustOptions} {first previous : String} {changed : Bool}
  {same : Nat} {l : Log ε τ}

theorem quiet_read {ms : Int} {r : Except ε (Option String)} (hl : ∀ e ∈ l, quiet e = true) :
    ∀ e ∈ l ++ [(.sleep ms, .time), (.read, .screen r)], quiet e = true := by
  intro e he
  rcases List.mem_append.mp he with he | he
  · exact hl e he
  · simp only [List.mem_cons, List.not_mem_nil, or_false] at he
    rcases he with rfl | rfl <;> rfl

theorem textsOf_read (ms : Int) (r : Except ε (Option String)) :
    textsOf (l ++ [(.sleep ms, .time), (.read, .screen r)]) = textsOf l ++ [readText r] := textsOf_append _ _

theorem Watching.read (h : Watching input first previous changed same l) (ms : Int) {r : Except ε (Option String)}
    (hr : showsTrustPrompt input.harness (readText r) = false) :
    Watching input first (readText r) (hasChanged first (readText r) changed)
      (sameReads previous (readText r) same) (l ++ [(.sleep ms, .time), (.read, .screen r)]) where
  quiet := quiet_read h.quiet
  firstRead := by
    rw [textsOf_read, List.head?_append, h.firstRead]
    rfl
  unshown text htext := by
    rw [textsOf_read] at htext
    rcases List.mem_append.mp htext with htext | htext
    · exact h.unshown text htext
    · rw [List.mem_singleton.mp htext]
      exact hr
  changedSince hchanged := by
    rw [textsOf_read]
    rcases Bool.or_eq_true _ _ |>.mp hchanged with hchanged | hnew
    · obtain ⟨text, htext, hne⟩ := h.changedSince hchanged
      exact ⟨text, List.mem_append_left _ htext, hne⟩
    · exact ⟨readText r, List.mem_append_right _ (List.mem_singleton_self _), of_decide_eq_true hnew⟩
  held := by
    obtain ⟨front, hheld⟩ := h.held
    rw [textsOf_read, hheld, sameReads]
    split
    · next heq =>
      refine ⟨front, ?_⟩
      rw [heq, List.append_assoc, List.replicate_succ']
    · exact ⟨front ++ List.replicate same previous, rfl⟩

theorem Watching.unprompted (h : Watching input first previous changed same l) (hchanged : changed = true)
    (hsame : opts.stable ≤ same) : Unprompted input opts l where
  changed := by
    obtain ⟨text, htext, hne⟩ := h.changedSince hchanged
    refine ⟨text, htext, fun hfirst => ?_⟩
    rw [h.firstRead] at hfirst
    exact hne (Option.some.inj hfirst).symm
  stable := by
    obtain ⟨front, htexts⟩ := h.held
    refine ⟨front ++ List.replicate (same - opts.stable) previous, previous, ?_⟩
    rw [htexts, List.append_assoc, List.replicate_append_replicate, Nat.sub_add_cancel hsame]
  unshown := h.unshown

theorem wp_readPane {α : Type} {f : String → TrustM ε τ α} {Φ : PaneCall → Int × Log ε τ → Prop}
    {Q : Except (TrustError ε) α → Int × Log ε τ → Prop} {clock : Int} (hΦ : Φ .read (clock, l))
    (hf : ∀ r, wp (logged (pane ε τ)) (fun _ _ => True) Φ (f (readText r)) Q (clock, l ++ [(.read, .screen r)])) :
    wp (logged (pane ε τ)) (fun _ _ => True) Φ (readPane >>= f) Q (clock, l) := wp_read hΦ fun r _ => hf r

def WatchEnds (input : TrustInput) (opts : TrustOptions) :
    Except (TrustError ε) (Option TrustOutcome) → Int × Log ε τ → Prop
  | .ok (some outcome), s => outcome = .none → Unprompted input opts s.2
  | .ok none, s => Prompted input s.2
  | .error _, _ => True

theorem watch_ends (fuel : Nat) :
    ∀ {waited clock : Int} {previous : String} {changed : Bool} {same : Nat} {l : Log ε τ},
    Watching input first previous changed same l →
      wp (logged (pane ε τ)) (fun _ _ => True) (TrustCall input)
      (watch input opts first fuel waited previous changed same)
        (WatchEnds input opts) (clock, l) := by
  induction fuel with
  | zero => intros; trivial
  | succ fuel ih =>
    intro waited clock previous changed same l h
    rw [watch]
    split
    · exact nofun
    · refine wp_sleep trivial (wp_readPane trivial fun r => ?_)
      rw [List.append_assoc]
      split
      · next hshown =>
        refine ⟨quiet_read h.quiet, readText r, ?_, hshown⟩
        show _ ∈ textsOf (l ++ [(.sleep opts.poll, .time), (.read, .screen r)])
        rw [textsOf_read]
        exact List.mem_append_right _ (List.mem_singleton_self _)
      · next hnot =>
        have hread := h.read opts.poll (Bool.not_eq_true _ |>.mp hnot)
        split
        · next hdone =>
          intro _
          exact hread.unprompted hdone.1 hdone.2
        · split
          · exact nofun
          · exact ih hread

end

/-! ## The moves -/

section
variable {input : TrustInput} {opts : TrustOptions} {l : Log ε τ} {clock : Int}

def pressOf (move : TrustMove) : Option PaneCall :=
  match move.keys, move.text with
  | some keys, none => some (.sendKeys keys)
  | none, some text => some (.sendText text)
  | _, _ => none

theorem wp_typeMove {α : Type} {move : TrustMove} {op : PaneCall} {f : Unit → TrustM ε τ α}
    {Q : Except (TrustError ε) α → Int × Log ε τ → Prop} (hop : pressOf move = some op) (hmay : MayPress input op l)
    (herr : ∀ e s, Q (.error e) s)
    (hf : wp (logged (pane ε τ)) (fun _ _ => True) (TrustCall input) (f ()) Q (clock, l ++ [(op, .typed (.ok ()))])) :
    wp (logged (pane ε τ)) (fun _ _ => True) (TrustCall input) (typeMove move >>= f) Q (clock, l) := by
  obtain ⟨keys, text, untilShown⟩ := move
  rw [typeMove]
  cases keys with
  | some keys =>
    cases text with
    | some text => cases hop
    | none =>
      cases hop
      simp only [bind_assoc, pure_bind]
      refine wp_sendKeys hmay fun r _ => wp_orThrow (fun _ _ => herr _ _) ?_
      rintro _ rfl
      exact hf
  | none =>
    cases text with
    | none => cases hop
    | some text =>
      cases hop
      simp only [bind_assoc]
      refine wp_sendText hmay fun r _ => wp_orThrow (fun _ _ => herr _ _) ?_
      rintro _ rfl
      exact hf

/-- The screen was read since the prompt was seen, and shows what `done` says. -/
structure Choosing (input : TrustInput) (done : Bool) (l : Log ε τ) : Prop where
  vouched : input.policy = .accept
  shown : ∃ text ∈ textsOf l, showsTrustPrompt input.harness text = true
  noEnter : ["Enter"] ∉ pressed l
  chosen : done = true → ∃ front r, l = front ++ [(.read, .screen r)] ∧ selected input.harness (readText r) = true
  unchosen : done = false → ∃ watched since, l = watched ++ since ∧ (∀ e ∈ watched, quiet e = true) ∧
    textsOf since ≠ [] ∧ ∀ text ∈ textsOf since, selected input.harness text = false

theorem selects_ne_enter {harness : Harness} {op : PaneCall} (h : selects harness op = true) : op ≠ ENTER := by
  rintro rfl
  cases harness <;> revert h <;> decide

theorem Choosing.maySelect {op : PaneCall} (h : Choosing input false l) (hop : selects input.harness op = true) :
    MayPress input op l where
  vouched := h.vouched
  shown := h.shown
  enter henter := absurd henter (selects_ne_enter hop)
  select _ := h.unchosen rfl

theorem Choosing.press {op : PaneCall} (h : Choosing input false l) (hop : selects input.harness op = true)
    (ms : Int) (r : Except ε (Option String)) : Choosing input (selected input.harness (readText r))
      (l ++ [(op, .typed (.ok ())), (.sleep ms, .time), (.read, .screen r)]) where
  vouched := h.vouched
  shown := by
    obtain ⟨text, htext, hshown⟩ := h.shown
    rw [textsOf_append]
    exact ⟨text, List.mem_append_left _ htext, hshown⟩
  noEnter := by
    rw [pressed_append, List.mem_append, not_or]
    refine ⟨h.noEnter, fun hmem => ?_⟩
    obtain ⟨e, he, hpressed⟩ := List.mem_filterMap.mp hmem
    simp only [List.mem_cons, List.not_mem_nil, or_false] at he
    rcases he with rfl | rfl | rfl
    · cases op <;> cases hpressed
      exact selects_ne_enter hop rfl
    · cases hpressed
    · cases hpressed
  chosen hdone := by
    refine ⟨l ++ [(op, .typed (.ok ())), (.sleep ms, .time)], r, ?_, hdone⟩
    rw [List.append_assoc]
    rfl
  unchosen hdone := by
    obtain ⟨watched, since, rfl, hwatched, -, hall⟩ := h.unchosen rfl
    have hread : textsOf ([(op, .typed (.ok ())), (.sleep ms, .time), (.read, .screen r)] : Log ε τ) =
        [readText r] := by
      cases op <;> rfl
    refine ⟨watched, since ++ [(op, .typed (.ok ())), (.sleep ms, .time), (.read, .screen r)], ?_, hwatched, ?_, ?_⟩
    · rw [List.append_assoc]
    · rw [textsOf_append, hread]
      exact List.append_ne_nil_of_right_ne_nil _ (List.cons_ne_nil _ _)
    · intro text htext
      rw [textsOf_append, hread] at htext
      rcases List.mem_append.mp htext with htext | htext
      · exact hall text htext
      · rw [List.mem_singleton.mp htext]
        exact hdone

theorem attempt_chooses {move : TrustMove} {op : PaneCall} (hmove : pressOf move = some op)
    (huntil : move.untilShown = some (selected input.harness)) (hop : selects input.harness op = true) (left : Nat) :
    ∀ {done : Bool} {clock : Int} {l : Log ε τ}, Choosing input done l →
      wp (logged (pane ε τ)) (fun _ _ => True) (TrustCall input) (attempt opts move left done)
        (fun r s => ∀ done, r = .ok done → Choosing input done s.2) (clock, l) := by
  induction left with
  | zero =>
    intro done clock l h done' hdone
    obtain rfl := Except.ok.inj hdone
    exact h
  | succ left ih =>
    intro done clock l h
    rw [attempt]
    cases done with
    | true =>
      rw [if_pos rfl]
      intro done' hdone
      obtain rfl := Except.ok.inj hdone
      exact h
    | false =>
      rw [if_neg nofun]
      refine wp_typeMove hmove (h.maySelect hop) (fun _ _ => nofun) (wp_sleep trivial ?_)
      rw [reached, huntil]
      simp only [bind_assoc, pure_bind]
      refine wp_readPane trivial fun r => ih ?_
      simp only [List.append_assoc, List.cons_append, List.nil_append]
      exact h.press hop opts.poll r

theorem attempt_once {move : TrustMove} {op : PaneCall} (hmove : pressOf move = some op)
    (huntil : move.untilShown = none)
    (hmay : MayPress input op l) (left : Nat) :
    wp (logged (pane ε τ)) (fun _ _ => True) (TrustCall input) (attempt opts move left false) (fun _ _ => True)
      (clock, l) := by
  cases left with
  | zero => trivial
  | succ left =>
    rw [attempt, if_neg nofun]
    refine wp_typeMove hmove hmay (fun _ _ => trivial) (wp_sleep trivial ?_)
    rw [reached, huntil]
    cases left <;> trivial

theorem makeMoves_once {move : TrustMove} {op : PaneCall} (hmove : pressOf move = some op)
    (huntil : move.untilShown = none)
    (hmay : MayPress input op l) :
    wp (logged (pane ε τ)) (fun _ _ => True) (TrustCall input) (makeMoves opts [move]) (fun _ _ => True)
    (clock, l) := by
  rw [makeMoves, reached, huntil]
  simp only [pure_bind]
  refine wp_seq (attempt_once hmove huntil hmay opts.tries) ?_ (fun _ _ _ => trivial)
  intro done s _
  cases done <;> trivial

theorem Choosing.mayEnter (h : Choosing input true l) : MayPress input ENTER l where
  vouched := h.vouched
  shown := h.shown
  enter _ := ⟨h.noEnter, h.chosen rfl⟩
  select hop := absurd rfl (selects_ne_enter hop)

theorem Prompted.choosing (h : Prompted input l) (hvouched : input.policy = .accept) (r : Except ε (Option String)) :
    Choosing input (selected input.harness (readText r)) (l ++ [(.read, .screen r)]) where
  vouched := hvouched
  shown := by
    obtain ⟨text, htext, hshown⟩ := h.shown
    rw [textsOf_append]
    exact ⟨text, List.mem_append_left _ htext, hshown⟩
  noEnter := by
    rw [pressed_append, pressed_quiet h.quiet]
    exact List.not_mem_nil
  chosen hdone := ⟨l, r, rfl, hdone⟩
  unchosen hdone := by
    refine ⟨l, [(.read, .screen r)], rfl, h.quiet, List.cons_ne_nil _ _, fun text htext => ?_⟩
    rw [List.mem_singleton.mp htext]
    exact hdone

theorem makeMoves_select {move : TrustMove} {op : PaneCall} (h : Prompted input l) (hvouched : input.policy = .accept)
    (hmove : pressOf move = some op) (huntil : move.untilShown = some (selected input.harness))
    (hop : selects input.harness op = true) :
    wp (logged (pane ε τ)) (fun _ _ => True) (TrustCall input) (makeMoves opts [move, { keys := some ["Enter"] }])
      (fun _ _ => True) (clock, l) := by
  rw [makeMoves, reached, huntil]
  simp only [bind_assoc, pure_bind]
  refine wp_readPane trivial fun r => ?_
  refine wp_seq (attempt_chooses hmove huntil hop opts.tries (h.choosing hvouched r)) ?_ (fun _ _ _ => trivial)
  rintro done ⟨clock, l⟩ hdone
  cases done with
  | false => trivial
  | true =>
    rw [if_pos rfl]
    exact makeMoves_once rfl rfl (hdone true rfl).mayEnter

theorem makeMoves_may (h : Prompted input l) (hvouched : input.policy = .accept) :
    wp (logged (pane ε τ)) (fun _ _ => True) (TrustCall input) (makeMoves opts (TRUST_PROMPTS input.harness).accept)
      (fun _ _ => True) (clock, l) := by
  cases hharness : input.harness with
  | claude =>
    have hpress : pressOf { keys := some ["Down"], untilShown := some claudeSelected } =
      some (.sendKeys ["Down"]) := rfl
    refine makeMoves_select h hvouched hpress ?_ ?_ <;> rw [hharness] <;> rfl
  | codex =>
    have hpress : pressOf { text := some "1", untilShown := some codexSelected } = some (.sendText "1") := rfl
    refine makeMoves_select h hvouched hpress ?_ ?_ <;> rw [hharness] <;> rfl
  | cursor =>
    have hmay : MayPress input (.sendText "a") l :=
      { vouched := hvouched
        shown := h.shown
        enter := nofun
        select := fun hop => by rw [hharness] at hop; cases hop }
    exact makeMoves_once rfl rfl hmay

theorem promptCleared_may (left : Nat) : ∀ {clock : Int} {l : Log ε τ},
    wp (logged (pane ε τ)) (fun _ _ => True) (TrustCall input) (promptCleared input opts left) (fun _ _ => True)
      (clock, l) := by
  induction left with
  | zero => intros; trivial
  | succ left ih =>
    intro clock l
    rw [promptCleared]
    refine wp_readPane trivial fun r => ?_
    split
    · trivial
    · exact wp_sleep trivial ih

theorem answerPrompt_ends (h : Prompted input l) :
    wp (logged (pane ε τ)) (fun _ _ => True) (TrustCall input) (answerPrompt input opts) (TrustEnds input opts)
      (clock, l) := by
  rw [answerPrompt]
  split
  · exact nofun
  · next hpolicy =>
    have hvouched : input.policy = .accept := by
      cases hp : input.policy with
      | accept => rfl
      | ask => exact absurd hp hpolicy
    have hwaited : Prompted input (l ++ [(.sleep opts.keyDelay, .time)]) :=
      { quiet := fun e he => by
          rcases List.mem_append.mp he with he | he
          · exact h.quiet e he
          · rw [List.mem_singleton.mp he]; rfl
        shown := by
          rw [textsOf_append]
          obtain ⟨text, htext, hshown⟩ := h.shown
          exact ⟨text, List.mem_append_left _ htext, hshown⟩ }
    refine wp_sleep trivial (wp_seq (makeMoves_may hwaited hvouched) ?_ (fun _ _ _ => nofun))
    rintro done ⟨clock, l⟩ -
    cases done with
    | false => exact nofun
    | true =>
      rw [if_pos rfl]
      refine wp_seq (promptCleared_may opts.tries) ?_ (fun _ _ _ => nofun)
      rintro gone s -
      cases gone <;> exact nofun

theorem answerTrustPrompt_ends (fuel : Nat) (clock : Int) :
    wp (logged (pane ε τ)) (fun _ _ => True) (TrustCall input) (answerTrustPrompt input opts fuel)
    (TrustEnds input opts)
      (clock, []) := by
  rw [answerTrustPrompt]
  refine wp_readPane trivial fun r => ?_
  have hquiet : ∀ e ∈ ([] ++ [(.read, .screen r)] : Log ε τ), quiet e = true := by
    intro e he
    rw [List.mem_singleton.mp he]
    rfl
  split
  · next hshown => exact answerPrompt_ends { quiet := hquiet, shown := ⟨readText r, List.mem_singleton_self _, hshown⟩ }
  · next hnot =>
    have hwatching : Watching input (readText r) (readText r) false 1 ([] ++ [(.read, .screen r)] : Log ε τ) :=
      { quiet := hquiet
        firstRead := rfl
        unshown := fun text htext => by
          rw [List.mem_singleton.mp htext]
          exact Bool.not_eq_true _ |>.mp hnot
        changedSince := nofun
        held := ⟨[], rfl⟩ }
    refine wp_seq (watch_ends fuel hwatching) ?_ (fun _ _ _ => nofun)
    rintro outcome ⟨clock, l⟩ hends
    cases outcome with
    | none => exact answerPrompt_ends hends
    | some outcome =>
      intro houtcome
      exact hends (Except.ok.inj houtcome)

end

/-- Whatever the screens show: each key is one that may be pressed where it is pressed, and `none` is
answered only for a screen that changed, held still and never showed the prompt. -/
theorem answerTrustPrompt_presses {input : TrustInput} {opts : TrustOptions} (fuel : Nat) (cs : List (Reply ε τ))
    (clock : Int) :
    let l := trace (pane ε τ) (answerTrustPrompt input opts fuel) cs clock
    (∀ before op c after, l = before ++ (op, c) :: after → ∃ t, TrustCall input op (t, before)) ∧
      ∀ clock', run (pane ε τ) (answerTrustPrompt input opts fuel) cs clock = some (.ok .none, clock') →
        Unprompted input opts l := by
  constructor
  · intro before op c after htrace
    exact wp_logged_trace (answerTrustPrompt_ends fuel clock) (fun _ _ => trivial) htrace
  · intro clock' hrun
    exact wp_logged_run (answerTrustPrompt_ends fuel clock) (fun _ _ => trivial) hrun rfl

end

end Console

end Cyberlegion
