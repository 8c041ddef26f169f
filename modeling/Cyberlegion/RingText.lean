import Cyberlegion.Lib.Wrapping
import Cyberlegion.Doorbell
import Cyberlegion.PromptGuardSound

/-!
# The texts cyberlegion rings

`isRingText` of `doorbell.ts`: a text read out of an input box that is one of our own, wrapped
onto whatever rows.
-/

namespace Cyberlegion

namespace Console

open Effects Wrapping

def SPAWN_DOORBELL (box : Row) : Bool := between lineTerminator "Readyourbriefat".toList ",thenbeginwork.".toList box

def RESUME_DOORBELL (box : Row) : Bool :=
  between lineTerminator
    ("Yoursessionwasrestartedwithitsconversationresumed—continueyourwork." ++
      "Ifyouhavenoearlierconversation,readyourbriefat").toList
    ",thenbeginwork.".toList box

/-- `squeeze` is `s.replace(/\s+/g, '')`. -/
def isRingText (text : Row) (message : Option String := none) : Bool :=
  let box := squeeze jsSpace text
  box ≠ [] && (box = squeeze jsSpace DELIVERY_DOORBELL.toList || SPAWN_DOORBELL box || RESUME_DOORBELL box ||
    message.any fun message => box = squeeze jsSpace message.toList)

def Visible (s : String) : Prop := ∃ c ∈ s.toList, jsSpace c = false

/-- What is rung into a pane, `message` being what is about to be rung. -/
inductive Doorbell (message : Option String) : String → Prop
  | delivery : Doorbell message DELIVERY_DOORBELL
  | spawn {briefPath : String} : Visible briefPath → Doorbell message (spawnDoorbell briefPath)
  | resume {briefPath : String} : Visible briefPath → Doorbell message (resumeDoorbell briefPath)
  | message {text : String} : message = some text → Visible text → Doorbell message text

section
variable {text front back : Row} {message : Option String} {briefPath : String}

theorem not_lineTerminator {c : Char} (hc : jsSpace c = false) : lineTerminator c = false := by
  rw [lineTerminator, decide_eq_false_iff_not]
  rw [jsSpace, decide_eq_false_iff_not] at hc
  simp only [List.mem_cons, List.not_mem_nil, or_false] at hc ⊢
  omega

theorem visible_iff {s : String} : Visible s ↔ squeeze jsSpace s.toList ≠ [] := by
  rw [Ne, squeeze_eq_nil_iff, Visible]
  simp

theorem mem_squeezed {c : Char} (hc : c ∈ squeeze jsSpace text) : jsSpace c = false := by
  simpa using (List.mem_filter.mp hc).2

theorem between_squeezed : between lineTerminator (squeeze jsSpace front) (squeeze jsSpace back)
    (squeeze jsSpace text) = true ↔
    ∃ briefPath : String, Visible briefPath ∧
      squeeze jsSpace text = squeeze jsSpace (front ++ (briefPath.toList ++ back)) := by
  rw [between_iff]
  simp only [squeeze_append]
  constructor
  · intro ⟨middle, hmiddle, hne, _⟩
    have hsame : squeeze jsSpace middle = middle := by
      have hall := congrArg (squeeze jsSpace) hmiddle
      rw [squeeze_append, squeeze_append, squeeze_squeeze, squeeze_squeeze, squeeze_squeeze, hmiddle] at hall
      exact (List.append_cancel_right (List.append_cancel_left hall)).symm
    refine ⟨String.ofList middle, ?_, ?_⟩
    · rw [visible_iff, String.toList_ofList, hsame]
      exact hne
    · rw [String.toList_ofList, hsame]
      exact hmiddle
  · intro ⟨briefPath, hvisible, hpath⟩
    exact ⟨_, hpath, visible_iff.mp hvisible, fun c hc => not_lineTerminator (mem_squeezed hc)⟩

theorem toList_spawnDoorbell : (spawnDoorbell briefPath).toList =
    "Read your brief at ".toList ++ (briefPath.toList ++ ", then begin work.".toList) := by
  unfold spawnDoorbell
  rw [String.toList_append, String.toList_append, List.append_assoc]

theorem toList_resumeDoorbell : (resumeDoorbell briefPath).toList =
    ("Your session was restarted with its conversation resumed — continue your work. ".toList ++
      "If you have no earlier conversation, read your brief at ".toList) ++
      (briefPath.toList ++ ", then begin work.".toList) := by
  unfold resumeDoorbell
  rw [String.toList_append, String.toList_append, String.toList_append, List.append_assoc (_ ++ _)]

theorem back_squeezed : ",thenbeginwork.".toList = squeeze jsSpace ", then begin work.".toList := by decide +kernel

theorem spawn_squeezed : "Readyourbriefat".toList = squeeze jsSpace "Read your brief at ".toList := by decide +kernel

theorem resume_squeezed :
    ("Yoursessionwasrestartedwithitsconversationresumed—continueyourwork." ++
      "Ifyouhavenoearlierconversation,readyourbriefat").toList =
    squeeze jsSpace ("Your session was restarted with its conversation resumed — continue your work. ".toList ++
      "If you have no earlier conversation, read your brief at ".toList) := by decide +kernel

theorem SPAWN_DOORBELL_iff : SPAWN_DOORBELL (squeeze jsSpace text) = true ↔
    ∃ briefPath, Visible briefPath ∧ squeeze jsSpace text = squeeze jsSpace (spawnDoorbell briefPath).toList := by
  unfold SPAWN_DOORBELL
  rw [spawn_squeezed, back_squeezed, between_squeezed]
  simp only [toList_spawnDoorbell]

theorem RESUME_DOORBELL_iff : RESUME_DOORBELL (squeeze jsSpace text) = true ↔
    ∃ briefPath, Visible briefPath ∧ squeeze jsSpace text = squeeze jsSpace (resumeDoorbell briefPath).toList := by
  unfold RESUME_DOORBELL
  rw [resume_squeezed, back_squeezed, between_squeezed]
  simp only [toList_resumeDoorbell]

theorem Doorbell.visible {bell : String} (h : Doorbell message bell) : squeeze jsSpace bell.toList ≠ [] := by
  cases h with
  | delivery => decide
  | spawn =>
    rw [toList_spawnDoorbell, squeeze_append, ← spawn_squeezed]
    exact List.append_ne_nil_of_left_ne_nil (by decide +kernel) _
  | resume =>
    rw [toList_resumeDoorbell, squeeze_append, ← resume_squeezed]
    exact List.append_ne_nil_of_left_ne_nil (by decide +kernel) _
  | message _ hvisible => exact visible_iff.mp hvisible

theorem isRingText_squeezed : isRingText text message = true ↔
    ∃ bell, Doorbell message bell ∧ squeeze jsSpace text = squeeze jsSpace bell.toList := by
  rw [isRingText]
  simp only [Bool.and_eq_true, Bool.or_eq_true, decide_eq_true_eq, Option.any_eq_true, SPAWN_DOORBELL_iff,
    RESUME_DOORBELL_iff]
  constructor
  · intro ⟨hne, hbox⟩
    rcases hbox with ((hbox | ⟨briefPath, hvisible, hbox⟩) | ⟨briefPath, hvisible, hbox⟩) | ⟨bell, hbell, hbox⟩
    · exact ⟨_, .delivery, hbox⟩
    · exact ⟨_, .spawn hvisible, hbox⟩
    · exact ⟨_, .resume hvisible, hbox⟩
    · exact ⟨_, .message hbell (visible_iff.mpr (hbox ▸ hne)), hbox⟩
  · intro ⟨bell, hbell, hbox⟩
    refine ⟨hbox ▸ hbell.visible, ?_⟩
    cases hbell with
    | delivery => exact .inl (.inl (.inl hbox))
    | spawn hvisible => exact .inl (.inl (.inr ⟨_, hvisible, hbox⟩))
    | resume hvisible => exact .inl (.inr ⟨_, hvisible, hbox⟩)
    | message hbell _ => exact .inr ⟨_, hbell, hbox⟩

end

/-! ## What the guard clears -/

section
variable {ε τ : Type} {o : DraftGuardOptions} {target : String} {text : Row} {l : Log ε τ} {r : Except (GuardError ε) τ}

/-- The draft last seen in the box is cleared, `send` runs, no screen shows the draft again, and
nothing is typed back. -/
def ClearedAway (o : DraftGuardOptions) (text : Row) (l : Log ε τ) : Prop :=
  (shown o (waiting l)).bind textOf = some text ∧ typed l = [END_OF_LINE, KILL_LINE] ∧ 0 < l.countP sends ∧
    ∀ s ∈ screens (acting l), textOf (o.shows s) ≠ some text

theorem Course.clearedAway_own (hc : Course o target l r) (h : ClearedAway o text l) :
    ∃ own, o.ownText = some own ∧ own text = true := by
  obtain ⟨hshown, htyped, hsends, hgone⟩ := h
  cases hc with
  | stillEditing hw | spansRows hw =>
    rw [sends_quiet hw.quiet] at hsends
    cases hsends
  | free hw hstate sent =>
    rw [typed_append, typed_quiet hw.quiet] at htyped
    cases htyped
  | broken hw hsettled first e =>
    rw [List.countP_append, sends_quiet hw.quiet] at hsends
    cases first <;> cases hsends
  | own hw hown sent =>
    rw [waiting_cleared hw.quiet, hw.shown] at hshown
    obtain rfl := Option.some_inj.mp hshown
    exact (Option.any_eq_true _ _).mp hown
  | unremoved hw hsettled hforeign r hr sent =>
    rw [waiting_cleared hw.quiet, hw.shown] at hshown
    rw [acting_cleared hw.quiet] at hgone
    obtain rfl := Option.some_inj.mp hshown
    exact absurd hr (hgone r (List.mem_singleton_self r))
  | restored hw hsettled hforeign r hr sent back =>
    rw [typed_append, typed_quiet hw.quiet] at htyped
    cases htyped

end

/-- A text is taken for a ring exactly where it is a doorbell wrapped anew, and the guard drops no other draft. -/
theorem isRingText_iff (text : Row) (message : Option String) :
    (isRingText text message = true ↔ ∃ bell, Doorbell message bell ∧ Rewrapped jsSpace bell.toList text) ∧
    ∀ {ε τ : Type} {o : DraftGuardOptions} {target : String} {cs : List (Reply ε τ)} {clock clock' : Int}
      {r : Except (GuardError ε) τ}, 0 < o.poll → 0 < o.maxWait → o.ownText = some (isRingText · message) →
      run (pane ε τ) (withDraftGuard o target) cs clock = some (r, clock') →
      ClearedAway o text (trace (pane ε τ) (withDraftGuard o target) cs clock) →
      ∃ bell, Doorbell message bell ∧ Rewrapped jsSpace bell.toList text := by
  have hiff : isRingText text message = true ↔ ∃ bell, Doorbell message bell ∧ Rewrapped jsSpace bell.toList text := by
    rw [isRingText_squeezed]
    simp only [rewrapped_iff, eq_comm]
  refine ⟨hiff, ?_⟩
  intro ε τ o target cs clock clock' r hpoll hmax hown hrun hcleared
  have hcourse := wp_logged_run (withDraftGuard_course hpoll hmax clock) (fun _ _ => trivial) hrun
  obtain ⟨own, howner, htext⟩ := Course.clearedAway_own hcourse hcleared
  rw [hown] at howner
  obtain rfl := Option.some_inj.mp howner
  exact hiff.mp htext

/-! A claude box that shows a ring again. -/

def ringOptions : DraftGuardOptions where
  harness := some "claude"
  ownText := some (isRingText ·)

def ringReplies : List (Reply Unit Unit) :=
  [.screen (.ok (some (fenced ["❯ You have unread mail — check your inbox."]))), .time, .typed (.ok ()), .time,
    .typed (.ok ()), .time, .sent (.ok ())]

theorem isRingText_delivery : ∃ bell, Doorbell none bell ∧
    Rewrapped jsSpace bell.toList "You have unread mail — check your inbox.".toList := by
  have hrun : run (pane Unit Unit) (withDraftGuard ringOptions "%1") ringReplies 0 = some (.ok (), 300) := rfl
  refine (isRingText_iff _ none).2 (by decide) (by decide) rfl hrun ⟨rfl, rfl, by decide, ?_⟩
  intro s hs
  cases hs

end Console

end Cyberlegion
