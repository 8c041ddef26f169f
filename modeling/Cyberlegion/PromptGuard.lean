import Cyberlegion.Prompt

/-!
# The draft guard

`withDraftGuard` of `prompt-guard.ts`. What it polls for is bounded by the clock; `fuel`
counts the turns of that loop, and `polls` is enough of it.
-/

namespace Cyberlegion

namespace Console

open Effects

def DRAFT_IDLE_MS : Int := 20000

def DRAFT_MAX_WAIT_MS : Int := 60000

def DRAFT_POLL_MS : Int := 1000

def KEY_SETTLE_MS : Int := 150

def END_OF_LINE : String := "\x05"

def KILL_LINE : String := "\x15"

structure DraftGuardOptions where
  harness : Option String := none
  ownText : Option (Row → Bool) := none
  idleMs : Option Int := none
  maxWaitMs : Option Int := none
  pollMs : Option Int := none

namespace DraftGuardOptions

variable (o : DraftGuardOptions)

def idle : Int := o.idleMs.getD DRAFT_IDLE_MS

def maxWait : Int := o.maxWaitMs.getD DRAFT_MAX_WAIT_MS

def poll : Int := o.pollMs.getD DRAFT_POLL_MS

/-- What a screen shows; a pane that cannot be read shows nothing this reader knows. -/
def shows {ε : Type} : Except ε (Option String) → PromptState
  | .ok (some screen) => (readPrompt screen o.harness).getD .unknown
  | _ => .unknown

def isOwn : PromptState → Bool
  | .draft text _ => o.ownText.any (· text)
  | _ => false

/-- The turns that the loop may take. -/
def polls : Nat := (o.maxWait / o.poll).toNat + 1

end DraftGuardOptions

inductive GuardError (ε : Type)
  /-- `pane ${pane} holds a draft the user is still editing — gave up after ${maxWaitMs / 1000}s without typing` -/
  | stillEditing (pane : String) (maxWaitMs : Int)
  /-- `pane ${pane} holds an idle draft spanning ${rows} rows, which cannot be typed back exactly —
  left it untouched` -/
  | spansRows (pane : String) (rows : Nat)
  | thrown (e : ε)
  | outOfFuel

section
variable {ε τ : Type} (o : DraftGuardOptions) (target : String)

abbrev GuardM (ε τ : Type) := Prog PaneCall (PaneCall.Res ε τ) (GuardError ε)

def readState : GuardM ε τ PromptState := do
  return o.shows (← Prog.perform .read)

def sendText (text : String) : GuardM ε τ Unit := do
  orThrow .thrown (← Prog.perform (.sendText text))

def sleep (ms : Int) : GuardM ε τ Unit := Prog.perform (PaneCall.sleep ms)

def runSend : GuardM ε τ τ := do
  orThrow .thrown (← Prog.perform .send)

def clearLine : GuardM ε τ Unit := do
  sendText END_OF_LINE
  sleep KEY_SETTLE_MS
  sendText KILL_LINE
  sleep KEY_SETTLE_MS

def textOf : PromptState → Option Row
  | .draft text _ => some text
  | _ => none

/-- The `while` loop: the state of the box once it is no draft, the caller's own text, or idle. -/
def waitIdle (start : Int) : Nat → PromptState → Int → GuardM ε τ PromptState
  | 0, _, _ => throw .outOfFuel
  | fuel + 1, state, changedAt => do
    if textOf state = none ∨ o.isOwn state = true then return state
    else
      let here ← Prog.perform .now
      if here - changedAt ≥ o.idle then return state
      else
        let here ← Prog.perform .now
        if here - start + o.poll > o.maxWait then throw (.stillEditing target o.maxWait)
        else
          sleep o.poll
          let next ← readState o
          if textOf next = none ∨ textOf next ≠ textOf state then
            let changedAt ← Prog.perform .now
            waitIdle start fuel next changedAt
          else waitIdle start fuel next changedAt

/-- The draft is cleared, `send` runs on the empty box, and the draft is typed back. -/
def sendOver (draft : Row) : GuardM ε τ τ := do
  clearLine
  let after ← readState o
  if textOf after = some draft then runSend
  else
    let sent ← Prog.perform .send
    -- the `finally` block: what it throws replaces what `send` threw
    sleep KEY_SETTLE_MS
    sendText (String.ofList draft)
    orThrow .thrown sent

def withDraftGuard : GuardM ε τ τ := do
  let state ← readState o
  let start ← Prog.perform .now
  match ← waitIdle o target start o.polls state start with
  | .draft text rows =>
    if o.isOwn (.draft text rows) = true then
      clearLine
      runSend
    else if rows > 1 then throw (.spansRows target rows)
    else sendOver o text
  | _ => runSend

end

end Console

end Cyberlegion
