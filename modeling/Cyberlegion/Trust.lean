import Cyberlegion.Prompt
import Cyberlegion.Ring

/-!
# Folder-trust prompts

`trust.ts`. `fuel` counts the turns of the watch loop, which only its timeout bounds.
-/

namespace Cyberlegion

namespace Console

open Effects

structure TrustMove where
  keys : Option (List String) := none
  text : Option String := none
  untilShown : Option (String → Bool) := none

/-- `/❯\s*Yes, I trust this folder/`. -/
def claudeSelected (screen : String) : Bool :=
  (unitsOf screen).tails.any fun tail =>
    match tail with
    | 0x276F :: rest => (unitsOf "Yes, I trust this folder").isPrefixOf (rest.dropWhile unitSpace)
    | _ => false

/-- `/›\s*1\.\s*(?:Yes, continue|Trust and continue)/`. -/
def codexSelected (screen : String) : Bool :=
  (unitsOf screen).tails.any fun tail =>
    match tail with
    | 0x203A :: rest =>
      match rest.dropWhile unitSpace with
      | 0x31 :: 0x2E :: rest =>
        ["Yes, continue", "Trust and continue"].any fun phrase => (unitsOf phrase).isPrefixOf (rest.dropWhile unitSpace)
      | _ => false
    | _ => false

structure TrustPromptShape where
  markers : List (List String)
  accept : List TrustMove

def TRUST_PROMPTS : Harness → TrustPromptShape
  | .claude => {
      markers := [["Quick safety check", "Yes, I trust this folder"]]
      accept := [{ keys := some ["Down"], untilShown := some claudeSelected }, { keys := some ["Enter"] }] }
  | .codex => {
      markers := [["Do you trust the contents of this directory?", "Yes, continue"],
        ["Trust this folder?", "Trust and continue"]]
      accept := [{ text := some "1", untilShown := some codexSelected }, { keys := some ["Enter"] }] }
  | .cursor => {
      markers := [["Workspace Trust Required", "Trust this workspace"]]
      accept := [{ text := some "a" }] }

def showsTrustPrompt (harness : Harness) (screen : String) : Bool :=
  (TRUST_PROMPTS harness).markers.any fun set =>
    set.all fun phrase => contains (collapse (unitsOf screen)) (collapse (unitsOf phrase))

inductive TrustPolicy
  | accept
  | ask
deriving DecidableEq

structure TrustInput where
  harness : Harness
  folder : String
  pane : String
  policy : TrustPolicy

structure TrustOptions where
  pollMs : Option Int := none
  timeoutMs : Option Int := none
  stableReads : Option Nat := none
  blankReads : Option Nat := none
  keyDelayMs : Option Int := none
  attempts : Option Nat := none

namespace TrustOptions

variable (opts : TrustOptions)

def poll : Int := opts.pollMs.getD 500

def timeout : Int := opts.timeoutMs.getD 20000

def stable : Nat := opts.stableReads.getD 3

def blank : Nat := opts.blankReads.getD 6

def keyDelay : Int := opts.keyDelayMs.getD 1000

def tries : Nat := opts.attempts.getD 5

end TrustOptions

inductive TrustOutcome
  | none
  | unsettled
  | accepted
  | needsHuman (message : String)
  | stuck (message : String)
deriving DecidableEq

inductive TrustError (ε : Type)
  | thrown (e : ε)
  | outOfFuel

def TrustInput.whereText (input : TrustInput) : String :=
  input.harness.name ++ " in pane " ++ input.pane ++ " is asking whether to trust " ++ input.folder

def needsHuman (input : TrustInput) : TrustOutcome :=
  .needsHuman (input.whereText ++
    ". unit spawn does not trust a folder it did not create, so a person must answer that prompt. " ++
    "The unit is registered and its brief written; once the prompt is answered, nudge the unit to its brief.")

def stuck (input : TrustInput) : TrustOutcome :=
  .stuck (input.whereText ++
    ", and the prompt is still showing after spawn sent the keys that accept it. A person must answer it.")

/-- What a read comes to: nothing where it failed. -/
def readText {ε : Type} : Except ε (Option String) → String
  | .ok (some text) => text
  | _ => ""

section
variable {ε τ : Type} (input : TrustInput) (opts : TrustOptions)

abbrev TrustM (ε τ : Type) := Prog PaneCall (PaneCall.Res ε τ) (TrustError ε)

def readPane : TrustM ε τ String := do
  return readText (← Prog.perform .read)

def wait (ms : Int) : TrustM ε τ Unit := Prog.perform (PaneCall.sleep ms)

/-- The equal reads in a row, with one more read. -/
def sameReads (previous screen : String) (same : Nat) : Nat := if screen = previous then same + 1 else 1

def hasChanged (first screen : String) (changed : Bool) : Bool := changed || decide (screen ≠ first)

/-- The watch loop; no outcome once a read shows the prompt. -/
def watch (first : String) : Nat → Int → String → Bool → Nat → TrustM ε τ (Option TrustOutcome)
  | 0, _, _, _, _ => throw .outOfFuel
  | fuel + 1, waited, previous, changed, same =>
    if opts.timeout ≤ waited then return some .unsettled
    else do
      wait opts.poll
      let screen ← readPane
      if showsTrustPrompt input.harness screen = true then return none
      else if hasChanged first screen changed = true ∧ sameReads previous screen same ≥ opts.stable then
        return some .none
      else if hasChanged first screen changed = false ∧ jsTrim first = "" ∧
          sameReads previous screen same ≥ opts.blank then
        return some .unsettled
      else
        watch first fuel (waited + opts.poll) screen (hasChanged first screen changed) (sameReads previous screen same)

def typeMove (move : TrustMove) : TrustM ε τ Unit := do
  match move.keys with
  | some keys => orThrow .thrown (← Prog.perform (.sendKeys keys))
  | none => pure ()
  match move.text with
  | some text => orThrow .thrown (← Prog.perform (.sendText text))
  | none => pure ()

/-- `move.until ? move.until.test(read()) : otherwise`. -/
def reached (move : TrustMove) (otherwise : Bool) : TrustM ε τ Bool :=
  match move.untilShown with
  | some test => do return test (← readPane)
  | none => pure otherwise

/-- The attempts at one move. -/
def attempt (move : TrustMove) : Nat → Bool → TrustM ε τ Bool
  | 0, done => return done
  | left + 1, done =>
    if done = true then return true
    else do
      typeMove move
      wait opts.poll
      let done ← reached move true
      attempt move left done

/-- The moves in turn, until one is not done. -/
def makeMoves : List TrustMove → TrustM ε τ Bool
  | [] => return true
  | move :: moves => do
    let done ← reached move false
    if (← attempt opts move opts.tries done) = true then makeMoves moves
    else return false

/-- The prompt is gone within the reads that are left. -/
def promptCleared : Nat → TrustM ε τ Bool
  | 0 => return false
  | left + 1 => do
    let screen ← readPane
    if showsTrustPrompt input.harness screen = false then return true
    else
      wait opts.poll
      promptCleared left

def answerPrompt : TrustM ε τ TrustOutcome :=
  if input.policy = .ask then return needsHuman input
  else do
    wait opts.keyDelay
    if (← makeMoves opts (TRUST_PROMPTS input.harness).accept) = true then
      if (← promptCleared input opts opts.tries) = true then return .accepted
      else return stuck input
    else return stuck input

def answerTrustPrompt (fuel : Nat) : TrustM ε τ TrustOutcome := do
  let first ← readPane
  if showsTrustPrompt input.harness first = true then answerPrompt input opts
  else
    match ← watch input opts first fuel 0 first false 1 with
    | some outcome => return outcome
    | none => answerPrompt input opts

end

end Console

end Cyberlegion
