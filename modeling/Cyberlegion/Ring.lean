import Cyberlegion.Paths
import Cyberlegion.Pane

/-!
# Ringing a peer

`ring.ts`. Its texts are lists of UTF-16 units, since the needle is cut by units. Whether
a text sits in the input box is `isStaged` of cyber-mux, a parameter here.
-/

namespace Cyberlegion

namespace Console

open Effects

abbrev Units := List Nat

def unitsOf (s : String) : Units :=
  s.toList.flatMap fun c =>
    if c.toNat < 0x10000 then [c.toNat]
    else [0xD800 + (c.toNat - 0x10000) / 0x400, 0xDC00 + (c.toNat - 0x10000) % 0x400]

/-- What `\s` matches. -/
def unitSpace (u : Nat) : Bool :=
  (9 ≤ u ∧ u ≤ 13) ∨ (0x2000 ≤ u ∧ u ≤ 0x200A) ∨
  u ∈ [0x20, 0xA0, 0x1680, 0x2028, 0x2029, 0x202F, 0x205F, 0x3000, 0xFEFF]

/-- `text.replace(/\s+/g, ' ')`. -/
def collapse : Units → Units
  | [] => []
  | [u] => if unitSpace u = true then [0x20] else [u]
  | u :: v :: text =>
    if unitSpace u = true then (if unitSpace v = true then collapse (v :: text) else 0x20 :: collapse (v :: text))
    else u :: collapse (v :: text)

def trimUnits (text : Units) : Units := (text.dropWhile unitSpace).rdropWhile unitSpace

def NEEDLE_LEN : Nat := 40

def DEFAULT_ATTEMPTS : Nat := 10

def DEFAULT_SETTLE_MS : Int := 400

def needle (message : String) : Units := (trimUnits (collapse (unitsOf message))).take NEEDLE_LEN

def contains (text sub : Units) : Bool := text.tails.any sub.isPrefixOf

def rowsOn (screen : String) : List Units := (unitsOf screen).splitOn 10

/-- The row carries the message. -/
def carries (message : String) (row : Units) : Bool := contains (collapse row) (needle message)

def copiesOn (screen : Option String) (message : String) : Nat :=
  match screen with
  | none => 0
  | some screen =>
    if screen = "" then 0
    else if needle message = [] then 0
    else ((rowsOn screen).filter (carries message)).length

structure RingOptions where
  attempts : Option Nat := none
  settleMs : Option Int := none
  requirePosted : Bool := false

structure NudgeResult where
  taken : Bool
  resubmits : Nat
deriving DecidableEq

inductive TurnState
  | taken
  | staged
  | lost
deriving DecidableEq

inductive RingError (ε : Type)
  /-- `nudge failed: pane ${pane} no longer exists — the peer's session is gone, not busy.` -/
  | gone (pane : String)
  /-- `nudge failed: peer at pane ${pane} never took the turn — ` and, for a lost text, `the text vanished without the
  harness posting it`, else `input still staged after ${attempts} re-submit attempts` -/
  | neverTaken (pane : String) (state : TurnState) (attempts : Nat)
  | thrown (e : ε)

section
variable {ε τ : Type} (isStaged : Option String → String → Bool) (target message : String) (opts : RingOptions)

abbrev RingM (ε τ : Type) := Prog PaneCall (PaneCall.Res ε τ) (RingError ε)

def readScreen : RingM ε τ (Option String) := do
  orThrow .thrown (← Prog.perform .read)

def submit (text : Option String) : RingM ε τ Unit := do
  orThrow .thrown (← Prog.perform (.submit text))

/-- What a screen says of the turn, against the copies on screen before it. -/
def judge (before : Nat) (screen : Option String) : TurnState :=
  let copies := copiesOn screen message
  if isStaged screen message = true then (if copies ≥ before + 2 then .taken else .staged)
  else if copies > before ∨ opts.requirePosted = false then .taken
  else .lost

def settle : RingM ε τ Unit := Prog.perform (PaneCall.sleep (opts.settleMs.getD DEFAULT_SETTLE_MS))

def check (before : Nat) : RingM ε τ TurnState := do
  return judge isStaged message opts before (← readScreen)

/-- The `for` loop, with the attempts that are left. -/
def resubmit (before : Nat) : Nat → Nat → TurnState → Nat → RingM ε τ NudgeResult
  | 0, _, state, _ => throw (.neverTaken target state (opts.attempts.getD DEFAULT_ATTEMPTS))
  | left + 1, attempt, state, lostReads => do
    let lostReads ←
      if state = .staged then do
        submit none
        pure lostReads
      else if lostReads ≥ 2 then do
        submit (some message)
        pure 0
      else pure lostReads
    settle opts
    let state ← check isStaged message opts before
    if state = .taken then return { taken := true, resubmits := attempt }
    else resubmit before left (attempt + 1) state (if state = .lost then lostReads + 1 else 0)

def ringTurn : RingM ε τ NudgeResult := do
  let present ← orThrow .thrown (← Prog.perform .paneExists)
  if present = false then throw (.gone target)
  else
    let screen ← readScreen
    let before := copiesOn screen message
    submit (some message)
    settle opts
    let state ← check isStaged message opts before
    if state = .taken then return { taken := true, resubmits := 0 }
    else
      resubmit isStaged target message opts before (opts.attempts.getD DEFAULT_ATTEMPTS) 1 state
        (if state = .lost then 1 else 0)

end

end Console

end Cyberlegion
