import Cyberlegion.Standing
import Cyberlegion.Ring

/-!
# The doorbell

`doorbell.ts`. The store, the spawner of an owner's home and the multiplexer may each
fail on any call; `message` is the text of what they throw. A `ring` is `ringTurn` under
the draft guard.
-/

namespace Cyberlegion

namespace Console

open Effects

def DELIVERY_DOORBELL : String := "You have unread mail — check your inbox."

def spawnDoorbell (briefPath : String) : String := "Read your brief at " ++ briefPath ++ ", then begin work."

def resumeDoorbell (briefPath : String) : String :=
  "Your session was restarted with its conversation resumed — continue your work. " ++
    "If you have no earlier conversation, read your brief at " ++ briefPath ++ ", then begin work."

/-- `PresenceSpawn`, with the fields the doorbell reads. -/
inductive HomeSpawn
  | existing (presence : AgentRecord)
  | spawned (presence : AgentRecord) (pane : String) (rung : Bool) (warning trustBlocked : Option String)

inductive WakeCall
  | getAgent (id : String)
  | findPaneByAgentId (id : String)
  | getMainPane
  | spawnHome (owner : AgentRecord)
  | getAdapter
  | isPaneFocused (pane : String)
  | ring (pane : String) (harness : Option String) (doorbell : String) (requirePosted : Bool)

structure WakeInput where
  toId : String
  fromId : String
  noNudge : Bool := false
  /-- Whether the caller injects a spawner. -/
  spawnHome : Bool := false

structure WakeResult where
  rung : Bool
  spawned : Option String := none
  pane : Option String := none
  warning : Option String := none
deriving DecidableEq

structure WakeSpawnInput where
  target : String
  briefPath : String
  noWake : Bool := false
  resumed : Bool := false
  harness : Option String := none

section
variable (ε : Type)

abbrev WakeCall.Res : WakeCall → Type
  | .getAgent _ => Except ε (Option AgentRecord)
  | .findPaneByAgentId _ | .getMainPane => Except ε (Option String)
  | .spawnHome _ => Except ε HomeSpawn
  | .isPaneFocused _ => Except ε (Option Bool)
  | .getAdapter | .ring _ _ _ _ => Except ε Unit

abbrev WakeM : Type → Type := Prog WakeCall (WakeCall.Res ε) ε

end

section
variable {ε α : Type} (message : ε → String)

def answered : Except ε α → WakeM ε α
  | .ok a => .ret a
  | .error e => .throw e

def loadAgent (id : String) : WakeM ε (Option AgentRecord) :=
  .call (.getAgent id) answered

def presenceOf (rec : AgentRecord) : WakeM ε (Option AgentRecord) :=
  match given rec.presence with
  | none => pure none
  | some unit => do return (← loadAgent unit).filter (·.status ≠ .exited)

def homeSpawnWarning (handle reason : String) : String :=
  let hint :=
    if contains (unitsOf reason) (unitsOf "session backend") then
      " — a sender outside any multiplexer pane can reach a running one by setting CYBER_MUX=herdr or CYBER_MUX=tmux"
    else ""
  "standing owner \"" ++ handle ++ "\" has a home, but no presence could be spawned: " ++ reason ++ hint

def paneOf (id : String) : WakeM ε (Option String) := do
  match (← loadAgent id).bind (·.pane) with
  | some pane => return some pane.id
  | none => .call (.findPaneByAgentId id) answered

/-- `getAdapter().isPaneFocused(…)`, where an error is no answer. -/
def paneFocused (pane : String) : WakeM ε (Option Bool) :=
  tryCatch
    (do
      .call .getAdapter answered
      .call (.isPaneFocused pane) answered)
    fun _ => pure none

def ringPane (pane : String) (harness : Option String) (doorbell : String) (requirePosted : Bool) :
    WakeM ε WakeResult :=
  tryCatch
    (do
      .call .getAdapter answered
      .call (.ring pane harness doorbell requirePosted) answered
      return { rung := true, pane })
    fun err => pure { rung := false, pane, warning := message err }

/-- The gate and the ring, once the pane is known not to be the sender's own. -/
def ringGated (pane : String) (harness : Option String) (focusGated : Bool) : WakeM ε WakeResult := do
  if focusGated then
    if (← paneFocused pane) = some false then return { rung := false, pane }
    else ringPane message pane harness DELIVERY_DOORBELL false
  else ringPane message pane harness DELIVERY_DOORBELL false

def ringResolved (fromId : String) (pane harness : Option String) (focusGated : Bool) : WakeM ε WakeResult := do
  match given pane with
  | none => return { rung := false }
  | some pane =>
    if some pane = (← paneOf fromId) then return { rung := false }
    else ringGated message pane harness focusGated

def WakeResult.after (spawnWarning : String) (result : WakeResult) : WakeResult :=
  { result with
    warning := match given result.warning with
      | some warning => spawnWarning ++ "; " ++ warning
      | none => spawnWarning }

def wakeUnit (fromId : String) (unit : AgentRecord) : WakeM ε WakeResult := do
  ringResolved message fromId (← paneOf unit.id) unit.harness false

def wakeMain (fromId : String) : WakeM ε WakeResult := do
  ringResolved message fromId (← .call .getMainPane answered) none true

/-- The delivery to a standing owner whose presence `presenceOf` does not find. -/
def wakeHome (fromId : String) (owner : AgentRecord) : WakeM ε WakeResult := do
  match ← (.call (.spawnHome owner) .ret : WakeM ε (Except ε HomeSpawn)) with
  | .ok (.existing presence) => wakeUnit message fromId presence
  | .ok (.spawned presence pane rung warning trustBlocked) =>
    return { rung, pane, spawned := presence.id, warning := given (trustBlocked <|> warning) }
  | .error err => .after (homeSpawnWarning owner.handle (message err)) <$> wakeMain message fromId

def wakeOwner (input : WakeInput) (owner : AgentRecord) : WakeM ε WakeResult := do
  match ← presenceOf owner with
  | some presenceUnit => wakeUnit message input.fromId presenceUnit
  | none =>
    if owner.home.isSome ∧ input.spawnHome then wakeHome message input.fromId owner
    else wakeMain message input.fromId

def wakeRecipient (input : WakeInput) : WakeM ε WakeResult := do
  if input.noNudge then return { rung := false }
  else match ← loadAgent input.toId with
    | none => return { rung := false }
    | some recipient =>
      if recipient.kind = .standing then wakeOwner message input recipient
      else wakeUnit message input.fromId recipient

def wakeSpawn (input : WakeSpawnInput) : WakeM ε WakeResult :=
  if input.noWake then pure { rung := false }
  else
    let doorbell := (if input.resumed then resumeDoorbell else spawnDoorbell) input.briefPath
    ringPane message input.target input.harness doorbell true

end

end Console

end Cyberlegion
