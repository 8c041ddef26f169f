import Cyberlegion.Session

/-!
# Standing owners

The session-independent half of `identity.ts`, `presence-spawn.ts`, and `send` of
`message.ts`: durable records keyed by a handle, the unit that stands in for each,
and the mail they are sent.
-/

namespace Cyberlegion

open Effects

/-! ## Registration -/

def standingId (handle : String) : String := "standing-" ++ sanitizePane handle

def presenceLock (id : String) : String := "presence:" ++ id

/-- `home` is `none` where it keeps the record's home, `some none` where it drops it. -/
structure RegisterStandingInput where
  handle : String
  home : Option (Option StandingHome) := none

def writeStanding (ctx : Ctx) (id : String) (input : RegisterStandingInput) : HubM AgentRecord := do
  let existing ← Store.getAgent id
  let ts ← nowIso
  let rec_ : AgentRecord :=
    { id, handle := input.handle, kind := .standing, cwd := ctx.cwd, status := .active
      createdAt := (existing.map (·.createdAt)).getD ts
      lastSeen := ts
      presence := existing.bind (·.presence)
      home := input.home.getD (existing.bind (·.home)) }
  Store.putAgent rec_
  return rec_

def registerStanding (ctx : Ctx) (input : RegisterStandingInput) : HubM AgentRecord := do
  perform (.ensureMarker ctx.root)
  let id := standingId input.handle
  Store.withLock (presenceLock id) (writeStanding ctx id input)

/-! ## Presence -/

def noOwner (handle : String) : HubError :=
  .error ("no standing owner \"" ++ handle ++
    "\" — run 'cyberlegion unit register --standing --handle " ++ handle ++ "'")

def resolveStandingOwner (handle : String) : HubM String := do
  match (← perform .listAgents).find? (fun a => a.handle = handle ∧ a.kind = .standing) with
  | some rec => return rec.id
  | none => throw (noOwner handle)

/-- A standing owner by id or handle, or a service endpoint by id or by the handle it alone carries. -/
def resolveOwnerMailbox (ref : String) : HubM String := do
  match (← Store.getAgent ref).filter fun byId => byId.kind = .service ∨ byId.kind = .standing with
  | some byId => return byId.id
  | none =>
    let agents ← perform .listAgents
    if agents.any fun a => a.handle = ref ∧ a.kind = .standing then resolveStandingOwner ref
    else match agents.filter fun a => a.handle = ref ∧ a.kind = .service with
      | [service] => return service.id
      | [] => resolveStandingOwner ref
      | services =>
        throw (.error ("\"" ++ ref ++ "\" names " ++ toString services.length ++
          " service endpoints — pass an endpoint id (" ++ joinIds services ++ ")"))

/-- `loadAgent(store, id)`, or the error that there is no such owner. -/
def loadOwner (id handle : String) : HubM AgentRecord := do
  match ← Store.getAgent id with
  | some rec => return rec
  | none => throw (noOwner handle)

def claimPresence (ctx : Ctx) (handle : String) : HubM AgentRecord := do
  let id ← resolveStandingOwner handle
  let _ ← loadOwner id handle
  refuse ((← perform .probeMultiplexer) = .none) (.error "claiming a presence needs a multiplexer to open panes")
  match given (← resolveSelfId ctx) with
  | none => throw (.error "no identity in this session — run `cyberlegion unit register` first")
  | some selfId =>
    Store.withLock (presenceLock id) do
      let rec_ := { ← loadOwner id handle with presence := some selfId }
      Store.putAgent rec_
      return rec_

def clearPresence (handle : String) : HubM AgentRecord := do
  let id ← resolveStandingOwner handle
  let _ ← loadOwner id handle
  Store.withLock (presenceLock id) do
    let rec_ ← loadOwner id handle
    if rec_.presence.isSome then
      Store.putAgent { rec_ with presence := none }
      return { rec_ with presence := none }
    else return rec_

def presenceOf (rec : AgentRecord) : HubM (Option AgentRecord) :=
  match given rec.presence with
  | none => pure none
  | some unit => do return (← Store.getAgent unit).filter (·.status ≠ .exited)

def presenceBrief (handle : String) : String :=
  "\n".intercalate
    ["You stand in for the standing owner \"" ++ handle ++
        "\": you are its presence, spawned because mail was delivered to it and no unit was standing in.",
      "",
      "Read its mail: cyberlegion mail inbox --owner " ++ handle ++ ", then cyberlegion mail read --owner " ++ handle ++
        " <id>.",
      "Ack what you have handled: cyberlegion mail ack --owner " ++ handle ++ " <id>."]

/-- What a delivery came to: the live presence it found, or the unit it spawned, unbound
again where its trust prompt never cleared. -/
inductive PresenceSpawn
  | existing (presence : AgentRecord)
  | spawned (presence : AgentRecord) (pane : String) (unbound : Bool)

/-- Release the presence again if `unit` is still it. -/
def unbindPresence (ownerId unit : String) : HubM Bool := do
  match (← Store.getAgent ownerId).filter (·.presence = some unit) with
  | none => return false
  | some latest => do
    Store.putAgent { latest with presence := none }
    return true

/-- The spawn of a unit into the home of a standing owner. -/
def spawnInHome (ctx : Ctx) (owner : AgentRecord) (home : StandingHome) : HubM SpawnResult := do
  match ← perform (.resolveSpawnLaunch home) with
  | none => throw (.error "the agent definition does not resolve")
  | some launched =>
    spawn ctx
      { harness := launched.harness, command := launched.command, briefInstructions := launched.briefInstructions
        brief := some (presenceBrief owner.handle), cwd := some home.dir, cwdOwnRepo := true, «at» := some .workspace }

/-- What a delivery does under the presence lock. -/
def deliver (ctx : Ctx) (owner : AgentRecord) (home : StandingHome) : HubM PresenceSpawn := do
  match ← Store.getAgent owner.id with
  | none => throw (.error ("standing owner \"" ++ owner.handle ++ "\" is gone"))
  | some current =>
    match ← presenceOf current with
    | some live => return .existing live
    | none =>
      let res ← spawnInHome ctx owner home
      Store.putAgent { current with presence := some res.agent.id }
      match ← perform (.settleSpawnTrust res.pane) with
      | none => do
        let _ ← unbindPresence owner.id res.agent.id
        throw (.error "the trust prompt could not be settled")
      | some (.blocked _) => return .spawned res.agent res.pane (← unbindPresence owner.id res.agent.id)
      | some .settled => return .spawned res.agent res.pane false

-- the ring that follows is typed into the pane once the lock is released
def spawnPresence (ctx : Ctx) (owner : AgentRecord) : HubM PresenceSpawn :=
  match owner.home with
  | none => throw (.error ("standing owner \"" ++ owner.handle ++ "\" has no home"))
  | some home => Store.withLock (presenceLock owner.id) (deliver ctx owner home)

/-! ## Mail -/

/-- `String(n).padStart(width, '0')` -/
def padStart (n width : Nat) : String :=
  let digits := toString n
  String.ofList (List.replicate (width - digits.length) '0') ++ digits

/-- `new Date(ms).toISOString()`, in the proleptic Gregorian calendar. -/
def toISOString (ms : Int) : String :=
  let days := ms / 86400000 + 719468
  let ofDay := (ms % 86400000).toNat
  let era := days / 146097
  let dayOfEra := (days % 146097).toNat
  let yearOfEra := (dayOfEra - dayOfEra / 1460 + dayOfEra / 36524 - dayOfEra / 146096) / 365
  -- years and months count from March
  let dayOfYear := dayOfEra - (365 * yearOfEra + yearOfEra / 4 - yearOfEra / 100)
  let month := (5 * dayOfYear + 2) / 153
  let day := dayOfYear - (153 * month + 2) / 5 + 1
  let year := era * 400 + yearOfEra + (if month < 10 then 0 else 1)
  let yearText :=
    if 0 ≤ year ∧ year ≤ 9999 then padStart year.toNat 4
    else (if 0 ≤ year then "+" else "-") ++ padStart year.natAbs 6
  yearText ++ "-" ++ padStart (if month < 10 then month + 3 else month - 9) 2 ++ "-" ++ padStart day 2 ++ "T" ++
    padStart (ofDay / 3600000) 2 ++ ":" ++ padStart (ofDay / 60000 % 60) 2 ++ ":" ++ padStart (ofDay / 1000 % 60) 2 ++
    "." ++ padStart (ofDay % 1000) 3 ++ "Z"

example : toISOString 951782399999 = "2000-02-28T23:59:59.999Z" := by decide +kernel

structure SendInput where
  fromId : String
  «to» : String
  subject : Option String := none
  body : String
  thread : Option String := none
  replyTo : Option String := none

/-- The handle part of `resolveRecipient`, over the records it listed. -/
def recipientAmong («to» : String) (agents : List AgentRecord) : HubM String := do
  let m := matchHandle agents «to»
  match ← pickLive «to» m.live with
  | some rec => return rec.id
  | none => throw (unaddressable «to» m.exited "id and handle")

def resolveRecipient («to» : String) : HubM String := do
  match ← Store.getAgent «to» with
  | some _ => return «to»
  | none => recipientAmong «to» (← perform .listAgents)

def send (input : SendInput) : HubM Message := do
  let toId ← resolveRecipient input.to
  let sender ← Store.getAgent input.fromId
  let ts ← perform .now
  let hex ← perform .randomToken
  let _ ← iso ts
  let msg : Message :=
    { id := toString ts ++ "-" ++ hex, sender := input.fromId
      fromHandle := (sender.map (·.handle)).getD input.fromId
      «to» := toId, subject := given input.subject, body := input.body
      thread := given input.thread, replyTo := given input.replyTo
      ts, sentAt := toISOString ts }
  perform (.putMessage toId msg)
  return msg

/-- The message that `send` writes. -/
def messageOf (input : SendInput) (toId : String) (sender : Option AgentRecord) (ts : Int) (hex : String) : Message :=
  { id := toString ts ++ "-" ++ hex, sender := input.fromId
    fromHandle := (sender.map (·.handle)).getD input.fromId
    «to» := toId, subject := given input.subject, body := input.body
    thread := given input.thread, replyTo := given input.replyTo
    ts, sentAt := toISOString ts }

theorem send_eq (input : SendInput) : send input = do
    let toId ← resolveRecipient input.to
    let sender ← Store.getAgent input.fromId
    let ts ← perform .now
    let hex ← perform .randomToken
    let _ ← iso ts
    perform (.putMessage toId (messageOf input toId sender ts hex))
    return messageOf input toId sender ts hex := rfl

end Cyberlegion
