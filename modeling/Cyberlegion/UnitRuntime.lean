import Cyberlegion.Session

/-!
# The runtime of a unit

`unit-runtime.ts`: stop, restart and rebind the session of a unit that stays, and
record its conversation.
-/

namespace Cyberlegion

open Effects

def Kind.hasRuntime (kind : Kind) : Bool := kind ≠ .standing ∧ kind ≠ .service

def assertHasRuntime (rec : AgentRecord) (ref : String) : HubM Unit :=
  refuse (¬ rec.kind.hasRuntime) (.error ("\"" ++ ref ++ "\" is a " ++ rec.kind.name ++
    " record — it has no runtime to stop, restart, or rebind"))

def assertNotSelf (ctx : Ctx) (rec : AgentRecord) (verb : String) : HubM Unit := do
  refuse ((← resolveSelfId ctx) = some rec.id) (.error ("a unit cannot " ++ verb ++
    " its own session — run unit " ++ verb ++ " " ++ rec.handle ++ " from another session"))

/-- The pane of the record's own locator, else one the pane index keeps under its id. -/
def runtimePane (rec : AgentRecord) : HubM (Option String) :=
  match rec.pane with
  | some pane => pure (some pane.id)
  | none => perform (.findPaneByAgentId rec.id)

def paneAdapter (rec : AgentRecord) : HubM (Option StorableMux) :=
  match rec.pane with
  | some pane => pure (some pane.mux)
  | none => do return (← perform .probeMultiplexer).storable

def markStopped (rec : AgentRecord) (pane : Option String) : HubM AgentRecord := do
  let stopped := { rec with status := .stopped, pane := none }
  Store.putAgent stopped
  match pane with
  | some pane => perform (.removePaneIndex pane)
  | none => pure ()
  return stopped

structure Stopped where
  agent : AgentRecord
  pane : Option String := none
  verified : Bool

/-- The end of `stopRuntime`, once the pane is known. -/
def endPane (rec : AgentRecord) (pane : String) : Option StorableMux → HubM Stopped
  | none => do return { agent := ← markStopped rec (some pane), pane := some pane, verified := false }
  | some mux => do
    perform (.teardown mux pane)
    let listed ← perform (.listPanes mux)
    refuse (listed.any (·.id = pane)) (.error ("stop did not take effect — the backend still lists pane " ++ pane ++
      " for unit \"" ++ rec.handle ++ "\"; its record is unchanged"))
    return { agent := ← markStopped rec (some pane), pane := some pane, verified := !listed.isEmpty }

def stopRuntime (rec : AgentRecord) : HubM Stopped := do
  match given (← runtimePane rec) with
  | none => return { agent := ← markStopped rec none, verified := false }
  | some pane => endPane rec pane (← paneAdapter rec)

structure StopResult extends Stopped where
  alreadyStopped : Bool

def stopUnit (ctx : Ctx) (ref : String) : HubM StopResult := do
  let rec_ ← resolveAgent ref
  assertHasRuntime rec_ ref
  assertNotSelf ctx rec_ "stop"
  if rec_.status = .stopped then return { agent := rec_, verified := true, alreadyStopped := true }
  else return { ← stopRuntime rec_ with alreadyStopped := false }

structure RestartResult where
  agent : AgentRecord
  previousPane : Option String := none
  pane : String
  launch : Option String
  resumed : Bool

/-- The stop step of a restart. -/
def stopFirst (rec : AgentRecord) : HubM (AgentRecord × Option String) :=
  if rec.status = .stopped then return (rec, none)
  else do
    let res ← stopRuntime rec
    return (res.agent, res.pane)

/-- The backend and the pane of a new session for the stopped unit. -/
def openAgain (ctx : Ctx) (stopped : AgentRecord) (command : String) (resume : Option String) :
    HubM (StorableMux × String) := do
  let «at» : Placement := if stopped.worktree.isSome then .workspace else .tab
  let mux ← selectSessionAdapter
  let _ ← (if «at» = .workspace then perform (.readBrief stopped.id) else pure none)
  let line := composeLaunchLine ctx stopped.id (resume.getD command) true (resume.map fun _ => command)
  return (mux, ← openSession mux stopped.cwd line «at»)

/-- The open step of a restart: the session's multiplexer, its pane, and whether it resumes. -/
def openStopped (ctx : Ctx) (stopped : AgentRecord) (harness : String) (fresh : Bool) :
    HubM (StorableMux × String × Bool) := do
  let launch := stopped.launch.or (launchOf harness)
  let command := launch.getD harness
  let resume := if fresh then none else (given stopped.conversation).bind (resumeLaunch harness command)
  match ← tryCatch (Except.ok <$> openAgain ctx stopped command resume) (fun e => pure (.error e)) with
  | .ok (mux, pane) => return (mux, pane, resume.isSome)
  | .error err =>
    throw (.error ("restart could not open a session — unit \"" ++ stopped.handle ++
      "\" is stopped, with its inbox, brief, and worktree kept; rerun unit restart " ++ stopped.handle ++ ": " ++
      err.message))

/-- Every refusal of a restart, before anything is torn down. -/
def assertRestarts (ctx : Ctx) (rec : AgentRecord) (ref : String) : HubM Unit := do
  assertHasRuntime rec ref
  assertNotSelf ctx rec "restart"
  refuse (rec.harness.getD "" = "" ∨ ¬ inLaunchMap (rec.harness.getD ""))
    (.error ("unit \"" ++ rec.handle ++ "\" has harness \"" ++ rec.harness.getD "" ++
      "\", not in the launch map (" ++ launchKeys ++ ") — cannot restart it"))
  refuse (¬ (← perform (.existsSync rec.cwd)))
    (.error ("unit \"" ++ rec.handle ++ "\" cannot restart — its cwd " ++ rec.cwd ++
      " is gone; spawn a new unit instead"))

/-- The open, save and index steps of a restart. -/
def startStopped (ctx : Ctx) (stopped : AgentRecord) (previousPane : Option String) (fresh : Bool) :
    HubM RestartResult := do
  let harness := stopped.harness.getD ""
  let (mux, pane, resumed) ← openStopped ctx stopped harness fresh
  let bound := { stopped with status := .active, pane := some { mux, id := pane }, lastSeen := ← nowIso }
  Store.putAgent bound
  perform (.putPaneIndex pane stopped.id)
  return { agent := bound, previousPane, pane, launch := stopped.launch.or (launchOf harness), resumed }

def restartUnit (ctx : Ctx) (ref : String) (fresh : Bool) : HubM RestartResult := do
  let rec_ ← resolveAgent ref
  assertRestarts ctx rec_ ref
  let (stopped, previousPane) ← stopFirst rec_
  startStopped ctx stopped previousPane fresh

inductive Liveness
  | live | gone | unknown | stopped | exited | none
deriving DecidableEq

def probeLiveness (rec : AgentRecord) : HubM Liveness := do
  if ¬ rec.kind.hasRuntime then return .none
  else if rec.status = .stopped then return .stopped
  else if rec.status = .exited then return .exited
  else
    match given (← runtimePane rec) with
    | none => return .unknown
    | some pane =>
      match ← paneAdapter rec with
      | none => return .unknown
      | some mux =>
        let listed ← perform (.listPanes mux)
        if listed = [] then return .unknown
        else if listed.any (·.id = pane) then return .live
        else return .gone

def AgentStatus.running (status : AgentStatus) : Bool := status ≠ .stopped ∧ status ≠ .exited

/-- The record already bears the caller's pane, and the index agrees. -/
def alreadyBound (rec : AgentRecord) (cur : CurrentPane) : HubM Bool := do
  if rec.pane.any fun pane => pane.mux = cur.mux ∧ pane.id = cur.pane then
    return (← perform (.resolvePaneId cur.pane)) = some rec.id
  else return false

/-- The running unit other than `rec` that holds the pane. -/
def holderOf (rec : AgentRecord) (pane : String) : HubM (Option AgentRecord) := do
  match given (← perform (.resolvePaneId pane)) with
  | none => return none
  | some holderId =>
    if holderId = rec.id then return none
    else return (← Store.getAgent holderId).filter (·.status.running)

def assertUnheld (rec : AgentRecord) (pane : String) : HubM Unit := do
  match ← holderOf rec pane with
  | some holder => throw (.error ("this pane belongs to unit \"" ++ holder.handle ++ "\" (" ++ holder.id ++
      ") — rebind never takes another unit's pane"))
  | none => return

def assertNotRunning (rec : AgentRecord) (oldPane : Option String) : HubM Unit := do
  let liveness ← probeLiveness rec
  refuse (oldPane.isSome ∧ (liveness = .live ∨ liveness = .unknown))
    (.error ("unit \"" ++ rec.handle ++ "\" may still be running in pane " ++ oldPane.getD "" ++
      " — stop it first (unit stop " ++ rec.handle ++ ")"))

/-- The writes of a rebind. -/
def bindPane (rec : AgentRecord) (cur : CurrentPane) (oldPane : Option String) : HubM AgentRecord := do
  let bound := { rec with status := .active, pane := some { mux := cur.mux, id := cur.pane }, lastSeen := ← nowIso }
  Store.putAgent bound
  match oldPane with
  | some old => perform (.removePaneIndex old)
  | none => pure ()
  perform (.putPaneIndex cur.pane rec.id)
  return bound

/-- A rebind to the caller's pane, once the old one is known. -/
def rebindTo (rec : AgentRecord) (cur : CurrentPane) (oldPane : Option String) : HubM AgentRecord := do
  if ← alreadyBound rec cur then return rec
  else
    assertUnheld rec cur.pane
    assertNotRunning rec oldPane
    bindPane rec cur oldPane

def rebindUnit (ctx : Ctx) (ref : String) : HubM AgentRecord := do
  let rec_ ← resolveAgent ref
  assertHasRuntime rec_ ref
  match storablePane ctx.env with
  | none => throw (.error "unit rebind needs to run inside a tmux or herdr pane — there is no pane to bind")
  | some cur => rebindTo rec_ cur ((given (← runtimePane rec_)).filter (· ≠ cur.pane))

/-- `session` is the hook's `session_id`, if its input has a text there. -/
def recordConversation (ctx : Ctx) (session : Option String) : HubM Unit := do
  match given session with
  | none => return
  | some id =>
    match given (← resolveSelfId ctx) with
    | none => return
    | some meId =>
      match ← Store.getAgent meId with
      | none => return
      | some rec_ =>
        if ¬ rec_.kind.hasRuntime ∨ rec_.conversation = some id then return
        else Store.putAgent { rec_ with conversation := some id }

end Cyberlegion
