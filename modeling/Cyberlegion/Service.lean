import Cyberlegion.Project

/-!
# Project services

`service.ts`: one named role inside a registered project, owned by at most one unit
at a time. Every change of ownership runs under the service's lock; a change of
authority raises the lease's generation.
-/

namespace Cyberlegion

open Effects

/-- `isLive` overrides the default `sessionLive`. -/
structure ServiceCtx extends Ctx where
  isLive : Option (AgentRecord → Bool) := none

inductive ServiceHealth
  | vacant | starting | expired | healthy | unhealthy
deriving DecidableEq

inductive Control
  | pane | none
deriving DecidableEq

structure ServiceView where
  project : ProjectRecord
  endpoint : AgentRecord
  lease : ServiceLease
  owner : Option AgentRecord := none
  health : ServiceHealth
  control : Control
  note : Option String := none
deriving DecidableEq

inductive AcquireResult
  | resolved (lease : ServiceLease) (view : ServiceView)
  | starting (lease : ServiceLease) (view : ServiceView)
  | reserved (lease : ServiceLease) (view : ServiceView) (token : String)
deriving DecidableEq

def DEFAULT_RESERVATION_TTL_MS : Int := 5 * 60000

/-- `/^[a-z0-9][a-z0-9_-]{0,62}$/` -/
def isServiceName (name : String) : Bool :=
  let lead (c : Char) : Bool := ('a' ≤ c ∧ c ≤ 'z') ∨ ('0' ≤ c ∧ c ≤ '9')
  match name.toList with
  | [] => false
  | c :: cs => lead c ∧ cs.length ≤ 62 ∧ cs.all fun c => lead c ∨ c = '_' ∨ c = '-'

def assertServiceName (name : String) : HubM Unit :=
  if isServiceName name then pure ()
  else throw (.error (s!"invalid service name \"{name}\" — " ++
    "use lowercase letters, digits, \"-\" or \"_\" (max 63)"))

def serviceEndpointId (projectId name : String) : String := s!"svc-{projectId}-{name}"

def lockName (projectId name : String) : String := s!"service-{projectId}-{name}"

def isLive (ctx : ServiceCtx) (unit : AgentRecord) : HubM Bool :=
  if unit.status = .exited then return false
  else match ctx.isLive with
    | some f => return f unit
    | none => sessionLive unit

def ensureEndpoint (ctx : ServiceCtx) (project : ProjectRecord) (name : String) : HubM AgentRecord := do
  let id := serviceEndpointId project.id name
  match ← Store.getAgent id with
  | some existing => return existing
  | none =>
    perform (.ensureMarker ctx.root)
    let ts ← nowIso
    let rec_ : AgentRecord :=
      { id, handle := s!"{name}@" ++ project.name, kind := .service, service := some (project.id, name)
        cwd := project.root, status := .active, createdAt := ts, lastSeen := ts }
    Store.putAgent rec_
    return rec_

/-- `owner.pane || findPaneByAgentId(owner.id) ? 'pane' : 'none'` -/
def controlOf (owner : AgentRecord) : HubM Control :=
  if owner.pane.isSome then return .pane
  else do
    match ← perform (.findPaneByAgentId owner.id) with
    | none | some "" => return .none
    | some _ => return .pane

def view (ctx : ServiceCtx) (project : ProjectRecord) (endpoint : AgentRecord) (lease : ServiceLease) :
    HubM ServiceView := do
  match lease.state with
  | .vacant => return { project, endpoint, lease, health := .vacant, control := .none }
  | .reserved =>
    let now ← perform .now
    let expired := lease.reservation.any fun r => r.expiresAt < now
    return { project, endpoint, lease, control := .none
             health := if expired then .expired else .starting
             note := if expired then
               some "the reservation expired without a bound owner; the next acquire takes over" else none }
  | .active =>
    let owner ← (match lease.holder with
      | some holder => Store.getAgent holder
      | none => pure none)
    match owner with
    | none =>
      return { project, endpoint, lease, health := .unhealthy, control := .none
               note := some "the owner has no unit record" }
    | some owner =>
      let control ← controlOf owner
      if ← isLive ctx owner then
        return { project, endpoint, lease, owner := some owner, health := .healthy, control
                 note := if control = .none then
                   some ("the owner resolves, but its session control is not recoverable from here " ++
                     "(no multiplexer pane — e.g. a native subagent only its parent can drive)") else none }
      else
        return { project, endpoint, lease, owner := some owner, health := .unhealthy, control
                 note := some "the owner session is gone" }

def vacantLease (projectId name : String) : HubM ServiceLease := do
  return { project := projectId, service := name, endpoint := serviceEndpointId projectId name
           generation := 0, state := .vacant, updatedAt := ← nowIso }

structure Loaded where
  project : ProjectRecord
  endpoint : AgentRecord
  lease : ServiceLease

def load (ctx : ServiceCtx) (projectRef name : String) (create : Bool) : HubM Loaded := do
  assertServiceName name
  let project ← resolveProject ctx.toCtx projectRef
  let lease ← Store.getServiceLease project.id name
  let endpoint ← Store.getAgent (serviceEndpointId project.id name)
  match lease, endpoint with
  | some lease, some endpoint => return { project, endpoint, lease }
  | lease, _ =>
    if create then
      let endpoint ← ensureEndpoint ctx project name
      let lease ← (match lease with
        | some lease => pure lease
        | none => vacantLease project.id name)
      return { project, endpoint, lease }
    else throw (.error (s!"no service \"{name}\" in project " ++ project.name ++ " (" ++ project.id ++ ")"))

/-- Run `fn` on the service's current state under its lock. -/
def transition {α : Type} (ctx : ServiceCtx) (projectRef name : String) (create : Bool) (fn : Loaded → HubM α) :
    HubM α := do
  assertServiceName name
  let project ← resolveProject ctx.toCtx projectRef
  Store.withLock (lockName project.id name) (load ctx project.id name create >>= fn)

def write (lease : ServiceLease) : HubM ServiceLease := do
  let next := { lease with updatedAt := ← nowIso }
  Store.putServiceLease next
  return next

def stale {α : Type} (message : String) : HubM α := throw (.ownership .stale message)

def resolveService (ctx : ServiceCtx) (projectRef name : String) : HubM ServiceView := do
  let s ← load ctx projectRef name false
  view ctx s.project s.endpoint s.lease

/-- A `ttlMs` that is not finite puts the expiry out of the range of dates, as a large one does. -/
structure AcquireInput where
  «by» : Option String := none
  ttlMs : Option Int := none
  force : Option Nat := none

/-- The end of `acquireService`: a reservation under a new generation. -/
def reserve (ctx : ServiceCtx) (name : String) (input : AcquireInput) (s : Loaded) : HubM AcquireResult := do
  let now ← perform .now
  let token ← perform .randomToken
  let «at» ← iso now
  let expiresAt ← iso (now + input.ttlMs.getD DEFAULT_RESERVATION_TTL_MS)
  let next ← write
    { project := s.project.id, service := name, endpoint := s.endpoint.id
      generation := s.lease.generation + 1, state := .reserved
      reservation := some
        { token, «by» := input.by.filter (· ≠ ""), «at», expiresAt, forced := input.force.isSome }
      updatedAt := «at» }
  return .reserved next (← view ctx s.project s.endpoint next) token

def acquireService (ctx : ServiceCtx) (projectRef name : String) (input : AcquireInput) : HubM AcquireResult :=
  transition ctx projectRef name true fun s => do
    let current ← view ctx s.project s.endpoint s.lease
    match input.force with
    | some generation =>
      if generation ≠ s.lease.generation then
        stale (s!"cannot force: generation {generation} is not the current " ++ toString s.lease.generation)
      else reserve ctx name input s
    | none =>
      match current.health with
      | .healthy => return .resolved s.lease current
      | .starting => return .starting s.lease current
      | _ => reserve ctx name input s

def liveUnit (ctx : ServiceCtx) (id : String) : HubM AgentRecord := do
  match ← Store.getAgent id with
  | none => throw (.ownership .unknownUnit s!"no unit \"{id}\"")
  | some unit =>
    if ← isLive ctx unit then return unit
    else throw (.ownership .unitNotLive s!"unit \"{id}\" has no live session")

structure BindInput where
  generation : Nat
  token : String
  unit : String

def bindService (ctx : ServiceCtx) (projectRef name : String) (input : BindInput) : HubM ServiceView :=
  transition ctx projectRef name false fun s => do
    let lease := s.lease
    if lease.state ≠ .reserved ∨ lease.generation ≠ input.generation ∨
        lease.reservation.map (·.token) ≠ some input.token then
      stale ("reservation for generation " ++ toString input.generation ++ " is no longer current (now " ++
        lease.state.name ++ " at " ++ toString lease.generation ++ ")")
    else
      let _ ← liveUnit ctx input.unit
      let next ← write
        { project := lease.project, service := lease.service, endpoint := lease.endpoint
          generation := lease.generation, state := .active, holder := some input.unit, updatedAt := lease.updatedAt }
      view ctx s.project s.endpoint next

structure ReleaseInput where
  generation : Nat
  token : Option String := none
  unit : Option String := none

def ReleaseInput.matches (input : ReleaseInput) (lease : ServiceLease) : Bool :=
  lease.generation = input.generation ∧
    ((lease.state = .reserved ∧ input.token.isSome ∧ lease.reservation.map (·.token) = input.token) ∨
      (lease.state = .active ∧ input.unit.isSome ∧ lease.holder = input.unit))

def releaseService (ctx : ServiceCtx) (projectRef name : String) (input : ReleaseInput) : HubM ServiceView :=
  transition ctx projectRef name false fun s => do
    let lease := s.lease
    if input.matches lease then
      let next ← write
        { project := lease.project, service := lease.service, endpoint := lease.endpoint
          generation := lease.generation, state := .vacant, updatedAt := lease.updatedAt }
      view ctx s.project s.endpoint next
    else
      stale ("nothing to release at generation " ++ toString input.generation ++ " (now " ++
        lease.state.name ++ " at " ++ toString lease.generation ++ ")")

structure HandoffInput where
  generation : Nat
  source : String
  target : String

def handoffService (ctx : ServiceCtx) (projectRef name : String) (input : HandoffInput) : HubM ServiceView :=
  transition ctx projectRef name false fun s => do
    let lease := s.lease
    if lease.state ≠ .active ∨ lease.generation ≠ input.generation ∨ lease.holder ≠ some input.source then
      stale ("\"" ++ input.source ++ "\" is not the owner at generation " ++ toString input.generation)
    else
      let _ ← liveUnit ctx input.target
      let next ← write { lease with generation := lease.generation + 1, holder := some input.target }
      view ctx s.project s.endpoint next

structure OwnerInput where
  unit : String
  generation : Nat

def verifyOwnership (ctx : ServiceCtx) (projectRef name : String) (input : OwnerInput) : HubM ServiceView := do
  let s ← load ctx projectRef name false
  let lease := s.lease
  if lease.state ≠ .active ∨ lease.holder ≠ some input.unit ∨ lease.generation ≠ input.generation then
    stale ("\"" ++ input.unit ++ "\" at generation " ++ toString input.generation ++ " is not the owner (now " ++
      lease.state.name ++ ((lease.holder.map (" by " ++ ·)).getD "") ++ " at " ++ toString lease.generation ++ ")")
  else view ctx s.project s.endpoint lease

/-! ## Calls -/

inductive ServiceOp
  | acquire (input : AcquireInput)
  | bind (input : BindInput)
  | release (input : ReleaseInput)
  | handoff (input : HandoffInput)
  | verify (input : OwnerInput)

structure ServiceCall where
  ctx : ServiceCtx
  projectRef : String
  name : String
  op : ServiceOp

inductive ServiceAnswer
  | acquired (result : AcquireResult)
  | viewed (view : ServiceView)
deriving DecidableEq

def AcquireResult.lease : AcquireResult → ServiceLease
  | .resolved lease _ => lease
  | .starting lease _ => lease
  | .reserved lease _ _ => lease

def ServiceAnswer.lease : ServiceAnswer → ServiceLease
  | .acquired result => result.lease
  | .viewed view => view.lease

def ServiceCall.prog (c : ServiceCall) : HubM ServiceAnswer :=
  match c.op with
  | .acquire input => .acquired <$> acquireService c.ctx c.projectRef c.name input
  | .bind input => .viewed <$> bindService c.ctx c.projectRef c.name input
  | .release input => .viewed <$> releaseService c.ctx c.projectRef c.name input
  | .handoff input => .viewed <$> handoffService c.ctx c.projectRef c.name input
  | .verify input => .viewed <$> verifyOwnership c.ctx c.projectRef c.name input

end Cyberlegion
