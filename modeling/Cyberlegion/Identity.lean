import Cyberlegion.Hub

/-!
# Identity

`identity.ts`: who the caller is, registration, references, last-seen, and the
reconcile and prune of dead records.
-/

namespace Cyberlegion

open Effects

inductive Harness
  | claude | cursor | codex
deriving DecidableEq

def Harness.name : Harness → String
  | .claude => "claude"
  | .cursor => "cursor"
  | .codex => "codex"

/-- What the functions read of the caller's environment: `currentPane` and the
variables themselves (an unset one is empty). -/
structure Env where
  currentPane : Option (Mux × String) := none
  CYBERLEGION_AGENT_ID : String := ""
  CLAUDECODE : String := ""
  CLAUDE_CODE_ENTRYPOINT : String := ""
  TMUX : Option String := none
  TMUX_PANE : String := ""
  keys : List String := []

/-- `IdContext`, with the process's working directory and the hub's root. -/
structure Ctx where
  env : Env
  cwd : String := "/"
  root : String := "/hub"
  self : Bool := false
  sha256 : String → String := id

structure CurrentPane where
  mux : StorableMux
  pane : String
deriving DecidableEq

def storablePane (env : Env) : Option CurrentPane :=
  env.currentPane.bind fun cur => cur.1.storable.map fun mux => ⟨mux, cur.2⟩

/-! ## The caller -/

/-- `detectHarness`'s substring probe, in its order. -/
def probeHarness (text : String) : Option String :=
  if includes text "cursor" then some "cursor"
  else if includes text "codex" then some "codex"
  else if includes text "claude" then some "claude"
  else none

def detectHarness (ctx : Ctx) (explicit : Option String) : HubM (Option String) := do
  match explicit with
  | some h =>
    if h ≠ "" then
      if h = "claude" ∨ h = "cursor" ∨ h = "codex" then return some h
      throw (.error s!"unknown --harness \"{h}\" (expected claude | cursor | codex)")
  | none => pure ()
  if ctx.env.CLAUDECODE ≠ "" ∨ ctx.env.CLAUDE_CODE_ENTRYPOINT ≠ "" then return some "claude"
  if ctx.env.keys.any (·.startsWith "CURSOR") then return some "cursor"
  if ctx.env.keys.any (·.startsWith "CODEX") then return some "codex"
  if ctx.env.TMUX_PANE ≠ "" then
    let cmd ← perform (.exec "tmux" ["display-message", "-p", "-t", ctx.env.TMUX_PANE, "#\x7bpane_current_command\x7d"])
    return cmd.bind probeHarness
  return none

def resolveSelfId (ctx : Ctx) : HubM (Option String) :=
  match ctx.env.currentPane with
  | some cur => perform (.resolvePaneId cur.2)
  | none => return if ctx.env.CYBERLEGION_AGENT_ID = "" then none else some ctx.env.CYBERLEGION_AGENT_ID

/-! ## Registration -/

def primaryRootHere : HubM (Option String) := perform (.primaryRoot none)

def gitWorktree : HubM (Option Worktree) := do
  match ← perform (.exec "git" ["rev-parse", "--show-toplevel"]) with
  | none | some "" => return none
  | some root =>
    let branch ← perform (.exec "git" ["rev-parse", "--abbrev-ref", "HEAD"])
    let primaryRoot ← primaryRootHere
    return some { root, branch, primaryRoot }

def keptWorktree (existing : Worktree) : HubM Worktree := do
  if existing.primaryRoot.isSome then return existing
  match ← gitWorktree with
  | some here =>
    if here.root ≠ existing.root ∨ here.primaryRoot.isNone then return existing
    return { existing with primaryRoot := here.primaryRoot }
  | none => return existing

def paneLocator (cur : CurrentPane) (env : Env) : HubM Pane :=
  match cur.mux with
  | .tmux => do
    let window ← perform (.exec "tmux" ["display-message", "-p", "-t", cur.pane, "#\x7bwindow_id\x7d"])
    return { mux := .tmux, id := cur.pane, window, session := env.TMUX.map (beforeChar · ',') }
  | .herdr => return { mux := .herdr, id := cur.pane }

structure RegisterInput where
  handle : Option String := none
  harness : Option String := none

def register (ctx : Ctx) (input : RegisterInput) : HubM AgentRecord := do
  perform (.ensureMarker ctx.root)
  match ← detectHarness ctx input.harness with
  | none => throw (.error "could not detect harness — pass --harness claude|cursor|codex")
  | some harness =>
    let existingId ← resolveSelfId ctx
    let existing ← (match existingId with
      | some id => Store.getAgent id
      | none => pure none)
    let id ← (match existing, existingId with
      | some rec, _ => pure rec.id
      | none, some id => pure id
      | none, none => perform .randomId)
    let ts ← nowIso
    let worktree ← (match existing.bind (·.worktree) with
      | some wt => some <$> keptWorktree wt
      | none => gitWorktree)
    let pane ← (match storablePane ctx.env with
      | some cur => some <$> paneLocator cur ctx.env
      | none => pure none)
    let rec_ : AgentRecord :=
      { id, harness := some harness, cwd := ctx.cwd, worktree, pane, status := .active
        handle := input.handle.getD ((existing.map (·.handle)).getD (slice id 6))
        createdAt := (existing.map (·.createdAt)).getD ts
        lastSeen := ts
        brief := existing.bind (·.brief)
        spawnedBy := existing.bind (·.spawnedBy) }
    Store.putAgent rec_
    match storablePane ctx.env with
    | some cur => perform (.putPaneIndex cur.pane id)
    | none => pure ()
    return rec_

/-! ## References -/

def joinIds (recs : List AgentRecord) : String := ", ".intercalate (recs.map (·.id))

def pickLive (ref : String) (live : List AgentRecord) : HubM (Option AgentRecord) :=
  match live.find? (·.kind = .standing) with
  | some standing => pure (some standing)
  | none =>
    if 1 < live.length then
      throw (.error ("\"" ++ ref ++ "\" names " ++ toString live.length ++ " units — pass an id (" ++
        joinIds live ++ ")"))
    else pure live.head?

structure HandleMatch where
  live : List AgentRecord
  exited : List AgentRecord

def matchHandle (agents : List AgentRecord) (handle : String) : HandleMatch where
  live := agents.filter fun a => a.handle = handle ∧ a.status ≠ .exited
  exited := agents.filter fun a => a.handle = handle ∧ a.status = .exited

def unaddressable (ref : String) (exited : List AgentRecord) (tried : String) : HubError :=
  if exited = [] then .error ("no agent addressable as \"" ++ ref ++ "\" (tried " ++ tried ++ ")")
  else
    let dead := ", ".intercalate (exited.map fun a =>
      slice a.id 6 ++ ((a.pane.map fun p => " (" ++ p.id ++ ")").getD ""))
    .error ("\"" ++ ref ++ "\" matches only exited unit(s) — " ++ dead ++ " — which have no reader. " ++
      "Address a live unit ('cyberlegion unit who'), or run 'cyberlegion unit register --standing --handle " ++
      ref ++ "' for a durable inbox.")

/-- `all.filter((a, i, all) => all.findIndex((b) => b.id === a.id) === i)` -/
def distinctIds : List AgentRecord → List AgentRecord
  | [] => []
  | a :: recs => a :: (distinctIds recs).filter (·.id ≠ a.id)

/-- The handle and branch part of `resolveAgent`, over the records it listed. -/
def resolveAmong (ref : String) (agents : List AgentRecord) : HubM AgentRecord := do
  let m := matchHandle agents ref
  match ← pickLive ref m.live with
  | some byHandle => return byHandle
  | none =>
    let byBranchAll := agents.filter fun a => a.worktree.bind (·.branch) = some ref
    match byBranchAll.find? (·.status ≠ .exited) with
    | some byBranch => return byBranch
    | none =>
      let dead := distinctIds (m.exited ++ byBranchAll.filter (·.status = .exited))
      throw (unaddressable ref dead "id, handle, and worktree branch/CR")

def resolveAgent (ref : String) : HubM AgentRecord := do
  match ← Store.getAgent ref with
  | some byId => return byId
  | none => resolveAmong ref (← perform .listAgents)

structure UnitSelector where
  repo : Option String := none
  branch : Option String := none

def repoNameOf (rec : AgentRecord) : String := path.basename ((rec.worktree.bind (·.primaryRoot)).getD rec.cwd)

def UnitSelector.named (selector : UnitSelector) : String :=
  " ".intercalate ((selector.repo.map fun repo => "--repo \"" ++ repo ++ "\"").toList ++
    (selector.branch.map fun branch => "--branch \"" ++ branch ++ "\"").toList)

def UnitSelector.picks (selector : UnitSelector) (a : AgentRecord) : Bool :=
  a.status ≠ .exited ∧ (selector.branch.all fun branch => a.worktree.bind (·.branch) = some branch) ∧
    selector.repo.all fun repo => repoNameOf a = repo

def selectAgent (selector : UnitSelector) : HubM AgentRecord := do
  refuse (selector.repo.isNone ∧ selector.branch.isNone) (.error "a ref, --repo, or --branch is required")
  match (← perform .listAgents).filter selector.picks with
  | [] => throw (.error ("no live unit matches " ++ selector.named))
  | [only] => return only
  | several =>
    let list := ", ".intercalate (several.map fun a =>
      let branch := ((a.worktree.bind (·.branch)).filter (· ≠ "")).map (", " ++ ·)
      a.id ++ " (" ++ a.handle ++ branch.getD "" ++ ", " ++ repoNameOf a ++ ")")
    throw (.error (selector.named ++ " matches " ++ toString several.length ++ " units — " ++ list ++
      " — address one by its id"))

/-! ## Last-seen -/

def bumpLastSeen (id : String) : HubM Unit := do
  match ← Store.getAgent id with
  | none => return
  | some rec => Store.putAgent { rec with lastSeen := ← nowIso }

def touch (ctx : Ctx) : HubM Unit := do
  match ← resolveSelfId ctx with
  | some id => if id ≠ "" then bumpLastSeen id
  | none => return

/-! ## Liveness, reconcile and prune -/

def STALE_MS : Int := 15 * 60 * 1000

def isSessionIndependent (rec : AgentRecord) : Bool := rec.kind = .standing ∨ rec.kind = .service

def isPrunable (rec : AgentRecord) : Bool :=
  ¬ isSessionIndependent rec ∧ rec.status ≠ .exited ∧ rec.status ≠ .stopped

def sessionLive (rec : AgentRecord) : HubM Bool :=
  if rec.status = .exited ∨ rec.status = .stopped then return false
  else match rec.pane with
    | none => return true
    | some pane => do
      let panes ← perform (.listPanes pane.mux)
      return panes = [] ∨ panes.any (·.id = pane.id)

def harnessFromAgent (agent : Option String) : Option String := agent.bind probeHarness

def adopt : List AgentRecord → List LivePane → HubM (List AgentRecord)
  | _, [] => return []
  | agents, pane :: panes =>
    match harnessFromAgent pane.harness with
    | none => adopt agents panes
    | some harness => do
      let boundId ← perform (.resolvePaneId pane.id)
      let bound ← (match boundId with
        | some id => Store.getAgent id
        | none => pure none)
      if bound.isSome ∨ agents.any (fun a => a.pane.any fun p => p.mux = pane.mux ∧ p.id = pane.id) then
        adopt agents panes
      else
        let id ← perform .randomId
        let ts ← nowIso
        let rec_ : AgentRecord :=
          { id, harness := some harness, status := .active, createdAt := ts, lastSeen := ts
            handle := match pane.cwd with
              | none | some "" => slice id 6
              | some cwd => sanitizePane (path.basename cwd)
            cwd := pane.cwd.getD ""
            pane := some { mux := pane.mux, id := pane.id } }
        Store.putAgent rec_
        perform (.putPaneIndex pane.id id)
        return rec_ :: (← adopt agents panes)

def markExited (rec : AgentRecord) : HubM AgentRecord := do
  let exited := { rec with status := .exited }
  Store.putAgent exited
  return exited

/-- The cull loop of `reconcile` over the records it listed. -/
def cull (mux : StorableMux) (panes : List LivePane) : List AgentRecord → HubM (List AgentRecord)
  | [] => return []
  | rec :: recs => do
    if isPrunable rec ∧ rec.pane.any fun p => p.mux = mux ∧ ¬ panes.any (·.id = p.id) then
      return (← markExited rec) :: (← cull mux panes recs)
    else cull mux panes recs

def reconcile (ctx : Ctx) (adopts : Bool) : HubM (List AgentRecord) :=
  match storablePane ctx.env with
  | none => return []
  | some cur => do
    let panes ← perform (.listPanes cur.mux)
    if panes = [] then return []
    let changed ← cull cur.mux panes (← perform .listAgents)
    if adopts then
      return changed ++ (← adopt (← perform .listAgents) panes)
    return changed

abbrev PaneLists := StorableMux → Option (List LivePane)

def paneGone (pane : Pane) (lists : PaneLists) : HubM (Bool × PaneLists) := do
  if ← perform (.paneExists pane.mux pane.id) then return (false, lists)
  match lists pane.mux with
  | some panes => return (panes ≠ [] ∧ ¬ panes.any (·.id = pane.id), lists)
  | none =>
    let panes ← perform (.listPanes pane.mux)
    return (panes ≠ [] ∧ ¬ panes.any (·.id = pane.id), Function.update lists pane.mux (some panes))

/-- The judging loop of `prune` over the records it listed. -/
def judge (now : Int) : PaneLists → List AgentRecord → HubM (List AgentRecord)
  | _, [] => return []
  | lists, rec :: recs =>
    if isPrunable rec then do
      let (dead, lists') ← (match rec.pane with
        | some pane => paneGone pane lists
        | none => pure (decide (STALE_MS < now - rec.lastSeen), lists))
      if dead then return (← markExited rec) :: (← judge now lists' recs)
      else judge now lists' recs
    else judge now lists recs

def prune (ctx : Ctx) : HubM (List AgentRecord) := do
  let now ← perform .now
  let changed ← reconcile ctx false
  return changed ++ (← judge now (fun _ => none) (← perform .listAgents))

end Cyberlegion
