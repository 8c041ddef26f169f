import Cyberlegion.Session

/-!
# Closing a unit

`decommission.ts`: the inverse of `spawn`.
-/

namespace Cyberlegion

open Effects

structure DecommissionInput where
  id : String
  force : Bool := false
  keepWorktree : Bool := false

structure DecommissionResult where
  agent : AgentRecord
  worktreeRoot : Option String := none
  retainedWorktree : Option String := none
  released : Bool := false
  pane : Option String := none

def WORKTREE_MARKER : String := ".agents/cyberlegion/config.json"

def isDirty (worktreeRoot : String) : HubM Bool := do
  let status ← perform (.exec "git" ["-C", worktreeRoot, "status", "--porcelain", "--untracked-files=all"])
  return (given status).any fun status => (status.splitOn "\n").any fun line => line ≠ "" ∧
    line ≠ "?? " ++ WORKTREE_MARKER

/-- The primary checkout of the unit's repository: asked of a worktree on disk, else as spawn recorded it. -/
def unitPrimaryRoot (rec : AgentRecord) (worktreeExists : Bool) : HubM (Option String) :=
  match rec.worktree with
  | none => pure none
  | some worktree =>
    if worktreeExists then do
      match ← perform (.primaryRoot (some worktree.root)) with
      | some root => return some root
      | none => throw (.error ("cannot resolve the repository of worktree " ++ worktree.root ++
          " — git does not know it"))
    else pure worktree.primaryRoot

def existsRoot (rec : AgentRecord) : HubM Bool :=
  match rec.worktree with
  | some worktree => perform (.existsSync worktree.root)
  | none => pure false

def isPrimary (ctx : Ctx) (rec : AgentRecord) (primaryRoot : Option String) : Bool :=
  (given (rec.worktree.map (·.root))).any fun root => (given primaryRoot).any fun primary =>
    path.resolve ctx.cwd root = path.resolve ctx.cwd primary

/-- A worktree gone from disk may still be registered with git. -/
def pruneGone (rec : AgentRecord) (worktreeExists : Bool) (primaryRoot : Option String) : HubM Unit :=
  match given (rec.worktree.map (·.root)), given primaryRoot with
  | some _, some primary =>
    if worktreeExists then pure ()
    else do
      if ← perform (.existsSync primary) then
        let _ ← perform (.exec "git" ["-C", primary, "worktree", "prune"])
  | _, _ => pure ()

def releaseLease (rec : AgentRecord) : HubM Bool :=
  match rec.worktree with
  | some worktree =>
    match worktree.lease, given (some worktree.root) with
    | some lease, some root => do
      if ← perform (.releaseWorktree root lease) then return true
      else throw (.error "could not release the worktree")
    | _, _ => pure false
  | none => pure false

def removeWorktree (rec : AgentRecord) (primaryRoot : Option String) (removesWorktree : Bool) : HubM Unit :=
  match removesWorktree, rec.worktree with
  | true, some worktree => do
    if ← perform (.removeWorktree worktree.root (primaryRoot.getD "")) then return
    else throw (.error ("decommission \"" ++ rec.id ++
      "\" aborted — worktree removal failed, record left intact for retry"))
  | _, _ => pure ()

/-- The caller's own backend closes the pane; without one the reap goes on. -/
def teardownPane (pane : Option String) : HubM Unit :=
  match pane with
  | some pane => do
    match (← perform .probeMultiplexer).storable with
    | some mux => perform (.teardown mux pane)
    | none => pure ()
  | none => pure ()

def reap (id : String) (pane : Option String) : HubM Unit := do
  perform (.removeAgent id)
  match pane with
  | some pane => perform (.removePaneIndex pane)
  | none => pure ()
  perform (.removeAgentData id)
  perform (.removeMailbox id)

def closePane (rec : AgentRecord) : HubM (Option String) :=
  match rec.pane with
  | some pane => pure (some pane.id)
  | none => perform (.findPaneByAgentId rec.id)

/-- The refusals of a close, before anything is changed. -/
def assertCloses (ctx : Ctx) (input : DecommissionInput) (rec : AgentRecord) (primaryRoot : Option String)
    (removesWorktree : Bool) : HubM Unit := do
  refuse (isPrimary ctx rec primaryRoot)
    (.error ("refusing to decommission \"" ++ input.id ++ "\" — its worktree is the primary checkout; " ++
      "neither --force nor --keep-worktree overrides this"))
  let dirty ← (if removesWorktree ∧ ¬ input.force then isDirty ((rec.worktree.map (·.root)).getD "") else pure false)
  refuse dirty (.error ("unit \"" ++ input.id ++ "\" has uncommitted changes in its worktree — " ++
    "pass --force to discard them"))

def decommission (ctx : Ctx) (input : DecommissionInput) : HubM DecommissionResult := do
  match ← Store.getAgent input.id with
  | none => throw (.error ("no unit registered as agents/" ++ input.id ++ ".json — nothing to decommission"))
  | some rec_ =>
    refuse (rec_.kind = .service)
      (.error ("refusing to decommission \"" ++ input.id ++ "\" — it is a service endpoint, not a unit"))
    let worktreeExists ← existsRoot rec_
    let primaryRoot ← unitPrimaryRoot rec_ worktreeExists
    let held := (rec_.worktree.bind (·.lease)).isSome
    let removesWorktree : Bool := worktreeExists ∧ ¬ input.keepWorktree ∧ ¬ held
    assertCloses ctx input rec_ primaryRoot removesWorktree
    let pane := given (← closePane rec_)
    pruneGone rec_ worktreeExists primaryRoot
    let released ← releaseLease rec_
    removeWorktree rec_ primaryRoot removesWorktree
    teardownPane pane
    reap input.id pane
    return { agent := rec_, worktreeRoot := rec_.worktree.map (·.root), released, pane
             retainedWorktree := if worktreeExists ∧ (input.keepWorktree ∨ held) then rec_.worktree.map (·.root)
               else none }

end Cyberlegion
