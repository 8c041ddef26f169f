import Cyberlegion.Identity

/-!
# Sessions

`session.ts` and `mux-select.ts`: choosing a backend, the launch line, and `spawn`.
-/

namespace Cyberlegion

open Effects

/-! ## Backends -/

def selectSessionAdapter : HubM StorableMux := do
  match ← perform .probeMultiplexer with
  | .tmux => return .tmux
  | .herdr => return .herdr
  | .wezterm => throw (unstorable "wezterm")
  | .zellij => throw (unstorable "zellij")
  | .screen | .none =>
    throw (.error "spawn requires a session backend — run inside tmux ($TMUX) or herdr ($HERDR_ENV=1)")
where
  unstorable (mux : String) : HubError :=
    .error ("spawn detected " ++ mux ++ ", a backend unit/registry cannot store a pane locator under " ++
      "(only tmux and herdr) — refusing before opening anything")

/-! ## Launching a harness -/

def LAUNCH_MAP : List (String × String) := [("claude", "claude"), ("cursor", "cursor-agent"), ("codex", "codex")]

/-- What `in` also finds in an object literal. -/
def inherited : List String :=
  ["constructor", "hasOwnProperty", "isPrototypeOf", "propertyIsEnumerable", "toString", "toLocaleString",
    "valueOf", "__proto__", "__defineGetter__", "__defineSetter__", "__lookupGetter__", "__lookupSetter__"]

/-- `harness in LAUNCH_MAP` -/
def inLaunchMap (harness : String) : Bool := (LAUNCH_MAP.lookup harness).isSome ∨ harness ∈ inherited

/-- `LAUNCH_MAP[harness]`; an inherited member is no text, and is not stored. -/
def launchOf (harness : String) : Option String := LAUNCH_MAP.lookup harness

def launchKeys : String := " | ".intercalate (LAUNCH_MAP.map (·.1))

def shellQuote (s : String) : String :=
  "'" ++ String.join (s.toList.map fun c => if c = '\'' then "'\\''" else c.toString) ++ "'"

def resumeArgs : String → Option (String → String)
  | "claude" => some fun id => "--resume " ++ shellQuote id
  | "codex" => some fun id => "resume " ++ shellQuote id
  | _ => none

/-- `launch.split(/\s+/)[0]` -/
def firstWord (launch : String) : String := String.ofList (launch.toList.takeWhile fun c => ¬ jsSpace c)

def resumeLaunch (harness launch conversation : String) : Option String :=
  match resumeArgs harness with
  | none => none
  | some resume =>
    if some (firstWord launch) ≠ LAUNCH_MAP.lookup harness then none else some (launch ++ " " ++ resume conversation)

/-- The line typed into a new pane; the bind step needs the shim, so a context that
cannot re-invoke this program gets none. The shim's and the multiplexer's variables
ahead of the command are left out. -/
def composeLaunchLine (ctx : Ctx) (id command : String) (bindSelf : Bool) (fallback : Option String) : LaunchLine where
  bind := if ctx.self ∧ bindSelf then some id else none
  command := command
  fallback := fallback

/-! ## Spawn -/

structure SpawnInput where
  harness : Option String := none
  /-- What `resolveBrief` finds. -/
  brief : Option String := none
  handle : Option String := none
  command : Option String := none
  briefInstructions : Option String := none
  branch : Option String := none
  worktreePath : Option String := none
  cwd : Option String := none
  repo : Option String := none
  base : Option String := none
  «at» : Option Placement := none
  cwdOwnRepo : Bool := false

structure SpawnBase where
  ref : String
  fallback : Option String := none

structure SpawnResult where
  agent : AgentRecord
  pane : String
  launch : Option String
  base : Option SpawnBase := none
  reused : Option Bool := none

/-- A flag that is given and not empty. -/
def given (flag : Option String) : Option String := flag.filter (· ≠ "")

def composeBrief (brief : String) (instructions : Option String) : String :=
  match given instructions with
  | none => brief
  | some instructions => "## Agent instructions\n\n" ++ instructions ++ "\n\n## Brief\n\n" ++ brief

def assertDistinctFromPrimary (ctx : Ctx) (dir primaryRoot : String) : HubM Unit :=
  refuse (path.resolve ctx.cwd dir = path.resolve ctx.cwd primaryRoot)
    (.error ("refusing the primary checkout " ++ primaryRoot))

/-- `assertDistinctFromPrimary` where there is a path and a primary checkout. -/
def assertDistinct (ctx : Ctx) (dir primaryRoot : Option String) : HubM Unit :=
  match dir, primaryRoot with
  | some dir, some root => assertDistinctFromPrimary ctx dir root
  | _, _ => pure ()

def resolveSpawnBase (primaryRoot : String) (base : Option String) : HubM SpawnBase := do
  match given base with
  | some base => return { ref := base }
  | none =>
    let git (args : List String) := perform (.exec "git" (["-C", primaryRoot] ++ args))
    match ← git ["remote", "get-url", "origin"] with
    | none => return { ref := "HEAD", fallback := some "there is no origin remote" }
    | some _ =>
      match ← git ["fetch", "--quiet", "origin"] with
      | none => return { ref := "HEAD", fallback := some "the fetch of origin failed" }
      | some _ =>
        match given (← git ["symbolic-ref", "--quiet", "--short", "refs/remotes/origin/HEAD"]) with
        | none =>
          return { ref := "HEAD", fallback := some "origin's default branch is unknown (origin/HEAD is not set)" }
        | some head => return { ref := head }

/-- The primary checkout a spawn keeps the unit out of; a `cwdOwnRepo` spawn may find none. -/
def spawnPrimaryRoot (input : SpawnInput) : HubM (Option String) :=
  if input.cwd.isSome ∧ input.cwdOwnRepo then perform (.primaryRoot input.cwd)
  else match given input.repo with
    | some repo => do
      match ← perform (.primaryRoot (some repo)) with
      | some root => return some root
      | none => throw (.error ("--repo " ++ repo ++ " is not inside a git repository"))
    | none => do
      match ← perform (.primaryRoot none) with
      | some root => return some root
      | none => throw (.error "not inside a git repository")

/-- Where a spawned unit runs, and the pane it runs in. -/
structure Opened where
  cwd : String
  worktree : Option Worktree := none
  pane : String
  base : Option SpawnBase := none
  reused : Option Bool := none

def openSession (mux : StorableMux) (cwd : String) (launch : LaunchLine) («at» : Placement) : HubM String := do
  match ← perform (.openSession mux cwd launch «at») with
  | some pane => return pane
  | none => throw (.error "could not open a session")

/-- The `--cwd` branch of `spawn`. -/
def openInCwd (ctx : Ctx) (input : SpawnInput) (mux : StorableMux) (launch : LaunchLine) (dir : String)
    (primaryRoot : Option String) : HubM Opened := do
  if ← perform (.existsSync dir) then
    let cwd := path.resolve ctx.cwd dir
    assertDistinct ctx (some cwd) primaryRoot
    let pane ← openSession mux cwd launch (input.at.getD .tab)
    return { cwd, pane }
  else throw (.error ("--cwd directory must already exist: " ++ dir))

/-- `create` of `spawn`: herdr makes a worktree and its session in one call. -/
def createWorktree (ctx : Ctx) (atomic : Bool) (launch : LaunchLine) (primaryRoot dir : String) :
    HubM (Option String) := do
  if atomic then
    match ← perform (.createInWorkspace dir launch) with
    | some made => do
      assertDistinctFromPrimary ctx made.1 primaryRoot
      return some made.2
    | none => throw (.error "could not create the worktree")
  else if ← perform (.createWorktree dir) then return none
  else throw (.error "could not create the worktree")

structure Acquired where
  worktree : Worktree
  opened : Option String
  reused : Option Bool := none

/-- The worktree of the unit: at the named path without a lease, or leased. -/
def acquireWorktree (ctx : Ctx) (input : SpawnInput) (atomic : Bool) (launch : LaunchLine)
    (id branch primaryRoot : String) : HubM Acquired := do
  match given input.worktreePath with
  | some dir =>
    let opened ← createWorktree ctx atomic launch primaryRoot dir
    return { worktree := { root := path.resolve ctx.cwd dir, branch := some branch, primaryRoot := some primaryRoot }
             opened }
  | none =>
    let holder := "cyberlegion:" ++ id
    match ← perform (.acquireWorktree primaryRoot holder) with
    | none => throw (.error "could not acquire a worktree")
    | some slot =>
      let opened ← (if slot.reused then pure none
        else createWorktree ctx atomic launch primaryRoot slot.worktree)
      return { worktree := { root := slot.worktree, branch := some branch, primaryRoot := some primaryRoot
                             lease := some { leaseId := slot.leaseId, holder } }
               opened, reused := some slot.reused }

/-- The worktree branch of `spawn`. -/
def openInWorktree (ctx : Ctx) (input : SpawnInput) (mux : StorableMux) (launch : LaunchLine) (id : String)
    (primaryRoot : Option String) : HubM Opened := do
  match primaryRoot with
  | none => throw (.error "a worktree spawn needs a primary checkout")
  | some primaryRoot =>
    let branch := input.branch.getD ("cyberlegion/unit-" ++ id)
    let «at» := input.at.getD .workspace
    assertDistinct ctx ((given input.worktreePath).map (path.resolve ctx.cwd)) primaryRoot
    let base ← resolveSpawnBase primaryRoot input.base
    let atomic : Bool := «at» = .workspace ∧ mux = .herdr
    let made ← acquireWorktree ctx input atomic launch id branch primaryRoot
    assertDistinctFromPrimary ctx made.worktree.root primaryRoot
    perform (.ensureMarker (made.worktree.root ++ "/.agents/cyberlegion"))
    let pane ← (match made.opened with
      | some pane => pure pane
      | none => openSession mux made.worktree.root launch «at»)
    return { cwd := made.worktree.root, worktree := some made.worktree, pane, base := some base, reused := made.reused }

def spawnedBy (ctx : Ctx) : HubM (Option String) := do
  match given (← resolveSelfId ctx) with
  | some _ => resolveSelfId ctx
  | none => return none

def briefFile (root id : String) : String := root ++ "/data/" ++ id ++ "/brief.md"

/-- The refusals of a spawn, before anything is opened: its harness and its brief. -/
def assertSpawns (input : SpawnInput) : HubM (String × String) := do
  refuse (input.harness.getD "" = "" ∨ ¬ inLaunchMap (input.harness.getD ""))
    (.error ("spawn needs a --harness in the launch map (" ++ launchKeys ++ ")"))
  refuse input.brief.isNone
    (.error "spawn needs a brief — pass --task <text>, --task - (stdin), or --brief-file <path>")
  refuse ((given input.cwd).isSome ∧ ((given input.branch).isSome ∨ (given input.worktreePath).isSome ∨
      (given input.repo).isSome ∨ (given input.base).isSome))
    (.error ("--cwd cannot combine with the worktree-creating flags " ++ "--branch/--worktree-path/--repo/--base"))
  return (input.harness.getD "", input.brief.getD "")

/-- The writes of a spawn. -/
def enlist (ctx : Ctx) (input : SpawnInput) (mux : StorableMux) (id harness brief : String) (opened : Opened) :
    HubM SpawnResult := do
  let ts ← nowIso
  let launch := input.command.or (launchOf harness)
  let rec_ : AgentRecord :=
    { id, harness := some harness, cwd := opened.cwd, worktree := opened.worktree
      handle := input.handle.getD (slice id 6)
      pane := some { mux, id := opened.pane }
      status := .active, createdAt := ts, lastSeen := ts
      brief := some (briefFile ctx.root id), launch
      spawnedBy := ← spawnedBy ctx }
  Store.putAgent rec_
  perform (.putPaneIndex opened.pane id)
  perform (.writeBrief id (composeBrief brief input.briefInstructions))
  return { agent := rec_, pane := opened.pane, launch, base := opened.base, reused := opened.reused }

def spawn (ctx : Ctx) (input : SpawnInput) : HubM SpawnResult := do
  perform (.ensureMarker ctx.root)
  let mux ← selectSessionAdapter
  let (harness, brief) ← assertSpawns input
  let id ← perform .randomId
  let primaryRoot ← spawnPrimaryRoot input
  let line := composeLaunchLine ctx id ((input.command.or (launchOf harness)).getD harness) false none
  let opened ← (match given input.cwd with
    | some dir => openInCwd ctx input mux line dir primaryRoot
    | none => openInWorktree ctx input mux line id primaryRoot)
  enlist ctx input mux id harness brief opened

end Cyberlegion
