import Cyberlegion.AgentDef
import Cyberlegion.Standing

/-!
# The home of a standing owner

`standing-home.ts`: what a registration does to the owner's home. `files` are the agent definitions
on disk, and `agentsDir` the directory of them that a folder's project keeps.
-/

namespace Cyberlegion

open Effects

structure HomeFlags where
  standing : Bool := false
  handle : Option String := none
  home : Option String := none
  clearHome : Bool := false
  agent : Option String := none
  harness : Option String := none

namespace HomeFlags

/-- A flag that only a standing registration takes. -/
def homeFlag (flags : HomeFlags) : Bool := flags.home.isSome ∨ flags.clearHome ∨ flags.agent.isSome

def named (flags : HomeFlags) : Bool := flags.standing ∧ (given flags.handle).isSome

end HomeFlags

section
variable (files : String → Option String) (agentsDir : String → String)

def realpath (p : String) : HubM String := do
  match ← perform (.realpathSync p) with
  | some real => return real
  | none => throw (.error ("ENOENT: no such file or directory, lstat '" ++ p ++ "'"))

/-- The folder must be there, and be one. -/
def assertFolder (dir home : String) : HubM Unit := do
  if ← perform (.existsSync dir) then
    refuse (¬ (← perform (.isDirectory dir))) (.error ("the home must already exist: " ++ home))
  else throw (.error ("the home must already exist: " ++ home))

/-- The one way to launch a session in the folder. -/
def homeLaunch (dir : String) : Option String → Option String → HubM HomeLaunch
  | some harness, none => do
    refuse (¬ inLaunchMap harness) (.error ("unrecognized --harness \"" ++ harness ++ "\" (" ++ launchKeys ++ ")"))
    return .harness harness
  | none, some agent =>
    match Definition.resolveAgentDef files dir (agentsDir dir) { name := some agent } with
    | .ok _ => return .agent agent
    | .error _ => throw (.error ("the agent definition \"" ++ agent ++ "\" does not resolve from the home " ++ dir))
  | _, _ => throw (.error "a home needs exactly one of --agent or --harness")

def assertNotPrimary (dir : String) : HubM Unit := do
  match ← perform (.primaryRoot (some dir)) with
  | none => return
  | some primary =>
    refuse ((← realpath primary) = (← realpath dir))
      (.error ("the home refuses the primary checkout " ++ dir ++ " — a spawned unit never works there"))

/-- `none` keeps the home the record has, `some none` drops it. -/
def resolveHomeFlags (ctx : Ctx) (flags : HomeFlags) : HubM (Option (Option StandingHome)) := do
  refuse (flags.homeFlag ∧ ¬ flags.named)
    (.error "a home belongs only to a named standing owner — pass --standing --handle <name>")
  if ¬ flags.standing then return none
  refuse (flags.home.isSome ∧ flags.clearHome) (.error "--home and --clear-home contradict — pass one")
  refuse (flags.home.isNone ∧ (flags.agent.isSome ∨ flags.harness.isSome))
    (.error "a launch needs --home: --agent and --harness name how to start a session in it")
  if flags.clearHome then return some none
  match flags.home with
  | none => return none
  | some home =>
    let dir := path.resolve ctx.cwd home
    assertFolder dir home
    let launch ← homeLaunch files agentsDir dir flags.harness flags.agent
    assertNotPrimary dir
    return some (some { dir, launch })

/-- `unit register`: of a standing owner, or of the session; bare `--standing` lists the owners. -/
def unitRegister (ctx : Ctx) (flags : HomeFlags) : HubM (Option AgentRecord) := do
  let home ← resolveHomeFlags files agentsDir ctx flags
  if flags.standing then
    let _ ← perform .listAgents
    match given flags.handle with
    | none => return none
    | some handle => some <$> registerStanding ctx { handle, home }
  else some <$> register ctx { handle := flags.handle, harness := flags.harness }

end

end Cyberlegion
