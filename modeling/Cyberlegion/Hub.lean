import Mathlib.Data.List.Sort
import Cyberlegion.FileStore

/-!
# The hub

What a verb reads and writes: the store of `store/store.ts` (records, pane index,
briefs, mailboxes, projects, leases, locks), the multiplexers' live panes, and the
directories on disk. Every store method and every call of a multiplexer, git or the
clock is one call of a program; where the outside decides the answer it is a
`Choice`. Times are milliseconds; an ISO string is the time it denotes.
-/

namespace Cyberlegion

open Effects

/-! ## Records -/

/-- `AgentRecord.pane.mux`. -/
inductive StorableMux
  | tmux | herdr
deriving DecidableEq

instance StorableMux.lawfulBEq : LawfulBEq (StorableMux × String) := inferInstance

/-- What `probeMultiplexer` and `currentPane` name. -/
inductive Mux
  | tmux | herdr | wezterm | zellij | screen | none
deriving DecidableEq

def Mux.storable : Mux → Option StorableMux
  | .tmux => some .tmux
  | .herdr => some .herdr
  | _ => Option.none

structure Pane where
  mux : StorableMux
  id : String
  window : Option String := none
  session : Option String := none
deriving DecidableEq

structure WorktreeLease where
  leaseId : String
  holder : String
deriving DecidableEq

structure Worktree where
  root : String
  branch : Option String := none
  primaryRoot : Option String := none
  lease : Option WorktreeLease := none
deriving DecidableEq

inductive AgentStatus
  | active | idle | stale | exited | paused | stopped
  /-- Any other text, such as the `spawning` of a record from before. -/
  | other (text : String)
deriving DecidableEq

/-- An absent `kind` is `session`. -/
inductive Kind
  | session | standing | service
deriving DecidableEq

def Kind.name : Kind → String
  | .session => "session"
  | .standing => "standing"
  | .service => "service"

/-- How a presence is started in a home. -/
inductive HomeLaunch
  | agent (name : String)
  | harness (harness : String)
deriving DecidableEq

structure StandingHome where
  dir : String
  launch : HomeLaunch
deriving DecidableEq

structure AgentRecord where
  id : String
  handle : String
  harness : Option String := none
  cwd : String
  worktree : Option Worktree := none
  pane : Option Pane := none
  status : AgentStatus
  createdAt : Int
  lastSeen : Int
  brief : Option String := none
  launch : Option String := none
  conversation : Option String := none
  spawnedBy : Option String := none
  kind : Kind := .session
  service : Option (String × String) := none
  /-- Of a standing owner: the unit that stands in for it, and where one is spawned. -/
  presence : Option String := none
  home : Option StandingHome := none
deriving DecidableEq

/-- The identity of a repository in the store that hosts it. -/
structure SubjectId where
  store : String
  nativeId : String
deriving DecidableEq

structure ProjectRecord where
  id : String
  name : String
  root : String
  commonDir : String
  registeredAt : Int
  subject : Option SubjectId := none
deriving DecidableEq

inductive LeaseState
  | vacant | reserved | active
deriving DecidableEq

def LeaseState.name : LeaseState → String
  | .vacant => "vacant"
  | .reserved => "reserved"
  | .active => "active"

structure Reservation where
  token : String
  «by» : Option String := none
  «at» : Int
  expiresAt : Int
  forced : Bool := false
deriving DecidableEq

structure ServiceLease where
  project : String
  service : String
  endpoint : String
  generation : Nat
  state : LeaseState
  holder : Option String := none
  reservation : Option Reservation := none
  updatedAt : Int
deriving DecidableEq

/-! ## The tables: records filed under their own, safe ids -/

abbrev Registry := Filed AgentRecord.id fun rec => safeId rec.id

abbrev Projects := Filed ProjectRecord.id fun rec => safeId rec.id

def ServiceLease.key (lease : ServiceLease) : String × String := (lease.project, lease.service)

abbrev Leases := Filed ServiceLease.key fun lease => safeId lease.project ∧ safeId lease.service

/-- `listAgents`: by creation time, in the order of the directory where equal. -/
def Registry.list (r : Registry) : List AgentRecord :=
  r.values.insertionSort fun a b => a.createdAt ≤ b.createdAt

def Projects.list (r : Projects) : List ProjectRecord :=
  r.values.insertionSort fun a b => a.registeredAt ≤ b.registeredAt

theorem Registry.mem_list {r : Registry} {rec : AgentRecord} : rec ∈ Registry.list r ↔ r.get rec.id = some rec := by
  rw [list, List.mem_insertionSort, Filed.mem_values]

theorem Projects.mem_list {r : Projects} {rec : ProjectRecord} : rec ∈ Projects.list r ↔ r.get rec.id = some rec := by
  rw [list, List.mem_insertionSort, Filed.mem_values]

theorem Registry.list_pairwise {r : Registry} : (Registry.list r).Pairwise fun rec rec' => rec.id ≠ rec'.id :=
  (List.perm_insertionSort _ _).symm.pairwise Filed.values_pairwise Ne.symm

/-! ## The state and the calls -/

structure LivePane where
  mux : StorableMux
  id : String
  cwd : Option String := none
  harness : Option String := none
deriving DecidableEq

inductive Placement
  | pane | tab | workspace
deriving DecidableEq

/-- The line `composeLaunchLine` types into a new pane: `bind` is the unit that the
pane's `unit rebind` step names, before the harness starts. -/
structure LaunchLine where
  bind : Option String := none
  command : String
  fallback : Option String := none
deriving DecidableEq

structure World where
  agents : Registry := .empty
  /-- `panes/<sanitized>.id` and its text. -/
  panes : Table String String := ∅
  briefs : Table String String := ∅
  mailboxes : Table String InboxSnapshot := ∅
  projects : Projects := .empty
  leases : Leases := .empty
  locks : List String := []
  live : List (StorableMux × String) := []
  /-- Sessions whose launch line has yet to run its `unit rebind` step. -/
  booting : List (StorableMux × String × String) := []
  dirs : List String := []

inductive Call
  | getAgent (id : String)
  | listAgents
  | putAgent (rec : AgentRecord)
  | removeAgent (id : String)
  | removeAgentData (id : String)
  | removeMailbox (id : String)
  | putMessage (toId : String) (msg : Message)
  | putPaneIndex (pane agentId : String)
  | resolvePaneId (pane : String)
  | findPaneByAgentId (agentId : String)
  | removePaneIndex (pane : String)
  | writeBrief (agentId text : String)
  | readBrief (agentId : String)
  | getProject (id : String)
  | listProjects
  | putProject (rec : ProjectRecord)
  | getServiceLease (project service : String)
  | putServiceLease (lease : ServiceLease)
  | acquireLock (name : String)
  | releaseLock (name : String)
  | ensureMarker (root : String)
  | probeMultiplexer
  | openSession (mux : StorableMux) (cwd : String) (launch : LaunchLine) (placement : Placement)
  | createInWorkspace (path : String) (launch : LaunchLine)
  | teardown (mux : StorableMux) (pane : String)
  | listPanes (mux : StorableMux)
  | paneExists (mux : StorableMux) (pane : String)
  | existsSync (path : String)
  | isDirectory (path : String)
  | realpathSync (path : String)
  | exec (cmd : String) (args : List String)
  | primaryRoot (dir : Option String)
  | createWorktree (path : String)
  | acquireWorktree (primaryRoot holder : String)
  | releaseWorktree (root : String) (lease : WorktreeLease)
  | removeWorktree (root primaryRoot : String)
  | resolveSpawnLaunch (home : StandingHome)
  | settleSpawnTrust (pane : String)
  | now
  | randomId
  | randomToken

/-- `libraryLeases.acquire`: an idle worktree, or the path of a new slot. -/
structure Slot where
  worktree : String
  leaseId : String
  reused : Bool

/-- `resolveSpawnLaunch`: what a home's agent definition or harness launches. -/
structure Launched where
  harness : Option String := none
  command : Option String := none
  briefInstructions : Option String := none

/-- How a folder-trust prompt came out; `none` where the settling threw. -/
inductive Trust
  | settled
  | blocked (message : String)

@[reducible] def Call.Res : Call → Type
  | getAgent _ => Option AgentRecord
  | listAgents => List AgentRecord
  | resolvePaneId _ | findPaneByAgentId _ | readBrief _ => Option String
  | getProject _ => Option ProjectRecord
  | listProjects => List ProjectRecord
  | getServiceLease _ _ => Option ServiceLease
  | acquireLock _ => Bool
  | probeMultiplexer => Mux
  | openSession _ _ _ _ => Option String
  | createInWorkspace _ _ => Option (String × String)
  | listPanes _ => List LivePane
  | paneExists _ _ | existsSync _ | isDirectory _ | createWorktree _ | releaseWorktree _ _ | removeWorktree _ _ => Bool
  | realpathSync _ | exec _ _ | primaryRoot _ => Option String
  | acquireWorktree _ _ => Option Slot
  | resolveSpawnLaunch _ => Option Launched
  | settleSpawnTrust _ => Option Trust
  | now => Int
  | randomId | randomToken => String
  | _ => Unit

/-- What the outside answers: whether a call takes effect, the clock, a text (`none`
where it throws or answers null), a pane list, a multiplexer, a worktree slot, the root of a
new worktree, a launch or what became of a trust prompt. -/
structure Choice where
  ok : Bool := true
  ms : Int := 0
  text : Option String := none
  list : List LivePane := []
  mux : Mux := .none
  slot : Option Slot := none
  root : String := ""
  launched : Option Launched := none
  trust : Option Trust := none

/-- A pane list that is one: the panes of the multiplexer that exist. -/
def World.lists (w : World) (mux : StorableMux) (list : List LivePane) : Bool :=
  list.all (fun p => p.mux = mux ∧ (mux, p.id) ∈ w.live) ∧
    w.live.all fun q => q.1 ≠ mux ∨ list.any fun p => p.id = q.2

def World.paneText (w : World) (key : String) : Option String := (w.panes.lookup key).map jsTrim

def World.resolvePaneId (w : World) (pane : String) : Option String := w.paneText (sanitizePane pane)

/-- A multiplexer opens a session in a pane whose id no existing pane has. -/
def World.opened (w : World) (mux : StorableMux) (id : String) (launch : LaunchLine) : World :=
  { w with
    live := (mux, id) :: w.live
    booting := (launch.bind.map fun unit => (mux, id, unit)).toList ++ w.booting }

def handle : (op : Call) → Choice → World → Option (op.Res × World)
  | .getAgent id, _, w => some (w.agents.get id, w)
  | .listAgents, _, w => some (Registry.list w.agents, w)
  | .putAgent rec, _, w =>
    if h : safeId rec.id then some ((), { w with agents := w.agents.put rec h }) else none
  | .removeAgent id, _, w => some ((), { w with agents := w.agents.erase id })
  | .removeAgentData id, _, w => some ((), { w with briefs := w.briefs.erase id })
  | .removeMailbox id, _, w => some ((), { w with mailboxes := w.mailboxes.erase id })
  | .putMessage toId msg, _, w =>
    let box := (w.mailboxes.lookup toId).getD ⟨[], []⟩
    some ((), { w with mailboxes := w.mailboxes.insert toId { box with unread := msg :: box.unread } })
  | .putPaneIndex pane id, _, w => some ((), { w with panes := w.panes.insert (sanitizePane pane) id })
  | .resolvePaneId pane, _, w => some (w.resolvePaneId pane, w)
  -- the directory lists its entries in any order: any entry that names the agent may be found
  | .findPaneByAgentId id, c, w =>
    match c.text with
    | some key => if w.paneText key = some id then some (some key, w) else none
    | none => if w.panes.keys.any fun key => w.paneText key = some id then none else some (none, w)
  | .removePaneIndex pane, _, w => some ((), { w with panes := w.panes.erase (sanitizePane pane) })
  | .writeBrief id text, _, w => some ((), { w with briefs := w.briefs.insert id text })
  | .readBrief id, _, w => some (w.briefs.lookup id, w)
  | .getProject id, _, w => some (w.projects.get id, w)
  | .listProjects, _, w => some (Projects.list w.projects, w)
  | .putProject rec, _, w =>
    if h : safeId rec.id then some ((), { w with projects := w.projects.put rec h }) else none
  | .getServiceLease project service, _, w => some (w.leases.get (project, service), w)
  | .putServiceLease lease, _, w =>
    if h : safeId lease.project ∧ safeId lease.service then some ((), { w with leases := w.leases.put lease h })
    else none
  | .acquireLock name, c, w =>
    if c.ok then if name ∈ w.locks then none else some (true, { w with locks := name :: w.locks })
    else some (false, w)
  | .releaseLock name, _, w => some ((), { w with locks := w.locks.filter (· ≠ name) })
  | .ensureMarker _, _, w => some ((), w)
  | .probeMultiplexer, c, w => some (c.mux, w)
  | .openSession mux _ launch _, c, w =>
    match c.text with
    | none => some (none, w)
    | some id => if (mux, id) ∈ w.live then none else some (some id, w.opened mux id launch)
  | .createInWorkspace _ launch, c, w =>
    match c.text with
    | none => some (none, w)
    | some id =>
      if (StorableMux.herdr, id) ∈ w.live then none
      else some (some (c.root, id), { w.opened .herdr id launch with dirs := c.root :: w.dirs })
  | .teardown mux id, c, w => some ((), if c.ok then { w with live := w.live.filter (· ≠ (mux, id)) } else w)
  | .listPanes mux, c, w => if c.list = [] ∨ w.lists mux c.list then some (c.list, w) else none
  | .paneExists mux id, c, w => some (c.ok && decide ((mux, id) ∈ w.live), w)
  | .existsSync path, _, w => some (decide (path ∈ w.dirs), w)
  | .isDirectory path, _, w => some (decide (path ∈ w.dirs), w)
  | .realpathSync _, c, w => some (c.text, w)
  | .exec _ _, c, w => some (c.text, w)
  | .primaryRoot _, c, w => some (c.text, w)
  | .createWorktree path, c, w => some (c.ok, if c.ok then { w with dirs := path :: w.dirs } else w)
  | .acquireWorktree _ _, c, w => some (c.slot, w)
  | .releaseWorktree _ _, c, w => some (c.ok, w)
  | .removeWorktree root _, c, w =>
    some (c.ok, if c.ok then { w with dirs := w.dirs.filter (· ≠ root) } else w)
  | .resolveSpawnLaunch _, c, w => some (c.launched, w)
  | .settleSpawnTrust _, c, w => some (c.trust, w)
  | .now, c, w => some (c.ms, w)
  | .randomId, c, w =>
    match c.text with
    | some id => if w.agents.get id = none ∧ jsTrim id = id ∧ safeId id then some (id, w) else none
    | none => none
  | .randomToken, c, w => some (c.text.getD "", w)

/-- The calls that write a record, the pane index or a mailbox. -/
def Call.writes : Call → Bool
  | .putAgent _ | .removeAgent _ | .putPaneIndex _ _ | .removePaneIndex _ | .removeMailbox _ | .putMessage _ _ => true
  | _ => false

theorem handle_registry {op : Call} {c : Choice} {w w' : World} {r : op.Res} (hop : op.writes = false)
    (h : handle op c w = some (r, w')) :
    w'.agents = w.agents ∧ w'.panes = w.panes ∧ w'.mailboxes = w.mailboxes := by
  cases op with
  | putAgent | removeAgent | putPaneIndex | removePaneIndex | removeMailbox | putMessage => cases hop
  | _ =>
    simp only [handle] at h
    repeat' split at h
    all_goals cases h
    all_goals exact ⟨rfl, rfl, rfl⟩

def Call.reads : Call → Bool
  | .getAgent _ | .listAgents | .resolvePaneId _ | .findPaneByAgentId _ | .readBrief _ | .getProject _ | .listProjects
  | .getServiceLease _ _ | .ensureMarker _ | .probeMultiplexer | .listPanes _ | .paneExists _ _ | .existsSync _
  | .isDirectory _ | .realpathSync _ | .exec _ _ | .primaryRoot _ | .acquireWorktree _ _ | .releaseWorktree _ _
  | .resolveSpawnLaunch _ | .settleSpawnTrust _ | .now | .randomId | .randomToken => true
  | _ => false

theorem handle_reads {op : Call} {c : Choice} {w w' : World} {r : op.Res} (hop : op.reads = true)
    (h : handle op c w = some (r, w')) : w' = w := by
  cases op with
  | putAgent | removeAgent | removeAgentData | removeMailbox | putMessage | putPaneIndex | removePaneIndex
      | writeBrief | putProject
  | putServiceLease | acquireLock | releaseLock | openSession | createInWorkspace | teardown | createWorktree
  | removeWorktree => cases hop
  | _ =>
    simp only [handle] at h
    repeat' split at h
    all_goals cases h
    all_goals rfl

/-! ## Programs over the hub -/

inductive OwnershipErrorCode
  | stale | unitNotLive | unknownUnit
deriving DecidableEq

inductive HubError
  | error (message : String)
  | ownership (code : OwnershipErrorCode) (message : String)
  | invalidId (e : InvalidIdError)
  | rangeError
  | lockTimeout (name : String)
deriving DecidableEq

def HubError.message : HubError → String
  | .error message | .ownership _ message => message
  | .invalidId e => e.message
  | .rangeError => "Invalid time value"
  | .lockTimeout name => "timed out waiting for lock \"" ++ name ++ "\""

abbrev HubM := Prog Call Call.Res HubError

def perform (op : Call) : HubM op.Res := .call op .ret

/-- `if (cond) throw e` -/
def refuse (cond : Prop) [Decidable cond] (e : HubError) : HubM Unit := if cond then throw e else pure ()

/-- `new Date(ms).toISOString()` throws outside the range of dates. -/
def iso (ms : Int) : HubM Int :=
  if ms.natAbs ≤ 8640000000000000 then pure ms else throw .rangeError

def nowIso : HubM Int := do iso (← perform .now)

namespace Store

def getAgent (id : String) : HubM (Option AgentRecord) := perform (.getAgent id)

def putAgent (rec : AgentRecord) : HubM Unit :=
  if safeId rec.id then perform (.putAgent rec) else throw (.invalidId ⟨"agent id", rec.id⟩)

def getProject (id : String) : HubM (Option ProjectRecord) :=
  if safeId id then perform (.getProject id) else pure none

def putProject (rec : ProjectRecord) : HubM Unit :=
  if safeId rec.id then perform (.putProject rec) else throw (.invalidId ⟨"project id", rec.id⟩)

def getServiceLease (project service : String) : HubM (Option ServiceLease) :=
  if safeId project ∧ safeId service then perform (.getServiceLease project service) else pure none

def putServiceLease (lease : ServiceLease) : HubM Unit :=
  if safeId lease.project then
    if safeId lease.service then perform (.putServiceLease lease)
    else throw (.invalidId ⟨"service name", lease.service⟩)
  else throw (.invalidId ⟨"project id", lease.project⟩)

/-- `withLock`: the lock is released however `fn` ends. -/
def withLock {α : Type} (name : String) (fn : HubM α) : HubM α := do
  if ← perform (.acquireLock name) then
    match ← tryCatch (Except.ok <$> fn) (fun e => pure (Except.error e)) with
    | .ok a => do perform (.releaseLock name); return a
    | .error e => do perform (.releaseLock name); throw e
  else throw (.lockTimeout name)

end Store

/-! ## What a program over the hub does -/

instance : Inhabited Choice := ⟨{}⟩

/-- Every way the program ends meets `Q`, if the outside chooses within `A`. -/
abbrev Ends {α : Type} (A : Call → Choice → Prop) (p : HubM α) (Q : Except HubError α → World → Prop)
    (w : World) : Prop :=
  wp handle A (fun _ _ => True) p Q w

section
variable {α β : Type} {A : Call → Choice → Prop} {Φ : Call → World → Prop} {w : World}

theorem ends_bind {p : HubM α} {f : α → HubM β} {R : Except HubError α → World → Prop}
    {Q : Except HubError β → World → Prop} (hp : Ends A p R w)
    (hok : ∀ a w', R (.ok a) w' → Ends A (f a) Q w') (herr : ∀ e w', R (.error e) w' → Q (.error e) w') :
    Ends A (p >>= f) Q w := wp_seq hp hok herr

theorem ends_throw {e : HubError} {Q : Except HubError α → World → Prop} (h : Q (.error e) w) :
    Ends A (throw e) Q w := h

theorem ends_pure {a : α} {Q : Except HubError α → World → Prop} (h : Q (.ok a) w) : Ends A (pure a) Q w := h

theorem ends_call {op : Call} {f : op.Res → HubM α} {Q : Except HubError α → World → Prop}
    (h : ∀ c r w', A op c → handle op c w = some (r, w') → Ends A (f r) Q w') : Ends A (perform op >>= f) Q w :=
  ⟨trivial, h⟩

theorem ends_read {op : Call} {a : op.Res} {f : op.Res → HubM α} {Q : Except HubError α → World → Prop}
    (h : ∀ c, handle op c w = some (a, w)) (hf : Ends A (f a) Q w) : Ends A (perform op >>= f) Q w := by
  refine ⟨trivial, fun c r w' _ hr => ?_⟩
  rw [h c] at hr
  cases hr; exact hf

theorem ends_run {p : HubM α} {Q : Except HubError α → World → Prop} {cs : List Choice}
    {r : Except HubError α} {w' : World}
    (hp : Ends (fun _ _ => True) p Q w) (h : run handle p cs w = some (r, w')) : Q r w' :=
  wp_run hp (fun _ _ => trivial) h

theorem ends_and {p : HubM α} {Q R : Except HubError α → World → Prop} (hq : Ends A p Q w) (hr : Ends A p R w) :
    Ends A p (fun r w' => Q r w' ∧ R r w') w :=
  wp_weaken (wp_and hq hr) fun _ _ _ => trivial

theorem wp_perform {op : Call} {Q : Except HubError op.Res → World → Prop} :
    wp handle A Φ (perform op) Q w ↔
      Φ op w ∧ ∀ c r w', A op c → handle op c w = some (r, w') → Q (.ok r) w' := Iff.rfl

theorem findPane_reads {id : String} {c : Choice} {r : Option String} {w' : World}
    (h : handle (.findPaneByAgentId id) c w = some (r, w')) : w' = w := by
  simp only [handle] at h
  split at h <;> split at h <;> cases h <;> rfl

theorem only_perform {P : Call → Prop} {op : Call} (h : P op) : (perform op).Only P :=
  ⟨h, fun _ => trivial⟩

theorem only_iso {P : Call → Prop} {ms : Int} : (iso ms).Only P := by
  unfold iso
  split <;> trivial

theorem only_nowIso {P : Call → Prop} (h : P .now) : nowIso.Only P :=
  (only_perform h).bind fun _ => only_iso

theorem ends_withLock {name : String} {fn : HubM α} {Q : Except HubError α → World → Prop}
    (htimeout : Q (.error (.lockTimeout name)) w)
    (hfn : Ends A fn (fun r w' => ∀ locks, Q r { w' with locks }) { w with locks := name :: w.locks }) :
    Ends A (Store.withLock name fn) Q w := by
  refine (wp_bind _ _).mpr ⟨trivial, fun c r w' _ hr => ?_⟩
  simp only [handle] at hr
  split at hr
  · split at hr
    · cases hr
    · cases hr
      show Ends A (if true = true then _ else _) Q _
      rw [if_pos rfl]
      refine (wp_bind _ _).mpr ((wp_tryCatch _ _).mpr ?_)
      rw [← bind_pure_comp]
      refine (wp_bind _ _).mpr (wp_mono hfn fun r w' hq => ?_)
      cases r with
      | ok a => exact ⟨trivial, fun _ _ _ _ h => by cases h; exact hq _⟩
      | error e => exact ⟨trivial, fun _ _ _ _ h => by cases h; exact hq _⟩
  · cases hr
    exact htimeout

end

end Cyberlegion
