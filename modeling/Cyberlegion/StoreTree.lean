import Cyberlegion.Hub
import Cyberlegion.Lib.Disk

/-!
# The file store: one directory tree

The methods of `FileStore` that file agents, projects, service leases, briefs and
messages, each run alone, with every path as text: the root, then names built from
the ids. The JSON text of a record is stood for by the record.
-/

namespace Cyberlegion

namespace Tree

open Disk DiskM

inductive Data
  | agent (rec : AgentRecord)
  | project (rec : ProjectRecord)
  | lease (lease : ServiceLease)
  | message (msg : Message)
  | text (s : String)

/-! ## `paths` -/

namespace paths

def agentsDir (root : AbsPath) : AbsPath := root ++ ["agents"]

def agentFile (root : AbsPath) (id : String) : Except InvalidIdError AbsPath := do
  return root ++ ["agents", (← assertSafeId id "agent id") ++ ".json"]

def inboxDir (root : AbsPath) (id : String) : Except InvalidIdError AbsPath := do
  return root ++ ["inbox", ← assertSafeId id "agent id"]

def inboxReadDir (root : AbsPath) (id : String) : Except InvalidIdError AbsPath := do
  return root ++ ["inbox", ← assertSafeId id "agent id", "read"]

def dataDir (root : AbsPath) (id : String) : Except InvalidIdError AbsPath := do
  return root ++ ["data", ← assertSafeId id "agent id"]

def briefFile (root : AbsPath) (id : String) : Except InvalidIdError AbsPath := do
  return root ++ ["data", ← assertSafeId id "agent id", "brief.md"]

def projectsDir (root : AbsPath) : AbsPath := root ++ ["projects"]

def projectFile (root : AbsPath) (id : String) : Except InvalidIdError AbsPath := do
  return root ++ ["projects", (← assertSafeId id "project id") ++ ".json"]

def serviceLeaseFile (root : AbsPath) (project service : String) : Except InvalidIdError AbsPath := do
  return root ++ ["services", ← assertSafeId project "project id", (← assertSafeId service "service name") ++ ".json"]

def messageFile (root : AbsPath) (toId msgId : String) : Except InvalidIdError AbsPath := do
  return (← inboxDir root toId) ++ [(← assertSafeId msgId "message id") ++ ".json"]

def messageReadFile (root : AbsPath) (toId msgId : String) : Except InvalidIdError AbsPath := do
  return (← inboxReadDir root toId) ++ [(← assertSafeId msgId "message id") ++ ".json"]

end paths

/-! ## Calls -/

inductive StoreError
  | invalidId (e : InvalidIdError)
  | corruptRecord (file : AbsPath)
  | fs (e : Errno)
  | notUnread (msgId : String)
  | notInInbox (msgId : String)

abbrev TreeM := DiskM Data StoreError

/-- Of the process: its pid, its `tmpCounter`, and the order its filesystem lists a
directory in. -/
structure Process where
  pid : Nat
  tmpCounter : Nat
  order : AbsPath → List String → List String
  order_perm : ∀ p l, (order p l).Perm l

def existsSync (p : AbsPath) : TreeM Bool := look fun d => d.has p

def readdirSync (proc : Process) (p : AbsPath) : TreeM (List String) := do
  if ← look (fun d => decide (p ∈ d.dirs)) then proc.order p <$> look fun d => d.names p
  else throw (.fs .noEnt)

def readFileSync (p : AbsPath) : TreeM Data := do
  match ← look fun d => d.files.lookup p with
  | some v => return v
  | none => throw (.fs .noEnt)

def dirname (p : AbsPath) : AbsPath := p.dropLast

def orThrow : Except InvalidIdError AbsPath → TreeM AbsPath
  | .ok p => pure p
  | .error e => throw (.invalidId e)

def readPathOrUndefined : Except InvalidIdError AbsPath → Option AbsPath
  | .ok p => some p
  | .error _ => none

/-- `parse` is what `JSON.parse` makes of the file. -/
def readJsonRecord {α : Type} (parse : Data → Option α) (file : AbsPath) : TreeM α := do
  match parse (← readFileSync file) with
  | some a => return a
  | none => throw (.corruptRecord file)

def Data.agent? : Data → Option AgentRecord
  | agent rec => some rec
  | _ => none

def Data.project? : Data → Option ProjectRecord
  | project rec => some rec
  | _ => none

def Data.lease? : Data → Option ServiceLease
  | lease l => some l
  | _ => none

def Data.message? : Data → Option Message
  | message msg => some msg
  | _ => none

def Data.text? : Data → Option String
  | text s => some s
  | _ => none

/-- What `readMessages`, `listAgents` and `listProjects` share. -/
def readRecords {α : Type} (proc : Process) (parse : Data → Option α) (dir : AbsPath) : TreeM (List α) := do
  if ← existsSync dir then
    let names ← readdirSync proc dir
    (names.filter (·.endsWith ".json")).mapM fun f => readJsonRecord parse (dir ++ [f])
  else return []

def readMessages (proc : Process) (dir : AbsPath) : TreeM (List Message) := readRecords proc Data.message? dir

/-- A text put after a path's last name. -/
def suffixed (p : AbsPath) (s : String) : AbsPath := p.dropLast ++ (p.getLast?.map (· ++ s)).toList

def tmpFile (proc : Process) (file : AbsPath) : AbsPath :=
  suffixed file ("." ++ toString proc.pid ++ "." ++ toString proc.tmpCounter ++ ".tmp")

def writeFileAtomic (proc : Process) (file : AbsPath) (data : Data) : TreeM Unit := do
  call .fs (mkdir (dirname file))
  call .fs (Disk.write (tmpFile proc file) data)
  call .fs (rename (tmpFile proc file) file)

/-! ## Methods -/

section
variable (root : AbsPath) (proc : Process)

def putMessage (toId : String) (msg : Message) : TreeM Unit := do
  writeFileAtomic proc (← orThrow (paths.messageFile root toId msg.id)) (.message msg)

def listInbox (id : String) : TreeM InboxSnapshot := do
  let unread ← match readPathOrUndefined (paths.inboxDir root id) with
    | some inbox => readMessages proc inbox
    | none => pure []
  let read ← match readPathOrUndefined (paths.inboxReadDir root id) with
    | some read => readMessages proc read
    | none => pure []
  return ⟨unread, read⟩

def ackMessage (id msgId : String) : TreeM Message := do
  match readPathOrUndefined (paths.messageFile root id msgId) with
  | none => throw (.notUnread msgId)
  | some src =>
    if ← existsSync src then
      let msg ← readJsonRecord Data.message? src
      let dest ← orThrow (paths.messageReadFile root id msgId)
      call .fs (mkdir (dirname dest))
      call .fs (rename src dest)
      return msg
    else throw (.notUnread msgId)

/-- The rest of `removeMessage` when there is no unread file. -/
def removeRead (id msgId : String) : TreeM Unit := do
  match readPathOrUndefined (paths.messageReadFile root id msgId) with
  | none => throw (.notInInbox msgId)
  | some readFile =>
    if ← existsSync readFile then call .fs (remove readFile)
    else throw (.notInInbox msgId)

def removeMessage (id msgId : String) : TreeM Unit := do
  match readPathOrUndefined (paths.messageFile root id msgId) with
  | none => removeRead root id msgId
  | some unreadFile =>
    if ← existsSync unreadFile then call .fs (remove unreadFile)
    else removeRead root id msgId

def removeMailbox (id : String) : TreeM Unit := do
  call .fs (removeTree (← orThrow (paths.inboxDir root id)))

def putAgent (rec : AgentRecord) : TreeM Unit := do
  writeFileAtomic proc (← orThrow (paths.agentFile root rec.id)) (.agent rec)

/-- `getAgent`, `getProject`, `getServiceLease` and `readBrief`: `undefined` when the
file is not there. -/
def getRecord {α : Type} (parse : Data → Option α) (file : Except InvalidIdError AbsPath) : TreeM (Option α) := do
  match readPathOrUndefined file with
  | none => return none
  | some file =>
    if ← existsSync file then some <$> readJsonRecord parse file
    else return none

def getAgent (id : String) : TreeM (Option AgentRecord) := getRecord Data.agent? (paths.agentFile root id)

def listAgents : TreeM (List AgentRecord) := do
  return (← readRecords proc Data.agent? (paths.agentsDir root)).insertionSort fun a b => a.createdAt ≤ b.createdAt

def removeAgent (id : String) : TreeM Unit := do
  call .fs (removeForce (← orThrow (paths.agentFile root id)))

def removeAgentData (id : String) : TreeM Unit := do
  call .fs (removeTree (← orThrow (paths.dataDir root id)))

def putProject (rec : ProjectRecord) : TreeM Unit := do
  writeFileAtomic proc (← orThrow (paths.projectFile root rec.id)) (.project rec)

def getProject (id : String) : TreeM (Option ProjectRecord) := getRecord Data.project? (paths.projectFile root id)

def listProjects : TreeM (List ProjectRecord) := do
  return (← readRecords proc Data.project? (paths.projectsDir root)).insertionSort
    fun a b => a.registeredAt ≤ b.registeredAt

def putServiceLease (lease : ServiceLease) : TreeM Unit := do
  writeFileAtomic proc (← orThrow (paths.serviceLeaseFile root lease.project lease.service)) (.lease lease)

def getServiceLease (project service : String) : TreeM (Option ServiceLease) :=
  getRecord Data.lease? (paths.serviceLeaseFile root project service)

def writeBrief (agentId text : String) : TreeM Unit := do
  writeFileAtomic proc (← orThrow (paths.briefFile root agentId)) (.text text)

def readBrief (agentId : String) : TreeM (Option String) := getRecord Data.text? (paths.briefFile root agentId)

end

/-! ## A sequence of them -/

inductive Op
  | putMessage (toId : String) (msg : Message)
  | listInbox (id : String)
  | ackMessage (id msgId : String)
  | removeMessage (id msgId : String)
  | removeMailbox (id : String)
  | putAgent (rec : AgentRecord)
  | getAgent (id : String)
  | listAgents
  | removeAgent (id : String)
  | removeAgentData (id : String)
  | putProject (rec : ProjectRecord)
  | getProject (id : String)
  | listProjects
  | putServiceLease (lease : ServiceLease)
  | getServiceLease (project service : String)
  | writeBrief (agentId text : String)
  | readBrief (agentId : String)

inductive Answer
  | done
  | message (msg : Message)
  | inbox (snap : InboxSnapshot)
  | agent (rec : Option AgentRecord)
  | agents (recs : List AgentRecord)
  | project (rec : Option ProjectRecord)
  | projects (recs : List ProjectRecord)
  | lease (lease : Option ServiceLease)
  | brief (text : Option String)

def Op.prog (root : AbsPath) (proc : Process) : Op → TreeM Answer
  | .putMessage toId msg => (fun _ => .done) <$> Tree.putMessage root proc toId msg
  | .listInbox id => .inbox <$> Tree.listInbox root proc id
  | .ackMessage id msgId => .message <$> Tree.ackMessage root id msgId
  | .removeMessage id msgId => (fun _ => .done) <$> Tree.removeMessage root id msgId
  | .removeMailbox id => (fun _ => .done) <$> Tree.removeMailbox root id
  | .putAgent rec => (fun _ => .done) <$> Tree.putAgent root proc rec
  | .getAgent id => .agent <$> Tree.getAgent root id
  | .listAgents => .agents <$> Tree.listAgents root proc
  | .removeAgent id => (fun _ => .done) <$> Tree.removeAgent root id
  | .removeAgentData id => (fun _ => .done) <$> Tree.removeAgentData root id
  | .putProject rec => (fun _ => .done) <$> Tree.putProject root proc rec
  | .getProject id => .project <$> Tree.getProject root id
  | .listProjects => .projects <$> Tree.listProjects root proc
  | .putServiceLease lease => (fun _ => .done) <$> Tree.putServiceLease root proc lease
  | .getServiceLease project service => .lease <$> Tree.getServiceLease root project service
  | .writeBrief agentId text => (fun _ => .done) <$> Tree.writeBrief root proc agentId text
  | .readBrief agentId => .brief <$> Tree.readBrief root agentId

/-- The answers of a sequence of operations, and the disk after it. -/
def runOps (root : AbsPath) : List (Process × Op) → Disk Data → List (Except StoreError Answer) × Disk Data
  | [], d => ([], d)
  | (proc, op) :: ops, d =>
    let p := (op.prog root proc).result d
    let q := runOps root ops p.2
    (p.1 :: q.1, q.2)

end Tree

end Cyberlegion
