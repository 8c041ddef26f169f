import Cyberlegion.Lib.Prog
import Cyberlegion.Lib.Table
import Cyberlegion.Paths

/-!
# The file store: mail

The mailbox half of `store/file-store.ts`, as programs over single filesystem
calls. A message is one file, unread in `inbox/<id>/` and read in
`inbox/<id>/read/`.
-/

namespace Cyberlegion

structure Message where
  id : String
  sender : String
  fromHandle : String
  «to» : String
  subject : Option String := none
  body : String
  thread : Option String := none
  replyTo : Option String := none
  ts : Int
  sentAt : String
deriving DecidableEq

structure InboxSnapshot where
  unread : List Message
  read : List Message

namespace FileStore

open Effects

/-! ## The filesystem -/

inductive Content
  | message (m : Message)
  /-- A text `JSON.parse` refuses. -/
  | corrupt
deriving DecidableEq

structure Fs where
  files : Table Path Content
  dirs : List Path

/-- `none` and `false` answer with `ENOENT`. -/
inductive FsCall
  | existsSync (p : Path)
  | readdirSync (p : Path)
  | readFileSync (p : Path)
  | mkdirSync (p : Path)
  | writeFileSync (p : Path) (data : Content)
  | renameSync (src dest : Path)
  | rmSync (p : Path)

@[reducible] def FsCall.Res : FsCall → Type
  | existsSync _ => Bool
  | readdirSync _ => Option (List Seg)
  | readFileSync _ => Option Content
  | mkdirSync _ => Unit
  | writeFileSync _ _ => Bool
  | renameSync _ _ => Bool
  | rmSync _ => Bool

def dirname (p : Path) : Path := p.dropLast

def entries (fs : Fs) (dir : Path) : List Seg :=
  (fs.files.keys ++ fs.dirs).filterMap fun p => if dirname p = dir then p.getLast? else none

def fsCall : (op : FsCall) → Unit → Fs → Option (op.Res × Fs)
  | .existsSync p, _, fs => some (((fs.files.lookup p).isSome || decide (p ∈ fs.dirs) : Bool), fs)
  | .readdirSync p, _, fs => some (if p ∈ fs.dirs then some (entries fs p) else none, fs)
  | .readFileSync p, _, fs => some (fs.files.lookup p, fs)
  | .mkdirSync p, _, fs => some ((), { fs with dirs := p.inits ++ fs.dirs })
  | .writeFileSync p data, _, fs =>
    if dirname p ∈ fs.dirs then some (true, { fs with files := fs.files.insert p data }) else some (false, fs)
  | .renameSync src dest, _, fs =>
    match fs.files.lookup src with
    | none => some (false, fs)
    | some data =>
      if dirname dest ∈ fs.dirs then some (true, { fs with files := (fs.files.erase src).insert dest data })
      else some (false, fs)
  | .rmSync p, _, fs =>
    match fs.files.lookup p with
    | none => some (false, fs)
    | some _ => some (true, { fs with files := fs.files.erase p })

/-! ## The store's functions -/

inductive StoreError
  | invalidId (e : InvalidIdError)
  | corruptRecord (file : Path)
  | enoent (file : Path)
  | notUnread (msgId : String)
  | notInInbox (msgId : String)
deriving DecidableEq

abbrev FsM := Prog FsCall FsCall.Res StoreError

@[simp] def existsSync (p : Path) : FsM Bool := .call (.existsSync p) .ret
@[simp] def readdirSync (p : Path) : FsM (Option (List Seg)) := .call (.readdirSync p) .ret
@[simp] def readFileSync (p : Path) : FsM (Option Content) := .call (.readFileSync p) .ret
@[simp] def mkdirSync (p : Path) : FsM Unit := .call (.mkdirSync p) .ret
@[simp] def writeFileSync (p : Path) (data : Content) : FsM Bool := .call (.writeFileSync p data) .ret
@[simp] def renameSync (src dest : Path) : FsM Bool := .call (.renameSync src dest) .ret
@[simp] def rmSync (p : Path) : FsM Bool := .call (.rmSync p) .ret

/-- A path built outside `readPathOrUndefined`: its `InvalidIdError` is thrown. -/
def orThrow : Except InvalidIdError Path → FsM Path
  | .ok p => pure p
  | .error e => throw (.invalidId e)

def readPathOrUndefined : Except InvalidIdError Path → Option Path
  | .ok p => some p
  | .error _ => none

def readJsonRecord (file : Path) : FsM Message := do
  match ← readFileSync file with
  | none => throw (.enoent file)
  | some .corrupt => throw (.corruptRecord file)
  | some (.message m) => return m

def endsWithJson : Seg → Bool
  | .name s => s.endsWith ".json"
  | .tmp _ _ _ => false

def readMessages (dir : Path) : FsM (List Message) := do
  if ← existsSync dir then
    match ← readdirSync dir with
    | none => throw (.enoent dir)
    | some names => (names.filter endsWithJson).mapM fun f => readJsonRecord (dir ++ [f])
  else return []

def tmpFile (file : Path) (pid n : Nat) : Path :=
  dirname file ++ (file.getLast?.map fun f => Seg.tmp f pid n).toList

def writeFileAtomic (file : Path) (pid n : Nat) (data : Content) : FsM Unit := do
  mkdirSync (dirname file)
  let tmp := tmpFile file pid n
  if ← writeFileSync tmp data then
    if ← renameSync tmp file then return ()
    else throw (.enoent tmp)
  else throw (.enoent tmp)

/-- `pid` and `n` are `process.pid` and `tmpCounter`. -/
def putMessage (pid n : Nat) (toId : String) (msg : Message) : FsM Unit := do
  writeFileAtomic (← orThrow (paths.messageFile toId msg.id)) pid n (.message msg)

def listInbox (id : String) : FsM InboxSnapshot := do
  let unread ← match readPathOrUndefined (paths.inboxDir id) with
    | some inbox => readMessages inbox
    | none => pure []
  let read ← match readPathOrUndefined (paths.inboxReadDir id) with
    | some read => readMessages read
    | none => pure []
  return ⟨unread, read⟩

def ackMessage (id msgId : String) : FsM Message := do
  match readPathOrUndefined (paths.messageFile id msgId) with
  | none => throw (.notUnread msgId)
  | some src =>
    if ← existsSync src then
      let msg ← readJsonRecord src
      let dest ← orThrow (paths.messageReadFile id msgId)
      mkdirSync (dirname dest)
      if ← renameSync src dest then return msg
      else throw (.enoent src)
    else throw (.notUnread msgId)

/-- The rest of `removeMessage` when there is no unread file. -/
def removeRead (id msgId : String) : FsM Unit := do
  match readPathOrUndefined (paths.messageReadFile id msgId) with
  | none => throw (.notInInbox msgId)
  | some readFile =>
    if ← existsSync readFile then
      if ← rmSync readFile then return ()
      else throw (.enoent readFile)
    else throw (.notInInbox msgId)

def removeMessage (id msgId : String) : FsM Unit := do
  match readPathOrUndefined (paths.messageFile id msgId) with
  | none => removeRead id msgId
  | some unreadFile =>
    if ← existsSync unreadFile then
      if ← rmSync unreadFile then return ()
      else throw (.enoent unreadFile)
    else removeRead id msgId

end FileStore

end Cyberlegion
