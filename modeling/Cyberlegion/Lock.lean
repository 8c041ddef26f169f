import Mathlib.Logic.Function.Basic
import Cyberlegion.Lib.Runs

/-!
# The store lock

`store/lock.ts` over `store/process-liveness.ts`. A lock is a directory
`locks/<name>.lock` with a `holder.json` in it; an abandoned one is renamed to a
private grave before it is removed. The model runs any number of calls of
`acquireLock` on one name, one filesystem step at a time, each of which may crash
between two steps. A directory and an open file keep their identity when the path
that named them is renamed, so a late write goes where the descriptor points.
-/

namespace Cyberlegion.Lock

/-! ## Process liveness -/

inductive ProcessLiveness
  | alive | dead | unknown
deriving DecidableEq

/-- What `process.kill(pid, 0)` does: returns, throws `ESRCH`, or throws another errno. -/
inductive KillResult
  | delivered | esrch | otherErrno
deriving DecidableEq

def probeProcess (self : Nat) (kill : Nat → KillResult) (pid : Nat) : ProcessLiveness :=
  if pid = self then .alive
  else match kill pid with
    | .delivered => .alive
    | .esrch => .dead
    | .otherErrno => .unknown

def heldByLiveOrUnknownPid (self : Nat) (kill : Nat → KillResult) (pid : Nat) : Bool :=
  probeProcess self kill pid ≠ .dead

/-! ## The filesystem around one lock path -/

/-- One call of `acquireLock` and the handle it returns. Two calls may be made by
one process, so their pids may be equal. -/
abbrev Proc := Nat
abbrev Dir := Nat
abbrev File := Nat

structure Holder where
  pid : Nat
  acquiredAt : Int
deriving DecidableEq

/-- The text of a `holder.json`. -/
inductive Content
  | empty
  | json (h : Holder)
  /-- Left by two overlapping writes to one file; it does not parse. -/
  | torn
deriving DecidableEq

structure Fs where
  lockDir : Option Dir
  grave : Proc → Option Dir
  holderFile : Dir → Option File
  content : File → Content
  nextDir : Dir
  nextFile : File

/-- The two paths a directory can be at: the lock path and a call's private grave. -/
inductive Place
  | lock
  | grave (p : Proc)
deriving DecidableEq

def Fs.at (fs : Fs) : Place → Option Dir
  | .lock => fs.lockDir
  | .grave p => fs.grave p

def Fs.clear (fs : Fs) : Place → Fs
  | .lock => { fs with lockDir := none }
  | .grave p => { fs with grave := Function.update fs.grave p none }

def readHolder (fs : Fs) (pl : Place) : Option Holder :=
  match fs.at pl with
  | none => none
  | some d => match fs.holderFile d with
    | none => none
    | some f => match fs.content f with
      | .json h => some h
      | _ => none

/-- `mkdirSync(dir)`; `none` is `EEXIST`. -/
def mkdirLock (fs : Fs) : Option Fs :=
  match fs.lockDir with
  | some _ => none
  | none => some { fs with lockDir := some fs.nextDir, nextDir := fs.nextDir + 1 }

/-- The open of `writeFileSync`, which creates or truncates; `none` is `ENOENT`. -/
def openHolder (fs : Fs) : Option (File × Fs) :=
  match fs.lockDir with
  | none => none
  | some d => match fs.holderFile d with
    | some f => some (f, { fs with content := Function.update fs.content f .empty })
    | none => some (fs.nextFile,
        { fs with
          holderFile := Function.update fs.holderFile d (some fs.nextFile)
          content := Function.update fs.content fs.nextFile .empty
          nextFile := fs.nextFile + 1 })

/-- The write of `writeFileSync`, at the start of the open file. -/
def writeHolder (fs : Fs) (f : File) (h : Holder) (torn : Bool) : Fs :=
  { fs with
    content := Function.update fs.content f
      (if fs.content f ≠ .empty ∧ torn then .torn else .json h) }

/-- `renameSync(dir, grave)`; `none` is `ENOENT`. -/
def renameToGrave (fs : Fs) (p : Proc) : Option Fs :=
  match fs.lockDir with
  | none => none
  | some d => some { fs with lockDir := none, grave := Function.update fs.grave p (some d) }

/-- `renameSync(grave, dir)`, onto a missing or an empty directory; `none` is `ENOTEMPTY`
(or `ENOENT`). -/
def renameBack (fs : Fs) (p : Proc) : Option Fs :=
  match fs.grave p with
  | none => none
  | some g =>
    let moved := { fs with lockDir := some g, grave := Function.update fs.grave p none }
    match fs.lockDir with
    | none => some moved
    | some d => if fs.holderFile d = none then some moved else none

/-! ## The steps of a call -/

inductive LockError
  | timeout | enoent | enotempty
deriving DecidableEq

/-- Where a recursive remove goes on: `release` returns, `tryReclaimStale` returns
true (the loop continues) or false (it checks the deadline). -/
inductive After
  | released
  | reclaimed (deadline : Int)
  | refused (deadline : Int)
deriving DecidableEq

inductive Pc
  | fresh
  | mkdir (deadline : Int)
  | openHolder
  | writeHolder (f : File) (h : Holder)
  | held
  | readHolder (deadline : Int)
  | probeHolder (pid : Nat) (deadline : Int)
  | capture (deadline : Int)
  | readGrave (deadline : Int)
  | probeGrave (pid : Nat) (deadline : Int)
  | restore (deadline : Int)
  | rmFiles (pl : Place) (k : After)
  | rmDir (pl : Place) (k : After)
  | wait (deadline : Int)
  | released
  | threw (e : LockError)
  | crashed
deriving DecidableEq

def After.pc : After → Pc
  | .released => .released
  | .reclaimed dl => .mkdir dl
  | .refused dl => .wait dl

/-- A process outside `acquireLock` that holds no handle and may call it. -/
def Pc.mayAcquire : Pc → Bool
  | .fresh | .released | .threw _ => true
  | _ => false

structure St where
  fs : Fs
  pc : Proc → Pc

def St.goto (s : St) (p : Proc) (c : Pc) : St := { s with pc := Function.update s.pc p c }

def St.move (s : St) (fs : Fs) (p : Proc) (c : Pc) : St := { fs := fs, pc := Function.update s.pc p c }

/-- What the surroundings answer during one step: the clock, the kernel, and how
an overlapping write or a remove that meets a new entry ends. -/
structure Env where
  now : Int
  kill : Nat → KillResult
  torn : Bool := false
  again : Bool := false

/-- The next filesystem step of `acquireLock`, `tryReclaimStale` or `release`. -/
def fsStep (pid : Proc → Nat) (s : St) (p : Proc) (env : Env) : Option St :=
  match s.pc p with
  | .mkdir dl => match mkdirLock s.fs with
    | some fs => some (s.move fs p .openHolder)
    | none => some (s.goto p (.readHolder dl))
  | .openHolder => match openHolder s.fs with
    | some (f, fs) => some (s.move fs p (.writeHolder f ⟨pid p, env.now⟩))
    | none => some (s.goto p (.threw .enoent))
  | .writeHolder f h => some (s.move (writeHolder s.fs f h env.torn) p .held)
  | .readHolder dl => match readHolder s.fs .lock with
    | some h => some (s.goto p (.probeHolder h.pid dl))
    | none => some (s.goto p (.wait dl))
  | .probeHolder n dl =>
    some (s.goto p (if heldByLiveOrUnknownPid (pid p) env.kill n then .wait dl else .capture dl))
  | .capture dl => match renameToGrave s.fs p with
    | some fs => some (s.move fs p (.readGrave dl))
    | none => some (s.goto p (.wait dl))
  | .readGrave dl => match readHolder s.fs (.grave p) with
    | some h => some (s.goto p (.probeGrave h.pid dl))
    | none => some (s.goto p (.rmFiles (.grave p) (.reclaimed dl)))
  | .probeGrave n dl =>
    some (s.goto p (if heldByLiveOrUnknownPid (pid p) env.kill n then .restore dl
      else .rmFiles (.grave p) (.reclaimed dl)))
  | .restore dl => match renameBack s.fs p with
    | some fs => some (s.move fs p (.wait dl))
    | none => some (s.goto p (.rmFiles (.grave p) (.refused dl)))
  | .rmFiles pl k => match s.fs.at pl with
    | none => some (s.goto p k.pc)
    | some d => some (s.move { s.fs with holderFile := Function.update s.fs.holderFile d none } p (.rmDir pl k))
  | .rmDir pl k => match s.fs.at pl with
    | none => some (s.goto p k.pc)
    | some d =>
      if s.fs.holderFile d = none then some (s.move (s.fs.clear pl) p k.pc)
      else some (s.goto p (if env.again then .rmFiles pl k else .threw .enotempty))
  | .wait dl => some (s.goto p (if dl < env.now then .threw .timeout else .mkdir dl))
  | _ => none

inductive Act
  | acquire (timeoutMs : Int) (now : Int)
  | step (env : Env)
  | release
  | crash

structure Event where
  proc : Proc
  act : Act

def step (pid : Proc → Nat) (s : St) (e : Event) : Option St :=
  match e.act with
  | .acquire timeoutMs now =>
    if (s.pc e.proc).mayAcquire then some (s.goto e.proc (.mkdir (now + timeoutMs))) else none
  | .step env => fsStep pid s e.proc env
  | .release => if s.pc e.proc = .held then some (s.goto e.proc (.rmFiles .lock .released)) else none
  | .crash => if s.pc e.proc = .crashed then none else some (s.goto e.proc .crashed)

def init : St where
  fs := { lockDir := none, grave := fun _ => none, holderFile := fun _ => none, content := fun _ => .empty,
          nextDir := 0, nextFile := 0 }
  pc := fun _ => .fresh

/-- The kernel answers `ESRCH` only for a pid that no living process has. -/
def KillSound (pid : Proc → Nat) (s : St) (e : Event) : Prop :=
  ∀ env, e.act = .step env → ∀ q, env.kill (pid q) = .esrch → s.pc q = .crashed

/-! ## A step changes the program counter of its own call only -/

section
variable {pid : Proc → Nat}

theorem fsStep_pc {s s' : St} {p : Proc} {env : Env} (h : fsStep pid s p env = some s') :
    ∃ c, s'.pc = Function.update s.pc p c := by
  unfold fsStep at h
  split at h <;> (repeat' split at h) <;> first | (cases h; exact ⟨_, rfl⟩) | cases h

theorem pc_other {s s' : St} {e : Event} {q : Proc} (hq : q ≠ e.proc) (h : step pid s e = some s') :
    s'.pc q = s.pc q := by
  have other : ∀ c, Function.update s.pc e.proc c q = s.pc q := fun c => by rw [Function.update_of_ne hq]
  cases hact : e.act with
  | step env =>
    simp only [step, hact] at h
    obtain ⟨c, hc⟩ := fsStep_pc h
    rw [hc]; exact other c
  | _ =>
    simp only [step, hact] at h
    split at h <;> cases h
    exact other _

end

end Cyberlegion.Lock
