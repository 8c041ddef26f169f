import Cyberlegion.Lib.Commit
import Cyberlegion.FileStore

/-!
# Operations on one mailbox

`send`, `ack` and `deleteMessage` of `message.ts` down to their filesystem calls.
The mailbox is read off the files as a map from message ids to what is unread and
what is read; each operation changes it with its last call or not at all.
-/

namespace Cyberlegion.Mail

open Effects FileStore

inductive Job
  | send (pid n : Nat) (msg : Message)
  | ack (msgId : String)
  | delete (msgId : String)

def Job.msgId : Job → String
  | .send _ _ msg => msg.id
  | .ack msgId => msgId
  | .delete msgId => msgId

def Job.prog (box : String) : Job → FsM (Option Message)
  | .send pid n msg => do putMessage pid n box msg; return none
  | .ack msgId => do return some (← ackMessage box msgId)
  | .delete msgId => do removeMessage box msgId; return none

/-! ## The mailbox as two maps -/

def unread (box : String) (fs : Fs) (msgId : String) : Option Content :=
  (readPathOrUndefined (paths.messageFile box msgId)).bind fs.files.lookup

def read (box : String) (fs : Fs) (msgId : String) : Option Content :=
  (readPathOrUndefined (paths.messageReadFile box msgId)).bind fs.files.lookup

def mailbox (box : String) (fs : Fs) (msgId : String) : Option Content × Option Content :=
  (unread box fs msgId, read box fs msgId)

def unreadPath (box msgId : String) : Path := [.name "inbox", .name box, .name (msgId ++ ".json")]

def readPath (box msgId : String) : Path := [.name "inbox", .name box, .name "read", .name (msgId ++ ".json")]

def tmpPath (box msgId : String) (pid n : Nat) : Path :=
  [.name "inbox", .name box, .tmp (.name (msgId ++ ".json")) pid n]

section
variable {box x y : String} {fs : Fs}

theorem mailbox_safe (hb : safeId box) (hx : safeId x) :
    mailbox box fs x = (fs.files.lookup (unreadPath box x), fs.files.lookup (readPath box x)) := by
  simp only [mailbox, unread, read, messageFile_safe hb hx, messageReadFile_safe hb hx]
  rfl

theorem messageFile_of_not_safe (h : ¬ (safeId box ∧ safeId x)) :
    readPathOrUndefined (paths.messageFile box x) = none ∧
      readPathOrUndefined (paths.messageReadFile box x) = none := by
  by_cases hb : safeId box
  · have hx : safeId x = false := by simpa using fun hx => h ⟨hb, hx⟩
    simp [paths.messageFile, paths.messageReadFile, paths.inboxDir, paths.inboxReadDir, assertSafeId, hb, hx,
      bind, Except.bind, readPathOrUndefined, pure, Except.pure]
  · simp [paths.messageFile, paths.messageReadFile, paths.inboxDir, paths.inboxReadDir, assertSafeId, hb,
      bind, Except.bind, readPathOrUndefined]

theorem mailbox_of_not_safe (h : ¬ (safeId box ∧ safeId x)) : mailbox box fs x = (none, none) := by
  obtain ⟨hu, hr⟩ := messageFile_of_not_safe h
  simp only [mailbox, unread, read, hu, hr, Option.bind_none]

theorem mailbox_congr {fs' : Fs} (hb : safeId box) (x : String)
    (h : safeId x → fs'.files.lookup (unreadPath box x) = fs.files.lookup (unreadPath box x) ∧
      fs'.files.lookup (readPath box x) = fs.files.lookup (readPath box x)) :
    mailbox box fs' x = mailbox box fs x := by
  by_cases hx : safeId x
  · rw [mailbox_safe hb hx, mailbox_safe hb hx, (h hx).1, (h hx).2]
  · rw [mailbox_of_not_safe fun h => hx h.2, mailbox_of_not_safe fun h => hx h.2]

/-! The files of a mailbox are told apart by their paths. -/

@[simp] theorem unreadPath_inj : unreadPath box x = unreadPath box y ↔ x = y := by
  constructor
  · intro h
    simp only [unreadPath, List.cons.injEq, Seg.name.injEq, true_and, and_true] at h
    exact json_inj h
  · rintro rfl; rfl

@[simp] theorem readPath_inj : readPath box x = readPath box y ↔ x = y := by
  constructor
  · intro h
    simp only [readPath, List.cons.injEq, Seg.name.injEq, true_and, and_true] at h
    exact json_inj h
  · rintro rfl; rfl

@[simp] theorem unreadPath_ne_readPath : unreadPath box x ≠ readPath box y := by simp [unreadPath, readPath]

@[simp] theorem readPath_ne_unreadPath : readPath box x ≠ unreadPath box y := by simp [unreadPath, readPath]

variable {pid n pid' n' : Nat}

@[simp] theorem tmpPath_ne_unreadPath : tmpPath box x pid n ≠ unreadPath box y := by simp [unreadPath, tmpPath]

@[simp] theorem tmpPath_ne_readPath : tmpPath box x pid n ≠ readPath box y := by simp [readPath, tmpPath]

@[simp] theorem unreadPath_ne_tmpPath : unreadPath box y ≠ tmpPath box x pid n := by simp [unreadPath, tmpPath]

@[simp] theorem readPath_ne_tmpPath : readPath box y ≠ tmpPath box x pid n := by simp [readPath, tmpPath]

theorem tmpPath_ne (h : x ≠ y) : tmpPath box x pid n ≠ tmpPath box y pid' n' := by
  intro heq
  simp only [tmpPath, List.cons.injEq, Seg.tmp.injEq, Seg.name.injEq, true_and, and_true] at heq
  exact h (json_inj heq.1)

end

/-! ## What each operation promises -/

def Job.sends : Job → String → Prop
  | .send _ _ msg, x => msg.id = x
  | _, _ => False

theorem Job.sends_msgId {J : Job} {x : String} (h : J.sends x) : J.msgId = x := by
  cases J with
  | send _ _ _ => exact h
  | _ => exact h.elim

/-- Directories stay, and so do the temporary files of the messages in `P`. -/
def KeepsTmp (box : String) (P : String → Prop) (t u : Fs) : Prop :=
  (∀ d ∈ t.dirs, d ∈ u.dirs) ∧
    ∀ x, P x → ∀ pid n, u.files.lookup (tmpPath box x pid n) = t.files.lookup (tmpPath box x pid n)

def Job.commits (box : String) : Job → Fs → Fs → Prop
  | .send _ _ msg, t, u =>
    mailbox box u = Function.update (mailbox box t) msg.id (some (.message msg), (mailbox box t msg.id).2)
  | .ack x, t, u => ∃ c, (mailbox box t x).1 = some c ∧
      mailbox box u = Function.update (mailbox box t) x (none, some c)
  | .delete x, t, u =>
    ((mailbox box t x).1 ≠ none ∧ mailbox box u = Function.update (mailbox box t) x (none, (mailbox box t x).2)) ∨
    ((mailbox box t x).2 ≠ none ∧ mailbox box u = Function.update (mailbox box t) x ((mailbox box t x).1, none))

theorem commits_other {box : String} {J : Job} {t u : Fs} (h : J.commits box t u) {x : String}
    (hx : x ≠ J.msgId) : mailbox box u x = mailbox box t x := by
  cases J with
  | send pid n msg => exact (congrFun h x).trans (Function.update_of_ne hx _ _)
  | ack y =>
    obtain ⟨c, -, h⟩ := h
    exact (congrFun h x).trans (Function.update_of_ne hx _ _)
  | delete y =>
    rcases h with ⟨-, h⟩ | ⟨-, h⟩
    · exact (congrFun h x).trans (Function.update_of_ne hx _ _)
    · exact (congrFun h x).trans (Function.update_of_ne hx _ _)

theorem commits_gone {box : String} {J : Job} {t u : Fs} (h : J.commits box t u) {x : String}
    (hx : J.msgId = x) (hsend : ¬ J.sends x) (hnone : (mailbox box t x).1 = none) :
    (mailbox box u x).1 = none := by
  subst hx
  cases J with
  | send pid n msg => exact absurd rfl hsend
  | ack y =>
    obtain ⟨c, -, h⟩ := h
    rw [congrFun h]
    simp [Job.msgId]
  | delete y =>
    rcases h with ⟨-, h⟩ | ⟨-, h⟩
    · rw [congrFun h]; simp [Job.msgId]
    · rw [congrFun h]; simpa [Job.msgId] using hnone

def contract (box : String) (J : Job) : Contract Fs where
  rely := KeepsTmp box J.sends
  guar := KeepsTmp box fun x => ¬ J.sends x
  quiet t u := mailbox box u = mailbox box t
  commit := J.commits box
  fails t := match J with
    | .ack x => ∀ m, (mailbox box t x).1 ≠ some (.message m)
    | _ => True

section
variable {box x : String} {P : String → Prop} {t u v : Fs}

theorem KeepsTmp.refl : KeepsTmp box P t t := ⟨fun _ h => h, fun _ _ _ _ => rfl⟩

theorem KeepsTmp.trans (htu : KeepsTmp box P t u) (huv : KeepsTmp box P u v) : KeepsTmp box P t v :=
  ⟨fun d hd => huv.1 d (htu.1 d hd), fun x hx pid n => (huv.2 x hx pid n).trans (htu.2 x hx pid n)⟩

theorem compatible {ι : Type} {jobs : ι → Job}
    (hids : ∀ i j x, (jobs i).sends x → (jobs j).sends x → i = j) :
    Compatible fun i => contract box (jobs i) where
  refl _ _ := KeepsTmp.refl
  trans _ _ _ _ := KeepsTmp.trans
  others i j _ _ hij hg := ⟨hg.1, fun x hx => hg.2 x fun hx' => hij (hids i j x hx hx')⟩

end

end Cyberlegion.Mail
