import Cyberlegion.FileStore
import Mathlib.Data.List.Sort

/-!
# The verbs that consume mail

`inbox` and `readAck` of `message.ts` and `awaitReply` of `wake/await.ts`, down to the
filesystem calls of the mailbox. The clock's answers to the polls of `awaitReply` are
given with it: after the last of them it is still polling.
-/

namespace Cyberlegion

open Effects FileStore

structure InboxItem where
  message : Message
  read : Bool

structure InboxQuery where
  meId : String
  unread : Bool := false
  «from» : Option String := none
  thread : Option String := none

/-- A filter that is set: neither absent nor empty. -/
def passes (filter : Option String) (P : String → Bool) : Bool :=
  match filter with
  | some f => f = "" || P f
  | none => true

/-- `before` is the order of `localeCompare` on message ids. -/
def inbox (before : String → String → Bool) (q : InboxQuery) : FsM (List InboxItem) := do
  let snap ← listInbox q.meId
  let unread := snap.unread.map fun m => InboxItem.mk m false
  let acked := if q.unread then [] else snap.read.map fun m => InboxItem.mk m true
  let items := unread ++ acked
  let items := items.filter fun m => passes q.from fun f => m.message.sender = f || m.message.fromHandle = f
  let items := items.filter fun m => passes q.thread fun thread => m.message.thread = some thread
  return items.insertionSort fun a b => before a.message.id b.message.id

def readAck (meId msgId : String) : FsM (Message × Bool) := do
  let snap ← listInbox meId
  if snap.unread.any (fun m => m.id = msgId) then return (← ackMessage meId msgId, true)
  else
    match snap.read.find? fun m => m.id = msgId with
    | some already => return (already, false)
    | none => throw (.notInInbox msgId)

structure AwaitInput where
  meId : String
  thread : String
  «from» : Option String := none
  timeoutMs : Int := 600000
  maxWaitS : Int := 240

inductive AwaitOutcome
  | matched (message : InboxItem)
  | waiting
  | timedOut

/-- Each poll that finds nothing reads the clock twice: for the timeout, then for the
deadline of the cycle. -/
def awaitLoop (before : String → String → Bool) (input : AwaitInput) (start : Int) :
    List (Int × Int) → FsM (Option AwaitOutcome)
  | [] => return none
  | (now, now') :: clock => do
    let items ← inbox before { meId := input.meId, unread := true, thread := some input.thread, «from» := input.from }
    match items with
    | message :: _ =>
      let _ ← ackMessage input.meId message.message.id
      return some (.matched message)
    | [] =>
      if input.timeoutMs ≠ 0 ∧ now - start ≥ input.timeoutMs then return some .timedOut
      else if now' ≥ start + input.maxWaitS * 1000 then return some .waiting
      else awaitLoop before input start clock

def awaitReply (before : String → String → Bool) (input : AwaitInput) (start : Int) (clock : List (Int × Int)) :
    FsM (Option AwaitOutcome) := awaitLoop before input start clock

/-! ## Calls on one mailbox -/

namespace Consume

inductive Job
  | readAck (msgId : String)
  | await (input : AwaitInput) (start : Int) (clock : List (Int × Int))
  | ack (msgId : String)
  | remove (msgId : String)

inductive Result
  | read (msg : Message) (acked : Bool)
  | awaited (outcome : Option AwaitOutcome)
  | acked (msg : Message)
  | removed

def Job.prog (before : String → String → Bool) (box : String) : Job → FsM Result
  | .readAck msgId => (fun p => .read p.1 p.2) <$> Cyberlegion.readAck box msgId
  | .await input start clock => .awaited <$> awaitReply before { input with meId := box } start clock
  | .ack msgId => .acked <$> ackMessage box msgId
  | .remove msgId => (fun _ => .removed) <$> removeMessage box msgId

end Consume

end Cyberlegion
