import Cyberlegion.Consuming
import Cyberlegion.Lib.Embed
import Cyberlegion.RegistrySpec

/-!
# The session hook

`runtime/inject-inbox.ts`: what a session is shown of the mail when it starts. Its calls are
those of the hub, and the two reads of the store the hub's verbs never make: a mailbox and
the binding of the main pane.
-/

namespace Cyberlegion

open Effects

namespace Inject

/-! ## The calls -/

/-- The hub, and `main-pane`'s text. -/
structure Shared where
  hub : World
  mainPane : Option String := none

inductive InjectCall
  | hub (op : Call)
  | listInbox (id : String)
  | getMainPane

@[reducible] def InjectCall.Res : InjectCall → Type
  | hub op => op.Res
  | listInbox _ => InboxSnapshot
  | getMainPane => Option String

abbrev InjectM := Prog InjectCall InjectCall.Res HubError

def Shared.listInbox (s : Shared) (id : String) : InboxSnapshot :=
  if safeId id then (s.hub.mailboxes.lookup id).getD ⟨[], []⟩ else ⟨[], []⟩

def Shared.getMainPane (s : Shared) : Option String := s.mainPane.map jsTrim

def answer : (op : InjectCall) → Choice → Shared → Option (op.Res × Shared)
  | .hub op, c, s => (handle op c s.hub).map fun p => (p.1, { s with hub := p.2 })
  | .listInbox id, _, s => some (s.listInbox id, s)
  | .getMainPane, _, s => some (s.getMainPane, s)

def ofHub {α : Type} (p : HubM α) : InjectM α := p.embed .hub fun _ r => r

/-! ## The hook -/

def EVENTS : List String := ["SessionStart"]

structure InjectPayload where
  hookEventName : String
  additionalContext : String
deriving DecidableEq

section
variable (before : String → String → Bool)

def byId (mail : List Message) : List Message := mail.insertionSort fun a b => before a.id b.id

/-- `inbox` of the unread mail, over the snapshot it listed. -/
def unreadOf (snap : InboxSnapshot) : List Message := byId before snap.unread

theorem inbox_unread (id : String) : inbox before { meId := id, unread := true } =
    (fun snap => (unreadOf before snap).map (InboxItem.mk · false)) <$> FileStore.listInbox id := by
  rw [← bind_pure_comp]
  unfold inbox
  refine congrArg _ (funext fun snap => ?_)
  have hall : ∀ l : List InboxItem, l.filter (fun _ => true) = l := fun l => List.filter_eq_self.mpr fun _ _ => rfl
  simp only [passes, if_true, List.append_nil, hall, Prog.pure_eq]
  refine congrArg Prog.ret ?_
  exact (List.map_insertionSort (fun a b : Message => before a.id b.id = true)
    (fun a b : InboxItem => before a.message.id b.message.id = true) _ _ fun a _ b _ => Iff.rfl).symm

def mailLine (m : Message) : String :=
  "- **" ++ m.fromHandle ++ "**" ++ ((given m.subject).map (" — " ++ ·)).getD "" ++ ": " ++ m.body ++
    " `(" ++ m.id ++ ")`"

def mailPart (title : String) (unread : List Message) : String :=
  title ++ " (" ++ toString unread.length ++ ")\n\n" ++ "\n".intercalate (unread.map mailLine)

def partOf (title : String) (unread : List Message) : List String :=
  if unread = [] then [] else [mailPart title unread]

/-- The caller's id, after it has registered itself where it sits in a pane and has none. -/
def identify (ctx : Ctx) : InjectM (Option String) := do
  match given (← ofHub (resolveSelfId ctx)) with
  | some meId => return some meId
  | none =>
    if ctx.env.currentPane.isSome then
      tryCatch (do
        let _ ← ofHub (register ctx {})
        return given (← ofHub (resolveSelfId ctx)))
        fun _ => pure none
    else return none

/-- The loop over the standing owners. -/
def ownerParts : List AgentRecord → InjectM (List String)
  | [] => return []
  | owner :: owners => do
    let unread := unreadOf before (← Prog.perform (.listInbox owner.id))
    return partOf ("## Owner mail — " ++ owner.handle) unread ++ (← ownerParts owners)

def isStanding (rec : AgentRecord) : Bool := rec.kind = .standing

/-- The owner mail of a session with this record. -/
def surface (ctx : Ctx) (rec : AgentRecord) : InjectM (List String) := do
  if (given rec.spawnedBy).isSome then return []
  else
    let bound ← Prog.perform .getMainPane
    if (given bound).isNone ∨ ctx.env.currentPane.map (·.2) = bound then
      ownerParts before ((← ofHub (perform .listAgents)).filter isStanding)
    else return []

/-- The owner mail, where the caller has a record; a failure to read it is swallowed. -/
def surfaced (ctx : Ctx) : Option AgentRecord → InjectM (List String)
  | some rec => tryCatch (surface before ctx rec) fun _ => pure []
  | none => pure []

def compose (event : String) (parts : List String) : Option InjectPayload :=
  if parts = [] then none else some { hookEventName := event, additionalContext := "\n\n".intercalate parts }

def injectInbox (ctx : Ctx) (event : String) : InjectM (Option InjectPayload) := do
  if event ∈ EVENTS then
    match ← identify ctx with
    | none => return none
    | some meId =>
      let rec_ ← ofHub (Store.getAgent meId)
      let unread := unreadOf before (← Prog.perform (.listInbox meId))
      let owned ← surfaced before ctx rec_
      return compose event (partOf "## Unread mail" unread ++ owned)
  else
    throw (.error ("unsupported --event \"" ++ event ++ "\" (expected " ++ " | ".intercalate EVENTS ++ ")"))

end

end Inject

end Cyberlegion
