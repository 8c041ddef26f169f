import Cyberlegion.ServiceRefusals

/-!
# Starting a service

`startService`: acquire the service, launch a runtime for it, and bind the runtime or
give the reservation up. Each transition runs alone under the service's lock; between
them the other starts, the other transitions and the launch itself take their time.
-/

namespace Cyberlegion

open Effects Runs Fencing

/-- The arguments of one start; its launch callback is the outside's. -/
structure StartCall where
  ctx : ServiceCtx
  projectRef : String
  name : String
  input : AcquireInput := {}

/-- A transition, the call of `input.launch` for the lease reserved, and the end of its promise. -/
inductive StartOp
  | acquire (c : StartCall)
  | bind (c : StartCall) (input : BindInput)
  | release (c : StartCall) (input : ReleaseInput)
  | launch (lease : ServiceLease)
  | settled

@[reducible] def StartOp.Res : StartOp → Type
  | acquire _ => Except HubError AcquireResult
  | bind _ _ | release _ _ => Except HubError ServiceView
  | launch _ => Unit
  | settled => Except String String

inductive StartResult
  | resolved (view : ServiceView)
  | starting (view : ServiceView)
  | started (view : ServiceView) (launched : String)

inductive StartError
  | hub (e : HubError)
  | launch (message : String)

abbrev StartM := Prog StartOp StartOp.Res StartError

def ask (op : StartOp) : StartM op.Res := .call op .ret

def startService (c : StartCall) : StartM StartResult := do
  match ← ask (.acquire c) with
  | .error e => throw (.hub e)
  | .ok (.resolved _ view) => return .resolved view
  | .ok (.starting _ view) => return .starting view
  | .ok (.reserved lease _ token) =>
    ask (.launch lease)
    match ← ask .settled with
    | .error err =>
      -- superseded already: nothing of ours left to release
      let _ ← ask (.release c { generation := lease.generation, token := some token })
      throw (.launch err)
    | .ok unit =>
      match ← ask (.bind c { generation := lease.generation, token, unit }) with
      | .ok view => return .started view unit
      | .error (.ownership code message) =>
        throw (.hub (.ownership code
          ("launched unit \"" ++ unit ++ "\" could not become the owner — " ++ message ++ "; stop it")))
      | .error e => throw (.hub e)

/-! ## Runs of many starts -/

/-- What a start meets at its turn: the answers to a transition, or how the launch settled. -/
structure StartTurn where
  choices : List Choice := []
  launched : Except String String := .error ""

def ServiceRun.record (hub : ServiceRun) (c : ServiceCall) (cs : List Choice) (r : Except HubError ServiceAnswer)
    (w : World) : ServiceRun :=
  ⟨w, hub.log ++ [⟨c, trace handle c.prog cs hub.state, r, hub.state, w⟩]⟩

def StartCall.call (c : StartCall) (op : ServiceOp) : ServiceCall := ⟨c.ctx, c.projectRef, c.name, op⟩

def answer : (op : StartOp) → StartTurn → ServiceRun → Option (op.Res × ServiceRun)
  | .acquire c, t, hub => (run handle (acquireService c.ctx c.projectRef c.name c.input) t.choices hub.state).map
      fun p => (p.1, hub.record (c.call (.acquire c.input)) t.choices (p.1.map .acquired) p.2)
  | .bind c input, t, hub => (run handle (bindService c.ctx c.projectRef c.name input) t.choices hub.state).map
      fun p => (p.1, hub.record (c.call (.bind input)) t.choices (p.1.map .viewed) p.2)
  | .release c input, t, hub => (run handle (releaseService c.ctx c.projectRef c.name input) t.choices hub.state).map
      fun p => (p.1, hub.record (c.call (.release input)) t.choices (p.1.map .viewed) p.2)
  | .launch _, _, hub => some ((), hub)
  | .settled, t, hub => some (t.launched, hub)

/-- A call of a start, with its answer. -/
abbrev Done := (op : StartOp) × op.Res

structure Starts (ι : Type) where
  hub : ServiceRun
  progs : ι → StartM StartResult
  calls : List (ι × Done) := []

/-- A start takes its turn, or another client or the outside does. -/
inductive StartEvent (ι : Type)
  | turn (i : ι) (t : StartTurn)
  | outside (ev : ServiceEvent)

variable {ι : Type} [DecidableEq ι]

def startStep (s : Starts ι) : StartEvent ι → Option (Starts ι)
  | .turn i t =>
    match s.progs i with
    | .call op k => (answer op t s.hub).map fun p =>
        { hub := p.2, progs := Function.update s.progs i (k p.1), calls := s.calls ++ [(i, ⟨op, p.1⟩)] }
    | _ => none
  | .outside ev => (serviceStep s.hub ev).map fun hub => { s with hub }

/-- No service acquired yet, and every start about to begin. -/
def ready (w : World) (starts : ι → StartCall) : Starts ι := ⟨untouched w, fun i => startService (starts i), []⟩

end Cyberlegion
