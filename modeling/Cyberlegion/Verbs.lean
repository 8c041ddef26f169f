import Cyberlegion.Decommission
import Cyberlegion.Lib.Log
import Cyberlegion.UnitRuntime

/-!
# The hub's verbs

Commands that run one at a time over one hub, with sessions that end and open on
their own in between. A multiplexer may give the id of a pane that is gone to a new
one.
-/

namespace Cyberlegion

open Effects Runs

inductive Verb
  | spawn (input : SpawnInput)
  | register (input : RegisterInput)
  | reconcile (adopts : Bool)
  | prune
  | touch
  | recordConversation (session : Option String)
  | stop (ref : String)
  | restart (ref : String) (fresh : Bool)
  | rebind (ref : String)
  | close (input : DecommissionInput)

structure Command where
  ctx : Ctx
  verb : Verb

def Command.prog (c : Command) : HubM (Option AgentRecord) :=
  match c.verb with
  | .spawn input => do return some (← Cyberlegion.spawn c.ctx input).agent
  | .register input => do return some (← Cyberlegion.register c.ctx input)
  | .reconcile adopts => do let _ ← Cyberlegion.reconcile c.ctx adopts; return none
  | .prune => do let _ ← Cyberlegion.prune c.ctx; return none
  | .touch => do Cyberlegion.touch c.ctx; return none
  | .recordConversation session => do Cyberlegion.recordConversation c.ctx session; return none
  | .stop ref => do return some (← stopUnit c.ctx ref).agent
  | .restart ref fresh => do return some (← restartUnit c.ctx ref fresh).agent
  | .rebind ref => do return some (← rebindUnit c.ctx ref)
  | .close input => do return some (← decommission c.ctx input).agent

inductive Outside
  | paneEnds (mux : StorableMux) (id : String)
  | paneOpens (mux : StorableMux) (id : String)
  | disk (dirs : List String)

def outside : Outside → World → Option World
  | .paneEnds mux id, w => some { w with live := w.live.filter (· ≠ (mux, id)) }
  | .paneOpens mux id, w => if (mux, id) ∈ w.live then none else some { w with live := (mux, id) :: w.live }
  | .disk dirs, w => some { w with dirs }

abbrev HubEntry := Effects.Entry Command Call Choice (Except HubError (Option AgentRecord)) World

abbrev HubRun := Effects.Logged Command Call Choice (Except HubError (Option AgentRecord)) World

abbrev HubEvent := LogEvent Command Choice Outside

def hubStep : HubRun → HubEvent → Option HubRun := logStep handle Command.prog outside

def newHub (live : List (StorableMux × String)) (dirs : List String) : HubRun := ⟨{ live, dirs }, []⟩

/-! ## Reading the hub -/

/-- The unit a reference resolves to. -/
def World.named (w : World) (ref : String) : Option AgentRecord :=
  match w.agents.get ref with
  | some rec => some rec
  | none => (resolveAmong ref (Registry.list w.agents)).value

def World.selfId (w : World) (ctx : Ctx) : Option String :=
  match ctx.env.currentPane with
  | some cur => w.resolvePaneId cur.2
  | none => if ctx.env.CYBERLEGION_AGENT_ID = "" then none else some ctx.env.CYBERLEGION_AGENT_ID

section
variable {w : World} {rec : AgentRecord} {ref : String}

theorem mem_of_pickLive {live : List AgentRecord} (h : pickLive ref live = .ret (some rec)) : rec ∈ live := by
  unfold pickLive at h
  split at h
  · next standing hfind =>
    cases h
    exact List.mem_of_find?_eq_some hfind
  · split at h
    · cases h
    · exact List.mem_of_head? (Option.some.inj (congrArg Prog.value h))

theorem mem_of_resolveAmong {agents : List AgentRecord} (h : resolveAmong ref agents = .ret rec) : rec ∈ agents := by
  simp only [resolveAmong] at h
  cases hpick : pickLive ref (matchHandle agents ref).live with
  | throw e => rw [hpick] at h; cases h
  | call op k =>
    unfold pickLive at hpick
    split at hpick
    · cases hpick
    · split at hpick <;> cases hpick
  | ret picked =>
    simp only [hpick, Prog.ret_bind] at h
    cases picked with
    | some found =>
      cases h
      exact (List.mem_filter.mp (mem_of_pickLive hpick)).1
    | none =>
      simp only at h
      split at h
      · next found hfind =>
        cases h
        exact (List.mem_filter.mp (List.mem_of_find?_eq_some hfind)).1
      · cases h

theorem named_mem (h : w.named ref = some rec) : w.agents.get rec.id = some rec := by
  unfold World.named at h
  split at h
  · next heq =>
    cases h
    rw [Filed.key_of_get heq]; exact heq
  · exact Registry.mem_list.mp (mem_of_resolveAmong (Prog.value_eq_some.mp h))

end

/-! ## What the verbs of a run leave alone -/

section
variable {live : List (StorableMux × String)} {dirs : List String} {es : List HubEvent} {s : HubRun}

theorem outside_cases {x : Outside} {w w' : World} (h : outside x w = some w') :
    ∃ live dirs, w' = { w with live, dirs } := by
  cases x with
  | paneEnds mux id => cases h; exact ⟨_, _, rfl⟩
  | paneOpens mux id =>
    simp only [outside] at h
    split at h
    · cases h
    · cases h; exact ⟨_, _, rfl⟩
  | disk dirs => cases h; exact ⟨_, _, rfl⟩

theorem hub_run {I : World → Prop} (hcall : ∀ op c w r w', I w → handle op c w = some (r, w') → I w')
    (hother : ∀ w live dirs, I w → I { w with live, dirs }) (h0 : I (newHub live dirs).state)
    (h : exec hubStep (newHub live dirs) es = some s) : I s.state := by
  refine (log_run (D := fun _ _ _ => True) (E := fun _ => True) (fun k cs u r u' hu _ hr => ⟨?_, trivial⟩) ?_ h0
    (fun e he => by cases he) allSteps_true h).1
  · have honly : k.prog.Only fun _ => True := Prog.only_true _
    exact wp_run (wp_only honly (fun op c w r w' _ hw hr => hcall op c w r w' hw hr) (fun _ _ _ _ => trivial) hu)
      (A := fun _ _ => True) (Φ := fun _ _ => True) (fun _ _ => trivial) hr
  · intro x u u' hu hx
    obtain ⟨live, dirs, rfl⟩ := outside_cases hx
    exact hother u live dirs hu

/-- Every entry of the pane index is filed under a name that `sanitizePane` leaves alone. -/
def Tidy (w : World) : Prop := ∀ key, w.panes.lookup key ≠ none → sanitizePane key = key

theorem tidy_call (op : Call) (c : Choice) (w : World) (r : op.Res) (w' : World) (hw : Tidy w)
    (h : handle op c w = some (r, w')) : Tidy w' := by
  intro key hkey
  cases hop : op.writes with
  | false =>
    rw [(handle_registry hop h).2.1] at hkey
    exact hw key hkey
  | true =>
    cases op with
    | putPaneIndex pane id =>
      cases h
      by_cases hk : key = sanitizePane pane
      · rw [hk, sanitize_sanitize]
      · refine hw key ?_
        rwa [Table.lookup_insert_eq, if_neg hk] at hkey
    | removePaneIndex pane =>
      cases h
      refine hw key fun hnone => hkey ?_
      rw [Table.lookup_erase_eq, hnone]
      exact ite_self none
    | putAgent rec =>
      simp only [handle] at h
      split at h
      · cases h; exact hw key hkey
      · cases h
    | removeAgent id => cases h; exact hw key hkey
    | removeMailbox id => cases h; exact hw key hkey
    | putMessage toId msg => cases h; exact hw key hkey
    | _ => cases hop

theorem tidy_run (h : exec hubStep (newHub live dirs) es = some s) : Tidy s.state :=
  hub_run tidy_call (fun _ _ _ hw => hw) (fun _ hkey => absurd rfl hkey) h

end

end Cyberlegion
