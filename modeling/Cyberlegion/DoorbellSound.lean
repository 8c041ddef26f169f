import Cyberlegion.Doorbell

/-!
# A wake and what fails under it

The spawner, the adapter, the focus probe and the ring are each caught; the reads of the
store are not.
-/

namespace Cyberlegion

namespace Console

open Effects

section
variable {ε α : Type} {message : ε → String} {fromId pane doorbell : String} {harness : Option String}
  {gated posted : Bool}

/-- A read of the store that threw. -/
def Torn : (op : WakeCall) → op.Res ε → Prop
  | .getAgent _, r => ∃ e, r = .error e
  | .findPaneByAgentId _, r => ∃ e, r = .error e
  | .getMainPane, r => ∃ e, r = .error e
  | _, _ => False

variable (ε) in
def Outward (op : WakeCall) : Prop := ∀ r : op.Res ε, ¬Torn op r

theorem only_answered {P : WakeCall → Prop} (r : Except ε α) : (answered r).Only P := by
  cases r <;> trivial

theorem throwsOn_answered {r : Except ε α} (h : ¬∃ e, r = .error e) : (answered r).ThrowsOn Torn := by
  cases r with
  | ok a => trivial
  | error e => exact absurd ⟨e, rfl⟩ h

theorem answered_error {r : Except ε α} (h : ∃ e, r = .error e) : ∃ e, (answered r : WakeM ε α) = .throw e := by
  obtain ⟨e, rfl⟩ := h
  exact ⟨e, rfl⟩

theorem throwsOn_loadAgent (id : String) : (loadAgent id : WakeM ε _).ThrowsOn Torn := fun _ =>
  ⟨answered_error, throwsOn_answered⟩

theorem throwsOn_findPane (id : String) :
    (Prog.call (.findPaneByAgentId id) answered : WakeM ε _).ThrowsOn Torn := fun _ =>
  ⟨answered_error, throwsOn_answered⟩

theorem throwsOn_mainPane : (Prog.call .getMainPane answered : WakeM ε _).ThrowsOn Torn := fun _ =>
  ⟨answered_error, throwsOn_answered⟩

theorem throwsOn_presenceOf (rec : AgentRecord) : (presenceOf rec : WakeM ε _).ThrowsOn Torn := by
  rw [presenceOf]
  cases given rec.presence with
  | none => trivial
  | some unit => exact (throwsOn_loadAgent unit).bind fun _ => trivial

theorem throwsOn_paneOf (id : String) : (paneOf id : WakeM ε _).ThrowsOn Torn := by
  refine (throwsOn_loadAgent id).bind fun rec => ?_
  cases rec.bind (·.pane) with
  | some pane => trivial
  | none => exact throwsOn_findPane id

theorem throwsOn_paneFocused : (paneFocused pane : WakeM ε _).ThrowsOn Torn := by
  refine Prog.throwsOn_tryCatch ?_ fun _ => trivial
  refine ⟨fun _ => id, fun r => (only_answered r).bind fun _ => ?_⟩
  exact ⟨fun _ => id, fun r => only_answered r⟩

theorem outward_ringPane : (ringPane message pane harness doorbell posted).Only (Outward ε) := by
  refine Prog.Only.tryCatch ?_ fun _ => trivial
  refine ⟨fun _ => id, fun r => (only_answered r).bind fun _ => ?_⟩
  exact ⟨fun _ => id, fun r => (only_answered r).bind fun _ => trivial⟩

theorem throwsOn_ringPane : (ringPane message pane harness doorbell posted).ThrowsOn Torn := by
  refine Prog.throwsOn_tryCatch ?_ fun _ => trivial
  refine ⟨fun _ => id, fun r => (only_answered r).bind fun _ => ?_⟩
  exact ⟨fun _ => id, fun r => (only_answered r).bind fun _ => trivial⟩

theorem throwsOn_ringGated : (ringGated message pane harness gated).ThrowsOn Torn := by
  rw [ringGated]
  by_cases hgated : gated = true
  · rw [if_pos hgated]
    refine throwsOn_paneFocused.bind fun focused => ?_
    by_cases hfocused : focused = some false
    · rw [if_pos hfocused]
      trivial
    · rw [if_neg hfocused]
      exact throwsOn_ringPane
  · rw [if_neg hgated]
    exact throwsOn_ringPane

theorem throwsOn_ringResolved (pane : Option String) :
    (ringResolved message fromId pane harness gated).ThrowsOn Torn := by
  rw [ringResolved]
  cases given pane with
  | none => trivial
  | some pane =>
    refine (throwsOn_paneOf fromId).bind fun own => ?_
    by_cases hown : some pane = own
    · rw [if_pos hown]
      trivial
    · rw [if_neg hown]
      exact throwsOn_ringGated

theorem throwsOn_wakeUnit (unit : AgentRecord) : (wakeUnit message fromId unit).ThrowsOn Torn :=
  (throwsOn_paneOf unit.id).bind throwsOn_ringResolved

theorem throwsOn_wakeMain : (wakeMain message fromId).ThrowsOn Torn :=
  throwsOn_mainPane.bind throwsOn_ringResolved

theorem throwsOn_wakeHome (owner : AgentRecord) : (wakeHome message fromId owner).ThrowsOn Torn := by
  refine Prog.throwsOn_call (fun _ => id) fun r => ?_
  rcases r with err | ⟨presence⟩ | _
  · exact throwsOn_wakeMain.map
  · exact throwsOn_wakeUnit presence
  · trivial

theorem throwsOn_wakeOwner (input : WakeInput) (owner : AgentRecord) :
    (wakeOwner message input owner).ThrowsOn Torn := by
  refine (throwsOn_presenceOf owner).bind fun presence => ?_
  rcases presence with - | unit
  · simp only
    by_cases hhome : owner.home.isSome ∧ input.spawnHome = true
    · rw [if_pos hhome]
      exact throwsOn_wakeHome owner
    · rw [if_neg hhome]
      exact throwsOn_wakeMain
  · exact throwsOn_wakeUnit unit

theorem throwsOn_wakeRecipient (input : WakeInput) : (wakeRecipient message input).ThrowsOn Torn := by
  rw [wakeRecipient]
  by_cases hnudge : input.noNudge = true
  · rw [if_pos hnudge]
    trivial
  rw [if_neg hnudge]
  refine (throwsOn_loadAgent input.toId).bind fun recipient => ?_
  rcases recipient with - | recipient
  · trivial
  simp only
  by_cases hkind : recipient.kind = .standing
  · rw [if_pos hkind]
    exact throwsOn_wakeOwner input recipient
  · rw [if_neg hkind]
    exact throwsOn_wakeUnit recipient

theorem throwsOn_wakeSpawn (input : WakeSpawnInput) : (wakeSpawn message input).ThrowsOn Torn := by
  rw [wakeSpawn]
  by_cases hwake : input.noWake = true
  · rw [if_pos hwake]
    trivial
  · rw [if_neg hwake]
    exact throwsOn_ringPane

theorem outward_wakeSpawn (input : WakeSpawnInput) : (wakeSpawn message input).Only (Outward ε) := by
  rw [wakeSpawn]
  by_cases hwake : input.noWake = true
  · rw [if_pos hwake]
    trivial
  · rw [if_neg hwake]
    exact outward_ringPane

/-- A wake and a presence lookup come to an answer exactly where no read of the store they
make throws; a wake of a spawned unit always does. -/
theorem wakes_resolve_iff (message : ε → String) :
    (∀ input l r, Ran (wakeRecipient message input) l (Prog.ended r) →
      ((∃ result, r = .ok result) ↔ ∀ x ∈ l, ¬Torn x.1 x.2)) ∧
    (∀ rec l r, Ran (presenceOf rec : WakeM ε (Option AgentRecord)) l (Prog.ended r) →
      ((∃ presence, r = .ok presence) ↔ ∀ x ∈ l, ¬Torn x.1 x.2)) ∧
    ∀ input l r, Ran (wakeSpawn message input) l (Prog.ended r) → ∃ result, r = .ok result := by
  refine ⟨fun input l r h => (throwsOn_wakeRecipient input).returns_iff h,
    fun rec l r h => (throwsOn_presenceOf rec).returns_iff h, fun input l r h => ?_⟩
  exact ((throwsOn_wakeSpawn input).returns_iff h).mpr fun x hx => (outward_wakeSpawn input).ran h x hx x.2

end

/-! A delivery to a peer, and one to an owner the record of whose presence does not parse. -/

def peerRecord : AgentRecord :=
  { id := "bob", handle := "bob", cwd := "/work", pane := some { mux := .tmux, id := "%3" }, status := .active
    createdAt := 0, lastSeen := 0 }

def peerWake : List ((op : WakeCall) × op.Res String) :=
  [⟨.getAgent "bob", .ok (some peerRecord)⟩, ⟨.getAgent "bob", .ok (some peerRecord)⟩,
    ⟨.getAgent "alice", .ok none⟩,
    ⟨.findPaneByAgentId "alice", .ok none⟩, ⟨.getAdapter, .error "no session backend selectable"⟩]

theorem peerWake_ran : Ran (wakeRecipient id { toId := "bob", fromId := "alice" }) peerWake
    (Prog.ended (.ok { rung := false, pane := some "%3", warning := some "no session backend selectable" })) :=
  .cons _ _ _ (.cons _ _ _ (.cons _ _ _ (.cons _ _ _ (.cons _ _ _ (.nil _)))))

theorem wakes_resolve_peer : ∀ x ∈ peerWake, ¬Torn x.1 x.2 :=
  ((wakes_resolve_iff id).1 _ _ _ peerWake_ran).mp ⟨_, rfl⟩

def ownerRecord : AgentRecord :=
  { id := "standing-keeper", handle := "keeper", cwd := "/hub", status := .active, createdAt := 0, lastSeen := 0
    kind := .standing, presence := some "desk" }

def tornRecord : String := "corrupt record agents/desk.json"

/-- The record of the presence does not parse, and the wake rejects. -/
theorem wakeRecipient_rejects : Ran (wakeRecipient id { toId := "standing-keeper", fromId := "alice" })
    [⟨.getAgent "standing-keeper", .ok (some ownerRecord)⟩, ⟨.getAgent "desk", .error tornRecord⟩]
    (Prog.ended (.error tornRecord)) :=
  .cons _ _ _ (.cons _ _ _ (.nil _))

end Console

end Cyberlegion
