import Cyberlegion.Lib.Locked
import Cyberlegion.Operations

/-!
# Standing in for one owner

The operations on one standing owner, as programs that share its presence lock: deliveries that
may spawn, claims, clears and refreshes. The locked part of each, and what it does when it runs
alone.
-/

namespace Cyberlegion

open Effects

namespace Presence

/-! ## The operations -/

inductive PresenceOp
  | deliver (ctx : Ctx) (owner : AgentRecord)
  | claim (ctx : Ctx)
  | clear
  | refresh (ctx : Ctx) (home : Option (Option StandingHome))

inductive PresenceAnswer
  | delivered (outcome : PresenceSpawn)
  | owner (rec : AgentRecord)

def PresenceOp.prog (handle : String) : PresenceOp → HubM PresenceAnswer
  | .deliver ctx owner => .delivered <$> spawnPresence ctx owner
  | .claim ctx => .owner <$> claimPresence ctx handle
  | .clear => .owner <$> clearPresence handle
  | .refresh ctx home => .owner <$> registerStanding ctx { handle, home }

/-! ## Their locked parts -/

/-- What `withLock` runs once it has the lock. -/
def lockedPart {α : Type} (name : String) (fn : HubM α) : HubM α := do
  match ← tryCatch (Except.ok <$> fn) (fun e => pure (Except.error e)) with
  | .ok a => do perform (.releaseLock name); return a
  | .error e => do perform (.releaseLock name); throw e

theorem withLock_eq {α : Type} (name : String) (fn : HubM α) : Store.withLock name fn =
    .call (.acquireLock name) fun ok => if ok then lockedPart name fn else .throw (.lockTimeout name) := rfl

def claimPart (id handle selfId : String) : HubM AgentRecord := do
  let rec_ := { ← loadOwner id handle with presence := some selfId }
  Store.putAgent rec_
  return rec_

/-- The end of a claim, for a caller that has found out who it is. -/
def claimAs (id handle : String) : Option String → HubM AgentRecord
  | none => throw (.error "no identity in this session — run `cyberlegion unit register` first")
  | some selfId => Store.withLock (presenceLock id) (claimPart id handle selfId)

def clearPart (id handle : String) : HubM AgentRecord := do
  let rec_ ← loadOwner id handle
  if rec_.presence.isSome then
    Store.putAgent { rec_ with presence := none }
    return { rec_ with presence := none }
  else return rec_

/-- The locked part of an operation; a claim has found out who the caller is before, in a state that is `seen`. -/
def PresenceOp.Part (seen : World → Prop) (handle : String) : PresenceOp → HubM PresenceAnswer → Prop
  | .deliver ctx owner, p => ∃ home, owner.home = some home ∧
      p = .delivered <$> lockedPart (presenceLock (standingId handle)) (Cyberlegion.deliver ctx owner home)
  | .claim ctx, p => ∃ w self, seen w ∧ given (World.selfId w ctx) = some self ∧
      p = .owner <$> lockedPart (presenceLock (standingId handle)) (claimPart (standingId handle) handle self)
  | .clear, p => p = .owner <$> lockedPart (presenceLock (standingId handle)) (clearPart (standingId handle) handle)
  | .refresh ctx home, p => p = .owner <$> lockedPart (presenceLock (standingId handle))
      (writeStanding ctx (standingId handle) { handle, home })

/-! ## The lock -/

def latch (handle : String) : Latch Call Call.Res World where
  acquire := .acquireLock (presenceLock (standingId handle))
  release := .releaseLock (presenceLock (standingId handle))
  got := fun (ok : Bool) => ok
  held w := presenceLock (standingId handle) ∈ w.locks

/-- The standing owners of this handle are filed under its id. -/
def Filing (handle : String) (w : World) : Prop :=
  ∀ rec, w.agents.get rec.id = some rec → rec.handle = handle → rec.kind = .standing → rec.id = standingId handle

section
variable {handle : String} {w w' : World} {op : Call} {c : Choice} {r : op.Res}

theorem locks_call (h : Cyberlegion.handle op c w = some (r, w')) (hacquire : ∀ name, op ≠ .acquireLock name)
    (hrelease : ∀ name, op ≠ .releaseLock name) : w'.locks = w.locks := by
  cases op with
  | acquireLock name => exact absurd rfl (hacquire name)
  | releaseLock name => exact absurd rfl (hrelease name)
  | _ =>
    simp only [Cyberlegion.handle] at h
    repeat' split at h
    all_goals cases h
    all_goals rfl

theorem filing_call (hf : Filing handle w) (h : Cyberlegion.handle op c w = some (r, w'))
    (hput : ∀ rec, op = .putAgent rec → rec.handle = handle → rec.kind = .standing → rec.id = standingId handle) :
    Filing handle w' := by
  by_cases hwrites : op.writes = true
  · cases op with
    | putAgent rec =>
      simp only [Cyberlegion.handle] at h
      split at h
      · cases h
        intro rec' hget hhandle hkind
        rw [Filed.get_put] at hget
        split at hget
        · cases hget
          exact hput _ rfl hhandle hkind
        · exact hf rec' hget hhandle hkind
      · cases h
    | removeAgent id =>
      cases h
      intro rec hget hhandle hkind
      rw [Filed.get_erase] at hget
      split at hget
      · cases hget
      · exact hf rec hget hhandle hkind
    | putPaneIndex | removePaneIndex | removeMailbox | putMessage => cases h; exact hf
    | _ => cases hwrites
  · rw [Bool.not_eq_true] at hwrites
    obtain ⟨hagents, -, -⟩ := handle_registry hwrites h
    intro rec hget
    rw [hagents] at hget
    exact hf rec hget

theorem latch_lawful : (latch handle).Lawful Cyberlegion.handle (Filing handle) where
  takes c s r t h hgot := by
    have hgot' : r = true := hgot
    subst hgot'
    simp only [latch, Cyberlegion.handle] at h ⊢
    split at h
    · split at h
      · cases h
      · next hfree =>
        cases h
        exact ⟨hfree, List.mem_cons_self, fun hf => hf⟩
    · cases h
  fails c s r t h hgot := by
    have hgot' : r = false := hgot
    subst hgot'
    simp only [latch, Cyberlegion.handle] at h
    split at h
    · split at h <;> cases h
    · cases h
      rfl
  gives c s r t h := by
    cases h
    exact ⟨fun hmem => by simp [latch] at hmem, fun hf => hf⟩
  keeps op c s r t hacquire hrelease hheld h := by
    cases op with
    | acquireLock name =>
      simp only [Cyberlegion.handle] at h
      split at h
      · split at h
        · cases h
        · cases h
          exact List.mem_cons_of_mem _ hheld
      · cases h
        exact hheld
    | releaseLock name =>
      cases h
      have hne : presenceLock (standingId handle) ≠ name := fun heq => hrelease (by rw [latch, heq])
      exact List.mem_filter.mpr ⟨hheld, decide_eq_true hne⟩
    | _ =>
      have hlocks := locks_call h (fun _ heq => by cases heq) fun _ heq => by cases heq
      rw [latch] at hheld ⊢
      simp only at hheld ⊢
      rw [hlocks]
      exact hheld

/-! ## What the parts call -/

/-- A call that leaves the locks alone and files a standing owner under the id of its handle only. -/
def Calm (handle : String) : Call → Prop
  | .acquireLock _ | .releaseLock _ => False
  | .putAgent rec => rec.kind = .standing → rec.id = standingId handle
  | _ => True

theorem calm_call (hop : Calm handle op) : op ≠ (latch handle).acquire ∧ op ≠ (latch handle).release ∧
    ∀ c w r w', Filing handle w → Cyberlegion.handle op c w = some (r, w') → Filing handle w' := by
  refine ⟨fun heq => ?_, fun heq => ?_, fun c w r w' hf h => filing_call hf h fun rec heq _ hkind => ?_⟩
  · rw [heq] at hop
    exact hop
  · rw [heq] at hop
    exact hop
  · rw [heq] at hop
    exact hop hkind

variable {α β : Type}

abbrev Stays (handle : String) (P : α → Prop) (p : HubM α) : Prop :=
  Keeps (latch handle) Cyberlegion.handle (Filing handle) P p

theorem stays_only {p : HubM α} (hp : p.Only (Calm handle)) : Stays handle (fun _ => True) p :=
  keeps_only hp fun _ hop => calm_call hop

theorem stays_perform {P : op.Res → Prop} (hop : Calm handle op)
    (hP : ∀ c w r w', Cyberlegion.handle op c w = some (r, w') → P r) : Stays handle P (perform op) := by
  obtain ⟨hacquire, hrelease, hI⟩ := calm_call hop
  exact .call op _ hacquire hrelease hI fun c w r w' _ h => .ret r (hP c w r w' h)

theorem stays_getAgent {id : String} :
    Stays handle (fun found => ∀ rec, found = some rec → rec.id = id) (Store.getAgent id) := by
  have hcalm : Calm handle (.getAgent id) := trivial
  refine stays_perform hcalm fun c w r w' h rec hrec => ?_
  cases h
  exact Filed.key_of_get hrec

theorem stays_putAgent {rec : AgentRecord} (hid : rec.kind = .standing → rec.id = standingId handle) :
    Stays handle (fun _ => True) (Store.putAgent rec) :=
  stays_only (only_putAgent hid)

theorem calm_of_asks (op : Call) (h : op.asks = true) : Calm handle op := by
  cases op with
  | acquireLock | releaseLock | putAgent => cases h
  | _ => trivial

/-- The locked part is in the lock until it is over. -/
theorem inside_lockedPart {P : α → Prop} {f : α → β} {fn : HubM α} (hfn : Stays handle P fn) :
    Inside (latch handle) Cyberlegion.handle (Filing handle)
    (f <$> lockedPart (presenceLock (standingId handle)) fn) := by
  induction hfn with
  | ret a _ => exact .release _ fun _ => rfl
  | throw e => exact .release _ fun _ => rfl
  | call op k hacquire hrelease hI _ ih => exact .call op _ hacquire hrelease hI ih

theorem stays_loadOwner {id : String} : Stays handle (fun rec => rec.id = id) (loadOwner id handle) := by
  refine stays_getAgent.bind fun found hfound => ?_
  cases found with
  | none => exact .throw _
  | some rec => exact .ret rec (hfound rec rfl)

theorem stays_claimPart {self : String} : Stays handle (fun _ => True) (claimPart (standingId handle) handle self) := by
  refine stays_loadOwner.bind fun rec hid => ?_
  refine (stays_putAgent ?_).bind fun _ _ => .ret _ trivial
  exact fun _ => hid

theorem stays_clearPart : Stays handle (fun _ => True) (clearPart (standingId handle) handle) := by
  refine stays_loadOwner.bind fun rec hid => ?_
  split
  · refine (stays_putAgent ?_).bind fun _ _ => .ret _ trivial
    exact fun _ => hid
  · exact .ret _ trivial

theorem stays_writeStanding {ctx : Ctx} {input : RegisterStandingInput} :
    Stays handle (fun _ => True) (writeStanding ctx (standingId handle) input) := by
  refine stays_getAgent.bind fun found _ => (stays_only (only_nowIso trivial)).bind fun ts _ => ?_
  refine (stays_putAgent ?_).bind fun _ _ => .ret _ trivial
  exact fun _ => rfl

/-! ## The spawn of a presence -/

theorem calm_createWorktree {ctx : Ctx} {atomic : Bool} {launch : LaunchLine} {primaryRoot dir : String} :
    (createWorktree ctx atomic launch primaryRoot dir).Only (Calm handle) := by
  unfold createWorktree
  split
  · refine Prog.Only.bind (only_perform trivial) fun made => ?_
    cases made with
    | none => trivial
    | some made => exact only_refuse.bind fun _ => trivial
  · refine Prog.Only.bind (only_perform trivial) fun made => ?_
    cases made <;> trivial

theorem calm_openSession {mux : StorableMux} {cwd : String} {launch : LaunchLine} {place : Placement} :
    (openSession mux cwd launch place).Only (Calm handle) := by
  refine Prog.Only.bind (only_perform trivial) fun pane => ?_
  cases pane <;> trivial

theorem calm_acquireWorktree {ctx : Ctx} {input : SpawnInput} {atomic : Bool} {launch : LaunchLine}
    {id branch primaryRoot : String} :
    (acquireWorktree ctx input atomic launch id branch primaryRoot).Only (Calm handle) := by
  unfold acquireWorktree
  split
  · exact calm_createWorktree.bind fun _ => trivial
  · refine Prog.Only.bind (only_perform trivial) fun slot => ?_
    cases slot with
    | none => trivial
    | some slot =>
      refine Prog.Only.bind ?_ fun _ => trivial
      split
      · trivial
      · exact calm_createWorktree

theorem only_assertDistinct {P : Call → Prop} {ctx : Ctx} {dir primaryRoot : Option String} :
    (assertDistinct ctx dir primaryRoot).Only P := by
  unfold assertDistinct
  split
  · exact only_refuse
  · trivial

theorem calm_openInWorktree {ctx : Ctx} {input : SpawnInput} {mux : StorableMux} {launch : LaunchLine} {id : String}
    {primaryRoot : Option String} : (openInWorktree ctx input mux launch id primaryRoot).Only (Calm handle) := by
  unfold openInWorktree
  cases primaryRoot with
  | none => trivial
  | some primaryRoot =>
    refine only_assertDistinct.bind fun _ => (asks_resolveSpawnBase.mono calm_of_asks).bind fun _ => ?_
    refine calm_acquireWorktree.bind fun made => only_refuse.bind fun _ => ?_
    refine Prog.Only.bind (only_perform trivial) fun _ => Prog.Only.bind ?_ fun _ => trivial
    cases made.opened with
    | some pane => trivial
    | none => exact calm_openSession

theorem calm_openInCwd {ctx : Ctx} {input : SpawnInput} {mux : StorableMux} {launch : LaunchLine} {dir : String}
    {primaryRoot : Option String} : (openInCwd ctx input mux launch dir primaryRoot).Only (Calm handle) := by
  refine Prog.Only.bind (only_perform trivial) fun found => ?_
  split
  · exact only_assertDistinct.bind fun _ => calm_openSession.bind fun _ => trivial
  · trivial

theorem calm_spawn {ctx : Ctx} {input : SpawnInput} : (spawn ctx input).Only (Calm handle) := by
  unfold spawn
  refine Prog.Only.bind (only_perform trivial) fun _ => (asks_selectSessionAdapter.mono calm_of_asks).bind fun mux => ?_
  refine (asks_assertSpawns.mono calm_of_asks).bind fun task => Prog.Only.bind (only_perform trivial) fun id => ?_
  refine (asks_spawnPrimaryRoot.mono calm_of_asks).bind fun root => Prog.Only.bind ?_ fun opened => ?_
  · split
    · exact calm_openInCwd
    · exact calm_openInWorktree
  · unfold enlist
    refine Prog.Only.bind (only_nowIso trivial) fun ts => (asks_spawnedBy.mono calm_of_asks).bind fun parent => ?_
    refine Prog.Only.bind (only_putAgent fun hkind => ?_) fun _ => ?_
    · cases hkind
    · exact Prog.Only.bind (only_perform trivial) fun _ => Prog.Only.bind (only_perform trivial) fun _ => trivial

theorem calm_spawnInHome {ctx : Ctx} {owner : AgentRecord} {home : StandingHome} :
    (spawnInHome ctx owner home).Only (Calm handle) := by
  refine Prog.Only.bind (only_perform trivial) fun launched => ?_
  cases launched with
  | none => trivial
  | some launched => exact calm_spawn

theorem calm_presenceOf {rec : AgentRecord} : (presenceOf rec).Only (Calm handle) := by
  unfold presenceOf
  split
  · trivial
  · exact Prog.Only.bind (only_perform trivial) fun _ => trivial

theorem stays_unbindPresence {unit : String} :
    Stays handle (fun _ => True) (unbindPresence (standingId handle) unit) := by
  refine stays_getAgent.bind fun found hfound => ?_
  cases hlatest : found.filter (·.presence = some unit) with
  | none => exact .ret _ trivial
  | some latest =>
    have hid := hfound latest (Option.filter_eq_some_iff.mp hlatest).1
    refine (stays_putAgent ?_).bind fun _ _ => .ret _ trivial
    exact fun _ => hid

theorem stays_deliver {ctx : Ctx} {owner : AgentRecord} {home : StandingHome} (howner : owner.id = standingId handle) :
    Stays handle (fun _ => True) (Cyberlegion.deliver ctx owner home) := by
  unfold Cyberlegion.deliver
  rw [howner]
  refine stays_getAgent.bind fun found hfound => ?_
  cases found with
  | none => exact .throw _
  | some current =>
    refine (stays_only calm_presenceOf).bind fun live _ => ?_
    cases live with
    | some live => exact .ret _ trivial
    | none =>
      refine (stays_only calm_spawnInHome).bind fun res _ => ?_
      have hid := hfound current rfl
      refine (stays_putAgent ?_).bind fun _ _ => ?_
      · exact fun _ => hid
      have hcalm : Calm handle (.settleSpawnTrust res.pane) := trivial
      refine (stays_only (only_perform hcalm)).bind fun trust _ => ?_
      cases trust with
      | none => exact stays_unbindPresence.bind fun _ _ => .throw _
      | some trust =>
        cases trust with
        | settled => exact .ret _ trivial
        | blocked message => exact stays_unbindPresence.bind fun _ _ => .ret _ trivial

/-! ## Up to the lock -/

variable {seen : World → Prop}

abbrev Before (seen : World → Prop) (handle : String) (o : PresenceOp) (p : HubM PresenceAnswer) : Prop :=
  Effects.Outside (latch handle) Cyberlegion.handle (Filing handle) (fun op => op.asks = true) seen
  (o.Part seen handle) p

theorem before_withLock {o : PresenceOp} {f : α → PresenceAnswer} {fn : HubM α}
    (hpart : o.Part seen handle (f <$> lockedPart (presenceLock (standingId handle)) fn))
    (hfn : Stays handle (fun _ => True) fn) :
    Before seen handle o (f <$> Store.withLock (presenceLock (standingId handle)) fn) := by
  rw [withLock_eq]
  refine Effects.Outside.acquire _ (fun r hr => ?_) fun r hr => ?_
  · have hno : r = false := hr
    subst hno
    exact Effects.Outside.throw _
  · have hyes : r = true := hr
    subst hyes
    exact ⟨hpart, inside_lockedPart hfn⟩

theorem before_owner {o : PresenceOp} {f : String → HubM α} {g : α → PresenceAnswer}
    (hf : Before seen handle o (g <$> f (standingId handle))) :
    Before seen handle o (g <$> (do let id ← resolveStandingOwner handle; let _ ← loadOwner id handle; f id)) := by
  refine Effects.Outside.read Call.listAgents _ rfl fun c w r w' hfiling _ h => ?_
  cases h
  cases hfind : (Registry.list w.agents).find? (fun a => a.handle = handle ∧ a.kind = .standing) with
  | none =>
    dsimp only [Prog.bind]
    rw [hfind]
    exact Effects.Outside.throw _
  | some rec =>
    obtain ⟨hmem, hhandle, hkind⟩ := owner_spec hfind
    have hid := hfiling rec hmem hhandle hkind
    dsimp only [Prog.bind]
    rw [hfind]
    show Before seen handle o (g <$> (loadOwner rec.id handle >>= fun _ => f rec.id))
    rw [hid]
    refine Effects.Outside.read (Call.getAgent _) _ rfl fun c w r w' _ _ h => ?_
    cases r with
    | none => exact Effects.Outside.throw _
    | some rec => exact hf

theorem before_claim {ctx : Ctx} : Before seen handle (.claim ctx) ((PresenceOp.claim ctx).prog handle) := by
  refine before_owner (f := fun id => do
    refuse ((← perform .probeMultiplexer) = .none) (.error "claiming a presence needs a multiplexer to open panes")
    claimAs id handle (given (← resolveSelfId ctx))) ?_
  refine Effects.Outside.read Call.probeMultiplexer _ rfl fun c w mux w' _ hseen h => ?_
  by_cases hnone : mux = .none
  · subst hnone
    exact Effects.Outside.throw _
  -- who the caller is, in the state it asks in
  have hself : ∀ w, seen w → Before seen handle (.claim ctx)
      (PresenceAnswer.owner <$> claimAs (standingId handle) handle (given (World.selfId w ctx))) := by
    intro w hseen
    cases hself : given (World.selfId w ctx) with
    | none => exact Effects.Outside.throw _
    | some self => exact before_withLock ⟨w, self, hseen, hself, rfl⟩ stays_claimPart
  show Before seen handle (.claim ctx) (PresenceAnswer.owner <$> (refuse (mux = .none) _ >>= _))
  rw [refuse, if_neg hnone]
  show Before seen handle (.claim ctx)
    (PresenceAnswer.owner <$> (resolveSelfId ctx >>= fun self => claimAs (standingId handle) handle (given self)))
  unfold World.selfId at hself
  unfold resolveSelfId
  cases hpane : ctx.env.currentPane with
  | none =>
    simp only [hpane] at hself
    exact hself w hseen
  | some cur =>
    simp only [hpane] at hself
    refine Effects.Outside.read (Call.resolvePaneId cur.2) _ rfl fun c w r w' _ hseen h => ?_
    cases h
    exact hself w hseen

theorem before_clear : Before seen handle .clear (PresenceOp.clear.prog handle) :=
  before_owner (f := fun id => Store.withLock (presenceLock id) (clearPart id handle))
  (before_withLock rfl stays_clearPart)

theorem before_refresh {ctx : Ctx} {home : Option (Option StandingHome)} :
    Before seen handle (.refresh ctx home) ((PresenceOp.refresh ctx home).prog handle) :=
  Effects.Outside.read (Call.ensureMarker ctx.root) _ rfl fun _ _ _ _ _ _ _ =>
    before_withLock (by exact rfl) stays_writeStanding

theorem before_deliver {ctx : Ctx} {owner : AgentRecord} (howner : owner.id = standingId handle) :
    Before seen handle (.deliver ctx owner) ((PresenceOp.deliver ctx owner).prog handle) := by
  show Before seen handle (.deliver ctx owner) (PresenceAnswer.delivered <$> spawnPresence ctx owner)
  unfold spawnPresence
  cases hhome : owner.home with
  | none => exact Effects.Outside.throw _
  | some home =>
    rw [howner]
    exact before_withLock ⟨home, hhome, rfl⟩ (stays_deliver howner)

theorem before_prog {o : PresenceOp} (howner : ∀ ctx owner, o = .deliver ctx owner → owner.id = standingId handle) :
    Before seen handle o (o.prog handle) := by
  cases o with
  | deliver ctx owner => exact before_deliver (howner ctx owner rfl)
  | claim ctx => exact before_claim
  | clear => exact before_clear
  | refresh ctx home => exact before_refresh

end

end Presence

end Cyberlegion
