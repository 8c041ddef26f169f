import Cyberlegion.PresenceTurns

/-!
# One presence at a time

Whatever the interleaving, the operations on a standing owner take their turns in its lock, and
each turn reads the presence and the home that the turns before it left.
-/

namespace Cyberlegion

open Effects

namespace Presence

/-! ## What a turn does -/

def standsIn (w : World) (rec : AgentRecord) : Option AgentRecord :=
  (given rec.presence).bind fun unit => (w.agents.get unit).filter (·.status ≠ .exited)

/-- Nothing but a lock is taken or given back. -/
def Untouched (w w' : World) : Prop := w' = { w with locks := w'.locks }

def Files (w : World) (rec : AgentRecord) (w' : World) : Prop :=
  ∃ hsafe, w' = { w with agents := w.agents.put rec hsafe, locks := w'.locks }

/-- A unit is spawned in a pane of its own, and the owner's record ends with this presence. -/
structure Joins (w : World) (owner unit : AgentRecord) (presence : Option String) (w' : World) : Prop where
  new : w.agents.get unit.id = none
  kind : unit.kind = .session
  agents : ∀ id, w'.agents.get id =
    if id = owner.id then some { owner with presence } else if id = unit.id then some unit else w.agents.get id
  panes : ∃ pane, unit.pane = some pane ∧ ∀ id, w'.resolvePaneId id =
    if sanitizePane id = sanitizePane pane.id then some unit.id else w.resolvePaneId id
  mailboxes : ∀ id, w'.mailboxes.lookup id = w.mailboxes.lookup id

/-- What a turn makes of the world before it, with what it was answered among `A`. -/
inductive Turned (seen : World → Prop) (handle : String) (A : Call → Choice → Prop) (w w' : World) :
    PresenceOp → Except HubError PresenceAnswer → Prop
  | refused (o : PresenceOp) (e : HubError)
      (hwhy : w.agents.get (standingId handle) = none ∨ ∃ ctx home, o = .refresh ctx home) (h : Untouched w w') :
      Turned seen handle A w w' o (.error e)
  | live (ctx : Ctx) (owner rec unit : AgentRecord) (hrec : w.agents.get (standingId handle) = some rec)
      (hlive : standsIn w rec = some unit) (h : Untouched w w') :
      Turned seen handle A w w' (.deliver ctx owner) (.ok (.delivered (.existing unit)))
  | spawnFails (ctx : Ctx) (owner rec : AgentRecord) (e : HubError) (hrec : w.agents.get (standingId handle) = some rec)
      (hdead : standsIn w rec = none) (h : Same w w') : Turned seen handle A w w' (.deliver ctx owner) (.error e)
  | stands (ctx : Ctx) (owner rec unit : AgentRecord) (pane : String)
      (hrec : w.agents.get (standingId handle) = some rec)
      (hdead : standsIn w rec = none) (htrust : ∃ c, A (.settleSpawnTrust pane) c ∧ c.trust = some .settled)
      (h : Joins w rec unit (some unit.id) w') :
      Turned seen handle A w w' (.deliver ctx owner) (.ok (.delivered (.spawned unit pane false)))
  | blocked (ctx : Ctx) (owner rec unit : AgentRecord) (pane : String)
      (hrec : w.agents.get (standingId handle) = some rec)
      (hdead : standsIn w rec = none) (htrust : ∃ c message, A (.settleSpawnTrust pane) c ∧
        c.trust = some (.blocked message))
      (h : Joins w rec unit none w') :
      Turned seen handle A w w' (.deliver ctx owner) (.ok (.delivered (.spawned unit pane true)))
  | threw (ctx : Ctx) (owner rec unit : AgentRecord) (pane : String) (e : HubError)
      (hrec : w.agents.get (standingId handle) = some rec) (hdead : standsIn w rec = none)
      (htrust : ∃ c, A (.settleSpawnTrust pane) c ∧ c.trust = none) (h : Joins w rec unit none w') :
      Turned seen handle A w w' (.deliver ctx owner) (.error e)
  | claimed (ctx : Ctx) (rec : AgentRecord) (self : String) (hself : ∃ u, seen u ∧
      given (World.selfId u ctx) = some self)
      (hrec : w.agents.get (standingId handle) = some rec) (h : Files w { rec with presence := some self } w') :
      Turned seen handle A w w' (.claim ctx) (.ok (.owner { rec with presence := some self }))
  | cleared (rec : AgentRecord) (hrec : w.agents.get (standingId handle) = some rec)
      (h : rec.presence = none ∧ Untouched w w' ∨ Files w { rec with presence := none } w') :
      Turned seen handle A w w' .clear (.ok (.owner { rec with presence := none }))
  | refreshed (ctx : Ctx) (home : Option (Option StandingHome)) (rec : AgentRecord)
      (hrec : Refreshes { handle, home } (w.agents.get (standingId handle)) rec) (h : Files w rec w') :
      Turned seen handle A w w' (.refresh ctx home) (.ok (.owner rec))

/-! ## Each turn alone -/

section
variable {α : Type} {seen : World → Prop} {handle : String} {A : Call → Choice → Prop} {Φ : Call → World → Prop}
variable {w w' w'' : World} {rec : AgentRecord}

theorem Untouched.refl : Untouched w w := rfl

theorem Untouched.trans (h : Untouched w w') (h' : Untouched w' w'') : Untouched w w'' := by
  rw [Untouched, h', h]

theorem Untouched.agents (h : Untouched w w') : w'.agents = w.agents := by rw [h]

theorem Untouched.same (h : Untouched w w') : Same w w' := by
  rw [h]
  exact ⟨rfl, rfl, rfl⟩

theorem Untouched.files (h : Untouched w w') (h' : Files w' rec w'') : Files w rec w'' := by
  obtain ⟨hsafe, h'⟩ := h'
  refine ⟨hsafe, ?_⟩
  rw [h', h]

theorem Files.untouched (h : Files w rec w') (h' : Untouched w' w'') : Files w rec w'' := by
  obtain ⟨hsafe, h⟩ := h
  refine ⟨hsafe, ?_⟩
  rw [h', h]

theorem files_put (hsafe : safeId rec.id) : Files w rec { w with agents := w.agents.put rec hsafe } := ⟨hsafe, rfl⟩

theorem wp_lockedPart {name : String} {fn : HubM α} {Q : Except HubError α → World → Prop}
    (hrelease : ∀ w, Φ (.releaseLock name) w)
    (hfn : wp Cyberlegion.handle A Φ fn (fun r w' => ∀ w'', Untouched w' w'' → Q r w'') w) :
    wp Cyberlegion.handle A Φ (lockedPart name fn) Q w := by
  refine (wp_bind _ _).mpr ((wp_tryCatch _ _).mpr ?_)
  rw [← bind_pure_comp]
  refine (wp_bind _ _).mpr (wp_mono hfn fun r w' hq => ?_)
  cases r with
  | ok a => exact ⟨hrelease _, fun _ _ _ _ h => by cases h; exact hq _ rfl⟩
  | error e => exact ⟨hrelease _, fun _ _ _ _ h => by cases h; exact hq _ rfl⟩

theorem ends_file {f : Unit → HubM α} {Q : Except HubError α → World → Prop} (hsafe : safeId rec.id)
    (hf : ∀ w', Files w rec w' → Ends A (f ()) Q w') : Ends A (Store.putAgent rec >>= f) Q w := by
  unfold Store.putAgent
  rw [if_pos hsafe]
  refine ends_call fun c r w' _ hr => ?_
  simp only [Cyberlegion.handle, dif_pos hsafe] at hr
  cases hr
  exact hf _ (files_put hsafe)

theorem safe_owner (hrec : w.agents.get (standingId handle) = some rec) :
    rec.id = standingId handle ∧ safeId rec.id = true :=
  ⟨Filed.key_of_get hrec, by rw [Filed.key_of_get hrec]; exact safeId_standing⟩

/-- What the program ends in, once the lock is given back, is a turn of `o`. -/
abbrev TurnsTo (seen : World → Prop) (handle : String) (A : Call → Choice → Prop) (w : World) (o : PresenceOp)
    (f : α → PresenceAnswer) (r : Except HubError α) (w' : World) : Prop :=
  ∀ w'', Untouched w' w'' → Turned seen handle A w w'' o (r.map f)

theorem claimPart_turned {ctx : Ctx} {self : String} (hself : ∃ u, seen u ∧ given (World.selfId u ctx) = some self)
    (hstart : Untouched w w') :
    Ends A (claimPart (standingId handle) handle self) (TurnsTo seen handle A w (.claim ctx) .owner) w' := by
  unfold claimPart loadOwner
  rw [bind_assoc]
  refine ends_getAgent ?_
  rw [hstart.agents]
  cases hrec : w.agents.get (standingId handle) with
  | none => exact fun w'' h => .refused _ _ (.inl hrec) (hstart.trans h)
  | some rec =>
    obtain ⟨-, hsafe⟩ := safe_owner hrec
    refine ends_file (by exact hsafe) fun w₁ h₁ w₂ h₂ => ?_
    exact .claimed ctx rec self hself hrec (hstart.files (h₁.untouched h₂))

theorem clearPart_turned (hstart : Untouched w w') :
    Ends A (clearPart (standingId handle) handle) (TurnsTo seen handle A w .clear .owner) w' := by
  unfold clearPart loadOwner
  rw [bind_assoc]
  refine ends_getAgent ?_
  rw [hstart.agents]
  cases hrec : w.agents.get (standingId handle) with
  | none => exact fun w'' h => .refused _ _ (.inl hrec) (hstart.trans h)
  | some rec =>
    obtain ⟨-, hsafe⟩ := safe_owner hrec
    show Ends A (if _ then _ else _) _ _
    split
    · refine ends_file (by exact hsafe) fun w₁ h₁ w₂ h₂ => ?_
      exact .cleared rec hrec (.inr (hstart.files (h₁.untouched h₂)))
    · next hnone =>
      rw [Bool.not_eq_true, Option.isSome_eq_false_iff, Option.isNone_iff_eq_none] at hnone
      intro w₁ h₁
      have hrecord : rec = { rec with presence := none } := by rw [← hnone]
      have hturn : Turned seen handle A w w₁ .clear (.ok (.owner { rec with presence := none })) :=
        .cleared rec hrec (.inl ⟨hnone, hstart.trans h₁⟩)
      rw [← hrecord] at hturn
      exact hturn

theorem writeStanding_turned {ctx : Ctx} {id : String} {home : Option (Option StandingHome)}
    (hid : id = standingId handle)
    (hstart : Untouched w w') :
    Ends A (writeStanding ctx id { handle, home }) (TurnsTo seen handle A w (.refresh ctx home) .owner) w' := by
  have hsafe : safeId id = true := by
    rw [hid]
    exact safeId_standing
  unfold writeStanding
  refine ends_getAgent (ends_nowIso (fun ts => ?_) fun e w'' h => .refused _ e (.inr ⟨ctx, home, rfl⟩) (hstart.trans h))
  rw [hstart.agents]
  refine ends_file hsafe fun w₁ h₁ w₂ h₂ => .refreshed ctx home _ ?_ (hstart.files (h₁.untouched h₂))
  rw [← hid]
  exact ⟨hid, rfl, rfl, rfl, rfl, rfl⟩

/-! ## A delivery's turn -/

theorem Files.get (h : Files w rec w') (id : String) :
    w'.agents.get id = if id = rec.id then some rec else w.agents.get id := by
  obtain ⟨hsafe, h⟩ := h
  rw [h]
  exact Filed.get_put w.agents rec hsafe

variable {owner unit : AgentRecord} {presence : Option String}

theorem Joins.same (h : Joins w owner unit presence w') (h' : Same w' w'') : Joins w owner unit presence w'' := by
  obtain ⟨pane, hpane, hpanes⟩ := h.panes
  refine ⟨h.new, h.kind, fun id => ?_, ⟨pane, hpane, fun id => ?_⟩, fun id => ?_⟩
  · rw [h'.agents, h.agents]
  · rw [h'.resolve, hpanes]
  · rw [h'.mailboxes, h.mailboxes]

theorem Joins.files {presence' : Option String} (h : Joins w owner unit presence w')
    (h' : Files w' { owner with presence := presence' } w'') : Joins w owner unit presence' w'' := by
  have hget := h'.get
  obtain ⟨hsafe, hw⟩ := h'
  obtain ⟨pane, hpane, hpanes⟩ := h.panes
  refine ⟨h.new, h.kind, fun id => ?_, ⟨pane, hpane, fun id => ?_⟩, fun id => ?_⟩
  · rw [hget, h.agents]
    by_cases hid : id = owner.id
    · rw [if_pos hid, if_pos hid]
    · rw [if_neg hid, if_neg hid, if_neg hid]
  · rw [← hpanes id, hw]
    rfl
  · rw [← h.mailboxes id, hw]

/-- A spawn in a home fails with nothing written, or files a new unit and binds its pane. -/
def Spawned (w : World) (r : Except HubError SpawnResult) (w' : World) : Prop :=
  (Same w w' ∧ ∃ e, r = .error e) ∨ ∃ res pane, r = .ok res ∧ w.agents.get res.agent.id = none ∧
  res.agent.kind = .session ∧
    jsTrim res.agent.id = res.agent.id ∧ res.agent.pane = some pane ∧
    Wrote w res.agent.id (some res.agent) none (some pane.id) w'

theorem spawnInHome_spawned {ctx : Ctx} {home : StandingHome} : Ends A (spawnInHome ctx owner home) (Spawned w) w := by
  unfold spawnInHome
  refine ends_call fun c launched w' _ hr => ?_
  cases hr
  cases c.launched with
  | none => exact .inl ⟨Same.rfl, _, rfl⟩
  | some launched =>
    refine wp_mono spawn_writes fun r w' hr => ?_
    rcases hr with hr | ⟨res, pane, hr, hnew, htrim, henlists, hwrote⟩
    · exact .inl hr
    · exact .inr ⟨res, pane, hr, hnew, henlists.kind, htrim, henlists.pane, hwrote⟩

theorem joins_spawned {res : SpawnResult} {pane : Pane}
    (hnew : w.agents.get res.agent.id = none) (hkind : res.agent.kind = .session)
    (htrim : jsTrim res.agent.id = res.agent.id)
    (hpane : res.agent.pane = some pane) (hwrote : Wrote w res.agent.id (some res.agent) none (some pane.id) w')
    (hfiles : Files w' { rec with presence } w'') : Joins w rec res.agent presence w'' := by
  have hget := hfiles.get
  obtain ⟨hsafe, hw⟩ := hfiles
  refine ⟨hnew, hkind, fun id => ?_, ⟨pane, hpane, fun id => ?_⟩, fun id => ?_⟩
  · rw [hget, hwrote.agents]
  · have hresolve := hwrote.panes id
    rw [htrim] at hresolve
    simp only [Option.any_some, Option.any_none, Bool.false_eq_true, if_false, decide_eq_true_eq] at hresolve
    rw [← hresolve, hw]
    rfl
  · rw [← hwrote.mailboxes id (.inr rfl), hw]

theorem ends_presenceOf {f : Option AgentRecord → HubM α} {Q : Except HubError α → World → Prop}
    (hf : Ends A (f (standsIn w rec)) Q w) : Ends A (presenceOf rec >>= f) Q w := by
  unfold presenceOf
  unfold standsIn at hf
  cases hgiven : given rec.presence with
  | none =>
    rw [hgiven] at hf
    exact hf
  | some unit =>
    rw [hgiven] at hf
    dsimp only
    rw [bind_assoc]
    exact ends_getAgent hf

theorem ends_unbind {f : Bool → HubM α} {Q : Except HubError α → World → Prop} (hrec : rec.id = standingId handle)
    (hjoins : Joins w rec unit (some unit.id) w') (hf : ∀ w'', Joins w rec unit none w'' → Ends A (f true) Q w'') :
    Ends A (unbindPresence (standingId handle) unit.id >>= f) Q w' := by
  unfold unbindPresence
  rw [bind_assoc]
  refine ends_getAgent ?_
  rw [hjoins.agents, if_pos hrec.symm]
  rw [show (some { rec with presence := some unit.id }).filter
    (fun r : AgentRecord => decide (r.presence = some unit.id)) =
    some { rec with presence := some unit.id } from Option.filter_some_pos (decide_eq_true rfl)]
  show Ends A ((Store.putAgent { rec with presence := none } >>= fun _ => pure true) >>= f) Q w'
  rw [bind_assoc]
  refine ends_file ?_ fun w₁ h₁ => hf w₁ (hjoins.files h₁)
  show safeId rec.id = true
  rw [hrec]
  exact safeId_standing

theorem deliver_turned {ctx : Ctx} {home : StandingHome} (howner : owner.id = standingId handle)
    (hstart : Untouched w w') :
    Ends A (Cyberlegion.deliver ctx owner home) (TurnsTo seen handle A w (.deliver ctx owner) .delivered) w' := by
  unfold Cyberlegion.deliver
  rw [howner]
  refine ends_getAgent ?_
  rw [hstart.agents]
  cases hrec : w.agents.get (standingId handle) with
  | none => exact fun w'' h => .refused _ _ (.inl hrec) (hstart.trans h)
  | some rec =>
    obtain ⟨hid, hsafe⟩ := safe_owner hrec
    refine ends_presenceOf ?_
    have hstands : standsIn w' rec = standsIn w rec := by rw [standsIn, hstart.agents, standsIn]
    rw [hstands]
    cases hlive : standsIn w rec with
    | some live => exact fun w'' h => .live ctx owner rec live hrec hlive (hstart.trans h)
    | none =>
      refine ends_bind spawnInHome_spawned (fun res w₁ h₁ => ?_) fun e w₁ h₁ w₂ h₂ => ?_
      · rcases h₁ with ⟨-, e, he⟩ | ⟨_, pane, hr, hnew, hkind, htrim, hpane, hwrote⟩
        · cases he
        cases hr
        rw [hstart.agents] at hnew
        refine ends_file (by exact hsafe) fun w₂ h₂ => ?_
        have hjoins : Joins w rec res.agent (some res.agent.id) w₂ :=
          joins_spawned hnew hkind htrim hpane (hstart.same.wrote hwrote) h₂
        -- the trust step is answered while the lock is held
        refine ends_call fun c trust w₃ hc hr => ?_
        cases hr
        cases htrust : c.trust with
        | none =>
          refine ends_unbind hid hjoins fun w₄ h₄ w₅ h₅ => ?_
          exact .threw ctx owner rec res.agent res.pane _ hrec hlive ⟨c, hc, htrust⟩ (h₄.same h₅.same)
        | some trust =>
          cases trust with
          | settled =>
            exact fun w₄ h₄ => .stands ctx owner rec res.agent res.pane hrec hlive ⟨c, hc, htrust⟩
              (hjoins.same h₄.same)
          | blocked message =>
            show Ends A (unbindPresence _ _ >>= fun unbound =>
                pure (PresenceSpawn.spawned res.agent res.pane unbound)) _ _
            refine ends_unbind hid hjoins fun w₄ h₄ w₅ h₅ => ?_
            exact .blocked ctx owner rec res.agent res.pane hrec hlive ⟨c, message, hc, htrust⟩ (h₄.same h₅.same)
      · rcases h₁ with ⟨hsame, -⟩ | ⟨_, _, hr, -⟩
        · exact .spawnFails ctx owner rec e hrec hlive ((hstart.same.trans hsame).trans h₂.same)
        · cases hr

theorem part_turned {o : PresenceOp} {p : HubM PresenceAnswer} (hpart : o.Part seen handle p)
    (howner : ∀ ctx owner, o = .deliver ctx owner → owner.id = standingId handle) (hstart : Untouched w w') :
    Ends A p (fun r w'' => Turned seen handle A w w'' o r) w' := by
  cases o with
  | deliver ctx owner =>
    obtain ⟨home, -, rfl⟩ := hpart
    exact wp_map (wp_lockedPart (fun _ => trivial) (deliver_turned (howner ctx owner rfl) hstart))
  | claim ctx =>
    obtain ⟨u, self, hseen, hself, rfl⟩ := hpart
    exact wp_map (wp_lockedPart (fun _ => trivial) (claimPart_turned ⟨u, hseen, hself⟩ hstart))
  | clear =>
    cases hpart
    exact wp_map (wp_lockedPart (fun _ => trivial) (clearPart_turned hstart))
  | refresh ctx home =>
    cases hpart
    exact wp_map (wp_lockedPart (fun _ => trivial) (writeStanding_turned rfl hstart))

/-- An unbinding takes away the unit it names, or writes nothing. -/
def Unbinds (handle : String) : Prop :=
  ∀ unit u cs r u', run Cyberlegion.handle (unbindPresence (standingId handle) unit) cs u = some (r, u') →
    (∃ rec, u.agents.get (standingId handle) = some rec ∧ rec.presence = some unit ∧
      Files u { rec with presence := none } u' ∧
      r = .ok true) ∨
    (u' = u ∧ r = .ok false ∧ ∀ rec, u.agents.get (standingId handle) = some rec → rec.presence ≠ some unit)

theorem unbinds : Unbinds handle := by
  intro unit u cs r u' hrun
  refine wp_run (A := fun _ _ => True) (Φ := fun _ _ => True) (Q := fun r u' =>
    (∃ rec, u.agents.get (standingId handle) = some rec ∧ rec.presence = some unit ∧
      Files u { rec with presence := none } u' ∧
      r = .ok true) ∨
    (u' = u ∧ r = .ok false ∧ ∀ rec, u.agents.get (standingId handle) = some rec → rec.presence ≠ some unit))
    ?_ (fun _ _ => trivial) hrun
  unfold unbindPresence
  refine ends_getAgent ?_
  cases hlatest : (u.agents.get (standingId handle)).filter (fun rec => decide (rec.presence = some unit)) with
  | none =>
    refine .inr ⟨rfl, rfl, fun rec hrec hpresence => ?_⟩
    rw [hrec] at hlatest
    exact Option.filter_eq_none_iff.mp hlatest rec rfl (decide_eq_true hpresence)
  | some rec =>
    obtain ⟨hrec, hpresence⟩ := Option.filter_eq_some_iff.mp hlatest
    obtain ⟨-, hsafe⟩ := safe_owner hrec
    refine ends_file (by exact hsafe) fun w₁ h₁ => .inl ⟨rec, hrec, of_decide_eq_true hpresence, h₁, rfl⟩

/-! ## What opens a session -/

/-- The calls of a spawn that make something outside the registry. -/
def raises : Call → Bool
  | .openSession _ _ _ _ | .createInWorkspace _ _ | .createWorktree _ | .acquireWorktree _ _ | .putPaneIndex _ _
  | .writeBrief _ _ => true
  | _ => false

/-- The operation is a delivery, and nobody stood in for the owner. -/
def Vacant (handle : String) (w : World) (o : PresenceOp) : Prop :=
  ∃ ctx owner rec, o = .deliver ctx owner ∧ w.agents.get (standingId handle) = some rec ∧ standsIn w rec = none

theorem wp_asks {op : Call} {a : op.Res} {f : op.Res → HubM α} {Q : Except HubError α → World → Prop} (hop : Φ op w)
    (h : ∀ c, Cyberlegion.handle op c w = some (a, w)) (hf : wp Cyberlegion.handle A Φ (f a) Q w) :
    wp Cyberlegion.handle A Φ (perform op >>= f) Q w := by
  refine ⟨hop, fun c r w' _ hr => ?_⟩
  rw [h c] at hr
  cases hr
  exact hf

theorem deliver_raises {ctx : Ctx} {home : StandingHome} (howner : owner.id = standingId handle)
    (hstart : Untouched w w') :
    wp Cyberlegion.handle A (fun op _ => raises op = true → Vacant handle w (.deliver ctx owner))
      (Cyberlegion.deliver ctx owner home) (fun _ _ => True) w' := by
  unfold Cyberlegion.deliver
  rw [howner]
  refine wp_asks (fun h => by cases h) (fun _ => rfl) ?_
  rw [hstart.agents]
  cases hrec : w.agents.get (standingId handle) with
  | none => trivial
  | some rec =>
    have hstands : standsIn w' rec = standsIn w rec := by rw [standsIn, hstart.agents, standsIn]
    show wp _ _ _ (presenceOf rec >>= _) _ _
    refine wp_seq (R := fun r t => r = .ok (standsIn w rec) ∧ t = w') ?_ (fun live t hr => ?_) fun e t hr => trivial
    · rw [← hstands]
      unfold presenceOf standsIn
      cases given rec.presence with
      | none => exact ⟨rfl, rfl⟩
      | some unit => exact wp_asks (fun h => by cases h) (fun _ => rfl) ⟨rfl, rfl⟩
    · obtain ⟨hr, -⟩ := hr
      cases hr
      cases hlive : standsIn w rec with
      | some live => trivial
      | none =>
        exact wp_only (Prog.only_true _) (fun _ _ _ _ _ _ _ _ => trivial)
          (fun _ _ _ _ _ => ⟨ctx, owner, rec, rfl, hrec, hlive⟩) trivial

theorem wp_idle {p : HubM α} {P : Prop} (hp : p.Only (raises · = false)) :
    wp Cyberlegion.handle A (fun op _ => raises op = true → P) p (fun _ _ => True) w := by
  refine wp_only hp (fun _ _ _ _ _ _ _ _ => trivial) (fun op _ hop _ h => ?_) trivial
  rw [hop] at h
  cases h

theorem idle_loadOwner {id : String} : (loadOwner id handle).Only (raises · = false) := by
  refine Prog.Only.bind (only_perform rfl) fun found => ?_
  cases found <;> trivial

theorem idle_writeStanding {ctx : Ctx} {id : String} {input : RegisterStandingInput} :
    (writeStanding ctx id input).Only (raises · = false) := by
  refine Prog.Only.bind (only_perform rfl)
    fun found => (only_nowIso (P := fun op => raises op = false) rfl).bind fun ts => ?_
  exact Prog.Only.bind (only_putAgent rfl) fun _ => trivial

theorem part_raises {o : PresenceOp} {p : HubM PresenceAnswer} (hpart : o.Part seen handle p)
    (howner : ∀ ctx owner, o = .deliver ctx owner → owner.id = standingId handle) (hstart : Untouched w w') :
    wp Cyberlegion.handle A (fun op _ => raises op = true → Vacant handle w o) p (fun _ _ => True) w' := by
  have hlocked : ∀ {β : Type} {fn : HubM β} {f : β → PresenceAnswer},
      wp Cyberlegion.handle A (fun op _ => raises op = true → Vacant handle w o) fn (fun _ _ => True) w' →
      wp Cyberlegion.handle A (fun op _ => raises op = true → Vacant handle w o)
        (f <$> lockedPart (presenceLock (standingId handle)) fn) (fun _ _ => True) w' := by
    intro β fn f hfn
    refine wp_map (wp_lockedPart (fun _ h => ?_) (wp_mono hfn fun _ _ _ _ _ => trivial))
    cases h
  cases o with
  | deliver ctx owner =>
    obtain ⟨home, -, rfl⟩ := hpart
    exact hlocked (deliver_raises (howner ctx owner rfl) hstart)
  | claim ctx =>
    obtain ⟨u, self, -, -, rfl⟩ := hpart
    refine hlocked (wp_idle (idle_loadOwner.bind fun rec => ?_))
    exact Prog.Only.bind (only_putAgent rfl) fun _ => trivial
  | clear =>
    cases hpart
    refine hlocked (wp_idle (idle_loadOwner.bind fun rec => ?_))
    split
    · exact Prog.Only.bind (only_putAgent rfl) fun _ => trivial
    · trivial
  | refresh ctx home =>
    cases hpart
    exact hlocked (wp_idle idle_writeStanding)

end

/-! ## Every interleaving -/

abbrev PresenceRun (ι : Type) := Turn ι Call Call.Res HubError PresenceAnswer World Choice

section
variable {ι : Type} (seen : World → Prop) (handle : String) (ops : ι → PresenceOp)

/-- Turns taken one after another, each from the state that the one before left. -/
inductive Serial : World → List (PresenceRun ι) → World → Prop
  | nil (w : World) : Serial w [] w
  | snoc {w t : World} {l : List (PresenceRun ι)} (hl : Serial w l t) (T : PresenceRun ι)
      (hfree : presenceLock (standingId handle) ∉ t.locks)
      (hstart : T.start = { t with locks := presenceLock (standingId handle) :: t.locks })
      (hpart : (ops T.who).Part seen handle T.part)
      (hrun : run Cyberlegion.handle T.part T.choices T.start = some (T.result, T.finish))
      (hturned : Turned seen handle (fun op c => (op, c) ∈ trace Cyberlegion.handle T.part T.choices T.start) t T.finish
        (ops T.who) T.result) : Serial w (l ++ [T]) T.finish

/-- The turns account for all that the operations have done. -/
structure History (w₀ : World) (l : List (PresenceRun ι)) (t : World)
    (s : World × (ι → HubM PresenceAnswer)) : Prop where
  serial : Serial seen handle ops w₀ l t
  once : (l.map (·.who)).Nodup
  ended : ∀ T ∈ l, s.2 T.who = Prog.ended T.result
  answered : ∀ i a, s.2 i = .ret a → i ∈ l.map (·.who)
  free : presenceLock (standingId handle) ∉ s.1.locks → s.1 = t
  held : presenceLock (standingId handle) ∈ s.1.locks → ∃ i part cs, i ∉ l.map (·.who) ∧
    (ops i).Part seen handle part ∧
    after Cyberlegion.handle part cs { t with locks := presenceLock (standingId handle) :: t.locks } = some (s.2 i, s.1)
  spawns : ∀ i op k, s.2 i = .call op k → raises op = true →
    presenceLock (standingId handle) ∈ s.1.locks ∧ Vacant handle t (ops i)

end

section
variable {ι : Type} {seen : World → Prop} {handle : String} {ops : ι → PresenceOp} {w₀ t w : World}
  {l : List (PresenceRun ι)}
variable {s : World × (ι → HubM PresenceAnswer)}

theorem taken_iff {w w' : World} (h : (latch handle).Taken Cyberlegion.handle w w') :
    presenceLock (standingId handle) ∉ w.locks ∧
    w' = { w with locks := presenceLock (standingId handle) :: w.locks } := by
  obtain ⟨c, r, hop, hgot⟩ := h
  have hyes : r = true := hgot
  subst hyes
  simp only [latch, Cyberlegion.handle] at hop
  split at hop
  · split at hop
    · cases hop
    · next hfree =>
      cases hop
      exact ⟨hfree, rfl⟩
  · cases hop

theorem untouched_taken : Untouched w { w with locks := presenceLock (standingId handle) :: w.locks } := rfl

theorem serial_turns (howner : ∀ i ctx owner, ops i = .deliver ctx owner → owner.id = standingId handle)
    (h : Turns (latch handle) Cyberlegion.handle (fun i => (ops i).Part seen handle) w₀ l t) :
    Serial seen handle ops w₀ l t := by
  induction h with
  | nil => exact .nil _
  | snoc hl T htaken hpart hrun ih =>
    obtain ⟨hfree, hstart⟩ := taken_iff htaken
    refine .snoc ih T hfree hstart hpart hrun ?_
    rw [hstart] at hrun ⊢
    exact wp_run (part_turned hpart (howner T.who) untouched_taken) (fun _ hx => hx) hrun

theorem outside_raises {o : PresenceOp} {op : Call} {k : op.Res → HubM PresenceAnswer}
    (hout : Before seen handle o (.call op k)) :
    raises op = false := by
  cases hout with
  | read _ _ hop _ =>
    have hasks : op.asks = true := hop
    cases op with
    | openSession | createInWorkspace | createWorktree | acquireWorktree | putPaneIndex | writeBrief => cases hasks
    | _ => rfl
  | acquire => rfl

theorem history_of_accounts [DecidableEq ι]
    (howner : ∀ i ctx owner, ops i = .deliver ctx owner → owner.id = standingId handle)
    (h : Accounts (latch handle) Cyberlegion.handle (Filing handle) (fun op => op.asks = true) seen
      (fun i => (ops i).Part seen handle) w₀ l t s) : History seen handle ops w₀ l t s := by
  have houtside : ∀ i, Before seen handle (ops i) (s.2 i) → (∀ a, s.2 i ≠ .ret a) ∧ ∀ op k,
      s.2 i = .call op k → raises op = false := by
    intro i hout
    refine ⟨fun a ha => ?_, fun op k hcall => ?_⟩
    · rw [ha] at hout
      cases hout
    · rw [hcall] at hout
      exact outside_raises hout
  have hmember : ∀ i, i ∈ l.map (·.who) → ∀ op k, s.2 i ≠ .call op k := by
    intro i hi op k hcall
    obtain ⟨T, hT, hwho⟩ := List.mem_map.mp hi
    have hended := h.ended T hT
    rw [hwho, hcall] at hended
    exact ended_ne_call hended.symm
  have hserial := serial_turns howner h.turns
  cases h.stage with
  | idle hfree hstate hout =>
    refine ⟨hserial, h.once, h.ended, fun i a ha => ?_, fun _ => hstate, fun hheld => absurd hheld hfree,
      fun i op k hcall hraises => ?_⟩
    · exact Classical.byContradiction fun hi => (houtside i (hout i hi)).1 a ha
    · by_cases hi : i ∈ l.map (·.who)
      · exact absurd hcall (hmember i hi op k)
      · rw [(houtside i (hout i hi)).2 op k hcall] at hraises
        cases hraises
  | busy j part start cs htaken hpart hafter hin hheld hout =>
    obtain ⟨-, rfl⟩ := taken_iff htaken
    have hj : ∃ op k, s.2 j = .call op k := by
      cases hj : s.2 j with
      | call op k => exact ⟨op, k, rfl⟩
      | _ => rw [hj] at hin; cases hin
    obtain ⟨opj, kj, hcallj⟩ := hj
    refine ⟨hserial, h.once, h.ended, fun i a ha => ?_, fun hfree => absurd hheld hfree,
      fun _ => ⟨j, part, cs, fun hmem => hmember j hmem opj kj hcallj, hpart, hafter⟩, fun i op k hcall hraises => ?_⟩
    · refine Classical.byContradiction fun hi => ?_
      by_cases hij : i = j
      · subst hij
        rw [hcallj] at ha
        cases ha
      · exact (houtside i (hout i hij hi)).1 a ha
    · by_cases hij : i = j
      · subst hij
        have hleft := wp_left (part_raises (A := fun _ _ => True) hpart (howner i) untouched_taken)
          (fun _ _ => trivial) hafter
        rw [hcall] at hleft
        exact ⟨hheld, hleft.1 hraises⟩
      · by_cases hi : i ∈ l.map (·.who)
        · exact absurd hcall (hmember i hi op k)
        · rw [(houtside i (hout i hij hi)).2 op k hcall] at hraises
          cases hraises

variable (handle ops w₀)

def Passed [DecidableEq ι] (es : List (ι × Choice)) (u : World) : Prop :=
  ∃ es₁ es₂ v, es = es₁ ++ es₂ ∧
    Runs.exec (stepPool Cyberlegion.handle) (w₀, fun i => (ops i).prog handle) es₁ = some v ∧ v.1 = u

/-- Every interleaving of deliveries, claims, clears and refreshes of one owner is a history of turns. -/
theorem presence_serial [DecidableEq ι]
    (howner : ∀ i ctx owner, ops i = .deliver ctx owner → owner.id = standingId handle)
    (hfree : presenceLock (standingId handle) ∉ w₀.locks) (hfiling : Filing handle w₀) (es : List (ι × Choice))
    (hrun : Runs.exec (stepPool Cyberlegion.handle) (w₀, fun i => (ops i).prog handle) es = some s) :
    (∃ l t, History (Passed handle ops w₀ es) handle ops w₀ l t s) ∧ Unbinds handle := by
  have hasks : ∀ (op : Call) c w r w', op.asks = true → Cyberlegion.handle op c w = some (r, w') → w' = w :=
    fun op c w r w' hop h => handle_reads (reads_of_asks op hop) h
  have hpassed : ∀ es₁ es₂ u, es = es₁ ++ es₂ →
      Runs.exec (stepPool Cyberlegion.handle) (w₀, fun i => (ops i).prog handle) es₁ = some u →
      Passed handle ops w₀ es u.1 :=
    fun es₁ es₂ u hes hu => ⟨es₁, es₂, u, hes, hu, rfl⟩
  obtain ⟨l, t, h⟩ := accounts_run latch_lawful hasks hfree hfiling (fun i => before_prog (howner i)) hpassed hrun
  exact ⟨⟨l, t, history_of_accounts howner h⟩, unbinds⟩

end

/-! ## Two deliveries to one owner -/

def homedOwner : AgentRecord :=
  { id := "standing-sam", handle := "sam", cwd := "/", status := .active, createdAt := 0, lastSeen := 0,
    kind := .standing
    home := some ⟨"/w", .harness "claude"⟩ }

def homedWorld : World := { agents := Filed.empty.put homedOwner (by decide), dirs := ["/w"] }

def twoDeliveries (_ : Bool) : PresenceOp := .deliver { env := {} } homedOwner

def spawning : List Choice :=
  List.replicate 2 default ++ [{ launched := some { harness := some "claude" } }, default,
    { mux := .tmux }, { text := some "u1" },
    default, default, { text := some "%1" }] ++ List.replicate 5 default ++ [{ trust := some .settled }, default]

def firstThenSecond : List (Bool × Choice) := spawning.map (true, ·) ++ (List.replicate 4 default).map (false, ·)

theorem presence_serial_sam :
    ∃ s, Runs.exec (stepPool Cyberlegion.handle) (homedWorld, fun i => (twoDeliveries i).prog "sam")
      firstThenSecond = some s ∧
    (∃ l t, History (Passed "sam" twoDeliveries homedWorld firstThenSecond) "sam" twoDeliveries homedWorld l t s) ∧
    Unbinds "sam" := by
  have hruns : (Runs.exec (stepPool Cyberlegion.handle) (homedWorld, fun i => (twoDeliveries i).prog "sam")
      firstThenSecond).isSome = true := by decide +kernel
  obtain ⟨s, hrun⟩ := Option.isSome_iff_exists.mp hruns
  refine ⟨s, hrun, presence_serial "sam" twoDeliveries homedWorld ?_ List.not_mem_nil ?_ firstThenSecond hrun⟩
  · intro i ctx owner h
    cases h
    decide
  · intro rec hget _ _
    rw [homedWorld, Filed.get_put] at hget
    split at hget
    · cases hget
      decide
    · cases hget

end Presence

end Cyberlegion
