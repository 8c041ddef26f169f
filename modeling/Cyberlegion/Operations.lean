import Cyberlegion.RegistrySpec
import Cyberlegion.ServiceSpec
import Cyberlegion.Standing

/-!
# What an operation changes

The verbs of a unit, of a standing owner and of a service as one set of operations,
and what each can do to the record and the mailbox of one id.
-/

namespace Cyberlegion

open Effects Runs

inductive Operation
  | verb (c : Command)
  | registerStanding (ctx : Ctx) (input : RegisterStandingInput)
  | claim (ctx : Ctx) (handle : String)
  | clear (handle : String)
  | send (input : SendInput)
  | service (c : ServiceCall)

def Operation.prog : Operation → HubM (Option AgentRecord)
  | .verb c => c.prog
  | .registerStanding ctx input => do return some (← Cyberlegion.registerStanding ctx input)
  | .claim ctx handle => do return some (← claimPresence ctx handle)
  | .clear handle => do return some (← clearPresence handle)
  | .send input => do let _ ← Cyberlegion.send input; return none
  | .service c => do let _ ← c.prog; return none

/-! ## Standing owners -/

/-- The record of a standing owner that a registration writes over an earlier one. -/
structure Refreshes (input : RegisterStandingInput) (existing : Option AgentRecord) (rec : AgentRecord) : Prop where
  id : rec.id = standingId input.handle
  handle : rec.handle = input.handle
  kind : rec.kind = .standing
  status : rec.status = .active
  presence : rec.presence = existing.bind (·.presence)
  home : rec.home = input.home.getD (existing.bind (·.home))

/-- The standing owner that a handle names. -/
def World.owner (w : World) (handle : String) : Option AgentRecord :=
  (Registry.list w.agents).find? fun a => a.handle = handle ∧ a.kind = .standing

/-- A registration of a standing owner fails with nothing written, or writes the record of
its handle. -/
def StandingWrites (w : World) (input : RegisterStandingInput) (r : Except HubError AgentRecord) (w' : World) : Prop :=
  (Same w w' ∧ ∃ e, r = .error e) ∨ ∃ rec, r = .ok rec ∧
  Refreshes input (w.agents.get (standingId input.handle)) rec ∧
    Wrote w rec.id (some rec) none none w'

/-- A claim or a clear fails with nothing written, or answers the record of the owner that
the handle names with its new presence. -/
def PresenceWrites (w : World) (handle : String) (r : Except HubError AgentRecord) (w' : World) : Prop :=
  (Same w w' ∧ ∃ e, r = .error e) ∨ ∃ rec presence, w.owner handle = some rec ∧ r = .ok { rec with presence } ∧
    (Same w w' ∧ rec.presence = presence ∨ Wrote w rec.id (some { rec with presence }) none none w')

section
variable {α : Type} {A : Call → Choice → Prop} {w w' : World} {ctx : Ctx} {id handle : String} {rec : AgentRecord}

theorem safeId_standing : safeId (standingId handle) = true := by
  have hlong : ∀ s : String, s.toList.length < 9 → standingId handle ≠ s := by
    intro s hs heq
    have hlen := congrArg (·.toList.length) heq
    simp only [standingId, String.toList_append, List.length_append] at hlen
    have hpre : "standing-".toList.length = 9 := by decide
    omega
  refine decide_eq_true ⟨hlong _ (by decide), hlong _ (by decide), hlong _ (by decide), ?_⟩
  rw [Bool.not_eq_true, List.any_eq_false]
  intro c hc
  rw [standingId, String.toList_append, List.mem_append] at hc
  rw [Bool.not_eq_true]
  rcases hc with hc | hc
  · have hall : "standing-".toList.all (fun c => !unsafeChar c) = true := by decide
    exact Bool.not_eq_true' _ ▸ List.all_eq_true.mp hall c hc
  · exact not_unsafe_of_clean (sanitizePane_clean hc)

theorem ends_locked {name : String} {fn : HubM α} {Q : Except HubError α → World → Prop}
    (htimeout : ∀ e, Q (.error e) w)
    (hfn : ∀ w₁, Same w w₁ → Ends A fn (fun r w' => ∀ w'', Same w' w'' → Q r w'') w₁) :
    Ends A (Store.withLock name fn) Q w := by
  refine ends_withLock (htimeout _) (wp_mono (hfn _ ⟨rfl, rfl, rfl⟩) fun r w' h locks => ?_)
  exact h _ ⟨rfl, rfl, rfl⟩

theorem writeStanding_writes {input : RegisterStandingInput} (hid : id = standingId input.handle) :
    Ends A (writeStanding ctx id input) (fun r w' => (Same w w' ∧ ∃ e, r = .error e) ∨
      ∃ rec, r = .ok rec ∧ Refreshes input (w.agents.get id) rec ∧ Wrote w rec.id (some rec) none none w') w := by
  unfold writeStanding
  refine ends_getAgent (ends_nowIso (fun t => ?_) fun e => .inl ⟨Same.rfl, e, rfl⟩)
  refine ends_putAgent (fun w' hw' => .inr ?_) fun e => .inl ⟨Same.rfl, e, rfl⟩
  exact ⟨_, rfl, ⟨hid, rfl, rfl, rfl, rfl, rfl⟩, hw'⟩

theorem registerStanding_writes {input : RegisterStandingInput} :
    Ends A (registerStanding ctx input) (StandingWrites w input) w := by
  unfold registerStanding
  refine ends_read (fun _ => rfl) (ends_locked (fun e => .inl ⟨Same.rfl, e, rfl⟩) fun w₁ h₁ => ?_)
  refine wp_mono (writeStanding_writes rfl) fun r w' h w'' h'' => ?_
  rcases h with ⟨h, herr⟩ | ⟨rec, hr, hrec, h⟩
  · exact .inl ⟨(h₁.trans h).trans h'', herr⟩
  · rw [h₁.agents] at hrec
    exact .inr ⟨rec, hr, hrec, (h₁.wrote h).same h''⟩

theorem owner_spec (h : w.owner handle = some rec) :
    w.agents.get rec.id = some rec ∧ rec.handle = handle ∧ rec.kind = .standing := by
  have hfind := List.find?_some (p := fun a : AgentRecord => decide (a.handle = handle ∧ a.kind = .standing)) h
  exact ⟨Registry.mem_list.mp (List.mem_of_find?_eq_some h), of_decide_eq_true hfind⟩

theorem ends_owner {f : String → HubM α} {Q : Except HubError α → World → Prop}
    (hok : ∀ rec, w.owner handle = some rec → Ends A (f rec.id) Q w) (herr : ∀ e, Q (.error e) w) :
    Ends A (resolveStandingOwner handle >>= f) Q w := by
  unfold resolveStandingOwner
  rw [bind_assoc]
  refine ends_read (fun _ => rfl) ?_
  cases hrec : (Registry.list w.agents).find? fun a => a.handle = handle ∧ a.kind = .standing with
  | none => exact herr _
  | some rec => exact hok rec hrec

theorem ends_loadOwner {f : AgentRecord → HubM α} {Q : Except HubError α → World → Prop}
    (hget : w.agents.get id = some rec) (hf : Ends A (f rec) Q w) : Ends A (loadOwner id handle >>= f) Q w := by
  unfold loadOwner
  rw [bind_assoc]
  refine ends_getAgent ?_
  rw [hget]
  exact hf

theorem claim_writes : Ends A (claimPresence ctx handle) (PresenceWrites w handle) w := by
  unfold claimPresence
  refine ends_owner (fun rec hrec => ?_) fun e => .inl ⟨Same.rfl, e, rfl⟩
  have hget := (owner_spec hrec).1
  refine ends_loadOwner hget (ends_call fun c mux w₁ _ hr => ?_)
  cases hr
  refine ends_refuse (fun _ => .inl ⟨Same.rfl, _, rfl⟩) fun _ => ?_
  refine (resolveSelfId_answers fun _ _ _ => trivial).bind_of ?_
  dsimp only
  cases given (w.selfId ctx) with
  | none => exact .inl ⟨Same.rfl, _, rfl⟩
  | some selfId =>
    refine ends_locked (fun e => .inl ⟨Same.rfl, e, rfl⟩) fun w₁ h₁ => ?_
    rw [← h₁.agents] at hget
    refine ends_loadOwner hget ?_
    refine ends_putAgent (fun w' hw' w'' h'' => .inr ⟨rec, some selfId, hrec, rfl, .inr ?_⟩)
      fun e w'' h'' => .inl ⟨h₁.trans h'', e, rfl⟩
    exact (h₁.wrote hw').same h''

theorem clear_writes : Ends A (clearPresence handle) (PresenceWrites w handle) w := by
  unfold clearPresence
  refine ends_owner (fun rec hrec => ?_) fun e => .inl ⟨Same.rfl, e, rfl⟩
  have hget := (owner_spec hrec).1
  refine ends_loadOwner hget (ends_locked (fun e => .inl ⟨Same.rfl, e, rfl⟩) fun w₁ h₁ => ?_)
  rw [← h₁.agents] at hget
  refine ends_loadOwner hget ?_
  split
  · refine ends_putAgent (fun w' hw' w'' h'' => .inr ⟨rec, none, hrec, rfl, .inr ?_⟩)
      fun e w'' h'' => .inl ⟨h₁.trans h'', e, rfl⟩
    exact (h₁.wrote hw').same h''
  · next hnone =>
    rw [Bool.not_eq_true, Option.isSome_eq_false_iff, Option.isNone_iff_eq_none] at hnone
    exact fun w'' h'' => .inr ⟨rec, none, hrec, by rw [← hnone], .inl ⟨h₁.trans h'', hnone⟩⟩

/-! ## Mail -/

def World.recipient (w : World) («to» : String) : Option String :=
  match w.agents.get «to» with
  | some _ => some «to»
  | none => (recipientAmong «to» (Registry.list w.agents)).value

/-- A send writes nothing, or one message to the mailbox of the address it resolves. -/
def SendWrites (w : World) («to» : String) (w' : World) : Prop :=
  Same w w' ∨ ∃ toId msg, w.recipient «to» = some toId ∧ w'.agents = w.agents ∧
    w'.mailboxes = w.mailboxes.insert toId
      { (w.mailboxes.lookup toId).getD ⟨[], []⟩
        with unread := msg :: ((w.mailboxes.lookup toId).getD ⟨[], []⟩).unread }

theorem recipientAmong_cases («to» : String) (agents : List AgentRecord) :
    (∃ e, recipientAmong «to» agents = .throw e) ∨ ∃ toId, recipientAmong «to» agents = .ret toId := by
  simp only [recipientAmong, pickLive]
  split
  · exact .inr ⟨_, rfl⟩
  · split
    · exact .inl ⟨_, rfl⟩
    · simp only [Prog.pure_eq, Prog.ret_bind]
      split
      · exact .inr ⟨_, rfl⟩
      · exact .inl ⟨_, rfl⟩

theorem ends_recipient {«to» : String} {f : String → HubM α} {Q : Except HubError α → World → Prop}
    (hok : ∀ toId, w.recipient «to» = some toId → Ends A (f toId) Q w) (herr : ∀ e, Q (.error e) w) :
    Ends A (resolveRecipient «to» >>= f) Q w := by
  unfold resolveRecipient
  rw [bind_assoc]
  refine ends_getAgent ?_
  unfold World.recipient at hok
  cases hget : w.agents.get «to» with
  | some rec =>
    rw [hget] at hok
    exact hok «to» rfl
  | none =>
    rw [hget] at hok
    show Ends A ((perform .listAgents >>= recipientAmong «to») >>= f) Q w
    rw [bind_assoc]
    refine ends_read (fun _ => rfl) ?_
    rcases recipientAmong_cases «to» (Registry.list w.agents) with ⟨e, h⟩ | ⟨toId, h⟩
    · rw [h]
      exact herr e
    · rw [h] at hok ⊢
      exact hok toId rfl

theorem send_writes {input : SendInput} : Ends A (send input) (fun _ w' => SendWrites w input.to w') w := by
  unfold send
  refine ends_recipient (fun toId hto => ends_getAgent (ends_call fun c ts w₁ _ hr => ?_)) fun e => .inl Same.rfl
  cases hr
  refine ends_call fun c' hex w₂ _ hr => ?_
  cases hr
  refine ends_bind (R := fun _ w' => w' = w) iso_spec (fun _ w' hw' => ?_)
    fun e w' hw' => .inl (by rw [hw']; exact Same.rfl)
  subst hw'
  refine ends_call fun c'' r w'' _ hr => ?_
  cases hr
  exact .inr ⟨toId, _, hto, rfl, rfl⟩

end

/-! ## The record and the mailbox of one id -/

/-- One way an operation changes the record filed under an id. Only a sweep takes more
than one of these steps. -/
inductive Change (A : Call → Choice → Prop) (w : World) (o : Operation) (id : String) :
    Option AgentRecord → Option AgentRecord → Prop
  | seen (rec : AgentRecord) (lastSeen : Int) : Change A w o id (some rec) (some { rec with lastSeen })
  | converses (ctx : Ctx) (session : Option String) (rec : AgentRecord) (conversation : String)
      (ho : o = .verb ⟨ctx, .recordConversation session⟩) :
      Change A w o id (some rec) (some { rec with conversation := some conversation })
  | exits (rec : AgentRecord) (hprunable : isPrunable rec = true) :
      Change A w o id (some rec) (some { rec with status := .exited })
  | adopts (rec : AgentRecord) (hkind : rec.kind = .session) : Change A w o id none (some rec)
  | enlists (ctx : Ctx) (input : SpawnInput) (rec : AgentRecord) (pane : Pane) (ho : o = .verb ⟨ctx, .spawn input⟩)
      (h : Enlists A ctx input rec pane) : Change A w o id none (some rec)
  | registers (ctx : Ctx) (input : RegisterInput) (old : Option AgentRecord) (rec : AgentRecord)
      (ho : o = .verb ⟨ctx, .register input⟩) (hwho : Registers w ctx id) (h : Registered A w ctx rec) :
      Change A w o id old (some rec)
  | halts (rec : AgentRecord) (hruntime : rec.kind.hasRuntime = true) : Change A w o id (some rec) (some rec.halted)
  | binds (rec : AgentRecord) (pane : Pane) (t : Int) (hruntime : rec.kind.hasRuntime = true) :
      Change A w o id (some rec) (some (rec.bound pane t))
  | reaps (ctx : Ctx) (input : DecommissionInput) (rec : AgentRecord) (ho : o = .verb ⟨ctx, .close input⟩)
      (hid : input.id = id) (hkind : rec.kind ≠ .service) : Change A w o id (some rec) none
  | refreshes (ctx : Ctx) (input : RegisterStandingInput) (old : Option AgentRecord) (rec : AgentRecord)
      (ho : o = .registerStanding ctx input) (hid : id = standingId input.handle) (h : Refreshes input old rec) :
      Change A w o id old (some rec)
  | presents (rec : AgentRecord) (presence : Option String)
      (ho : (∃ ctx handle, o = .claim ctx handle) ∨ ∃ handle, o = .clear handle) (hkind : rec.kind = .standing) :
      Change A w o id (some rec) (some { rec with presence })
  | serves (c : ServiceCall) (rec : AgentRecord) (ho : o = .service c) (h : Endpoint id rec) :
      Change A w o id none (some rec)

/-- What an operation may do to the mailbox under an id. -/
inductive Mailed (w : World) (o : Operation) (id : String) : Option InboxSnapshot → Prop
  | kept : Mailed w o id (w.mailboxes.lookup id)
  | sent (input : SendInput) (msg : Message) (ho : o = .send input) (hto : w.recipient input.to = some id) :
      Mailed w o id (some { (w.mailboxes.lookup id).getD ⟨[], []⟩ with
        unread := msg :: ((w.mailboxes.lookup id).getD ⟨[], []⟩).unread })
  | reaped (ctx : Ctx) (input : DecommissionInput) (box : Option InboxSnapshot)
      (ho : o = .verb ⟨ctx, .close input⟩) (hid : input.id = id)
      (hkind : ∀ rec, w.agents.get id = some rec → rec.kind ≠ .service) : Mailed w o id box

/-- What an operation does to the record and the mailbox under an id. -/
structure Moves (A : Call → Choice → Prop) (w : World) (o : Operation) (w' : World) (id : String) : Prop where
  agents : Relation.ReflTransGen (Change A w o id) (w.agents.get id) (w'.agents.get id)
  mailbox : Mailed w o id (w'.mailboxes.lookup id)

section
variable {A : Call → Choice → Prop} {w w₀ w' : World} {o : Operation} {id : String} {rec : AgentRecord}
variable {written : Option AgentRecord} {unbinds binds : Option String}

theorem Same.moves (h : Same w w') : Moves A w o w' id := by
  refine ⟨?_, ?_⟩
  · rw [h.agents]
  · rw [h.mailboxes]
    exact .kept

theorem Wrote.changes (h : Wrote w rec.id written unbinds binds w')
    (hchange : Change A w₀ o rec.id (w.agents.get rec.id) written) :
    Relation.ReflTransGen (Change A w₀ o id) (w.agents.get id) (w'.agents.get id) := by
  rw [h.agents]
  by_cases hid : id = rec.id
  · rw [if_pos hid, hid]
    exact .single hchange
  · rw [if_neg hid]

theorem Wrote.moves (h : Wrote w rec.id (some rec) unbinds binds w')
    (hchange : Change A w o rec.id (w.agents.get rec.id) (some rec)) : Moves A w o w' id := by
  refine ⟨h.changes hchange, ?_⟩
  rw [h.mailboxes id (.inr rfl)]
  exact .kept

theorem sweep_changes (h : Sweep w w') : Relation.ReflTransGen (Change A w₀ o id) (w.agents.get id) (w'.agents.get id) ∧
    w'.mailboxes.lookup id = w.mailboxes.lookup id := by
  cases h with
  | same h => exact ⟨by rw [h.agents], by rw [h.mailboxes]⟩
  | exits hget hprunable h =>
    refine ⟨h.changes ?_, h.mailboxes id (.inr rfl)⟩
    rw [hget]
    exact .exits _ hprunable
  | adopts hid hnew hkind htrim hpane hworktree hunbound h =>
    subst hid
    refine ⟨h.changes ?_, h.mailboxes id (.inr rfl)⟩
    rw [hnew]
    exact .adopts _ hkind

theorem sweeps_moves (h : Sweeps w w') : Moves A w o w' id := by
  have hboth : Relation.ReflTransGen (Change A w o id) (w.agents.get id) (w'.agents.get id) ∧
      w'.mailboxes.lookup id = w.mailboxes.lookup id := by
    induction h with
    | refl => exact ⟨.refl, rfl⟩
    | tail _ hstep ih =>
      obtain ⟨hagents, hmail⟩ := sweep_changes hstep
      exact ⟨ih.1.trans hagents, hmail.trans ih.2⟩
  refine ⟨hboth.1, ?_⟩
  rw [hboth.2]
  exact .kept

theorem runtime_moves {c : Command} (h : RuntimeWrites A w c w') : Moves A w (.verb c) w' id := by
  rcases h with h | ⟨rec, written, old, binds, htarget, -, hwrite, h⟩
  · exact h.moves
  have hget := target_stored htarget
  cases hwrite with
  | halts hruntime =>
    refine (show Wrote w rec.halted.id (some rec.halted) _ _ _ from h).moves ?_
    show Change A w _ rec.id (w.agents.get rec.id) _
    rw [hget]
    exact .halts rec hruntime
  | opens hruntime hverb hopens =>
    refine (show Wrote w (rec.bound _ _).id (some (rec.bound _ _)) _ _ _ from h).moves ?_
    show Change A w _ rec.id (w.agents.get rec.id) _
    rw [hget]
    exact .binds rec _ _ hruntime
  | binds hruntime hverb hcur hfree =>
    refine (show Wrote w (rec.bound _ _).id (some (rec.bound _ _)) _ _ _ from h).moves ?_
    show Change A w _ rec.id (w.agents.get rec.id) _
    rw [hget]
    exact .binds rec _ _ hruntime
  | @reaps input hverb hkind =>
    obtain ⟨ctx, verb⟩ := c
    subst hverb
    have hid : input.id = rec.id := (Filed.key_of_get htarget).symm
    refine ⟨h.changes ?_, ?_⟩
    · rw [hget]
      exact .reaps ctx input rec rfl hid hkind
    · by_cases hne : id = rec.id
      · refine .reaped ctx input _ rfl (hid.trans hne.symm) fun rec' hrec' => ?_
        rw [hne, hget] at hrec'
        cases hrec'
        exact hkind
      · rw [h.mailboxes id (.inl hne)]
        exact .kept

theorem touches_moves (h : Touches w w') : Moves A w o w' id := by
  rcases h with h | ⟨rec, lastSeen, hget, h⟩
  · exact h.moves
  · refine @Wrote.moves _ _ _ _ _ { rec with lastSeen } _ _ h ?_
    show Change A w o rec.id (w.agents.get rec.id) _
    rw [hget]
    exact .seen rec lastSeen

theorem converses_moves {ctx : Ctx} {session : Option String} (ho : o = .verb ⟨ctx, .recordConversation session⟩)
    (h : Converses w ctx session w') : Moves A w o w' id := by
  unfold Converses at h
  split at h
  · exact h.moves
  · next rec conversation _ =>
    obtain ⟨hget, ⟨-, h⟩ | h⟩ := h
    · exact h.moves
    · refine @Wrote.moves _ _ _ _ _ { rec with conversation := some conversation } _ _ h ?_
      show Change A w o rec.id (w.agents.get rec.id) _
      rw [hget]
      exact .converses ctx session rec conversation ho

theorem spawn_moves {ctx : Ctx} {input : SpawnInput} {r : Except HubError SpawnResult}
    (ho : o = .verb ⟨ctx, .spawn input⟩) (h : SpawnWrites A w ctx input r w') : Moves A w o w' id := by
  rcases h with ⟨h, -⟩ | ⟨res, pane, -, hnew, -, hrec, h⟩
  · exact h.moves
  · refine h.moves ?_
    rw [hnew]
    exact .enlists ctx input res.agent pane ho hrec

theorem register_moves {ctx : Ctx} {input : RegisterInput} (ho : o = .verb ⟨ctx, .register input⟩)
    (h : RegisterWrites A w ctx w') : Moves A w o w' id := by
  rcases h with h | ⟨id', rec, hwho, hid, hrec, h⟩
  · exact h.moves
  · subst hid
    exact h.moves (.registers ctx input _ rec ho hwho hrec)

theorem standing_moves {ctx : Ctx} {input : RegisterStandingInput} {r : Except HubError AgentRecord}
    (ho : o = .registerStanding ctx input) (h : StandingWrites w input r w') : Moves A w o w' id := by
  rcases h with ⟨h, -⟩ | ⟨rec, -, hrec, h⟩
  · exact h.moves
  · rw [← hrec.id] at hrec
    exact h.moves (.refreshes ctx input _ rec ho hrec.id hrec)

theorem presence_moves {handle : String} {r : Except HubError AgentRecord}
    (ho : (∃ ctx handle, o = .claim ctx handle) ∨ ∃ handle, o = .clear handle) (h : PresenceWrites w handle r w') :
    Moves A w o w' id := by
  rcases h with ⟨h, -⟩ | ⟨rec, presence, howner, -, ⟨h, -⟩ | h⟩
  · exact h.moves
  · exact h.moves
  · obtain ⟨hget, -, hkind⟩ := owner_spec howner
    refine @Wrote.moves _ _ _ _ _ { rec with presence } _ _ h ?_
    show Change A w o rec.id (w.agents.get rec.id) _
    rw [hget]
    exact .presents rec presence ho hkind

theorem send_moves {input : SendInput} (ho : o = .send input) (h : SendWrites w input.to w') : Moves A w o w' id := by
  rcases h with h | ⟨toId, msg, hto, hagents, hmail⟩
  · exact h.moves
  refine ⟨by rw [hagents], ?_⟩
  rw [hmail, Table.lookup_insert_eq]
  by_cases hid : id = toId
  · rw [if_pos hid, ← hid]
    exact .sent input msg ho (by rw [hid]; exact hto)
  · rw [if_neg hid]
    exact .kept

/-- A transition of a service writes leases, and a record only where an endpoint has none. -/
theorem service_moves {c : ServiceCall} {r : Except HubError ServiceAnswer} (ho : o = .service c)
    (h : Outcome A c w w' r) : Moves A w o w' id := by
  have hboth : w'.mailboxes = w.mailboxes ∧ ∀ id, w'.agents.get id = w.agents.get id ∨
      (w.agents.get id = none ∧ ∃ rec, w'.agents.get id = some rec ∧ Endpoint id rec) := by
    cases h with
    | threw e hw => exact ⟨hw.mailboxes, hw.agents⟩
    | resolved i l v hop hforce hw => exact ⟨hw.mailboxes, hw.agents⟩
    | starting i l v hop hforce hw => exact ⟨hw.mailboxes, hw.agents⟩
    | reserved i l next v r hop hw => exact ⟨hw.mailboxes, hw.agents⟩
    | bound i l next v hop hw => exact ⟨hw.mailboxes, hw.agents⟩
    | released i l next v hop hw => exact ⟨hw.mailboxes, hw.agents⟩
    | handedOff i l next v hop hw => exact ⟨hw.mailboxes, hw.agents⟩
    | verified i v hop hw => exact ⟨hw.mailboxes, hw.agents⟩
  refine ⟨?_, ?_⟩
  · rcases hboth.2 id with h | ⟨hnone, rec, hrec, hendpoint⟩
    · rw [h]
    · rw [hnone, hrec]
      exact .single (.serves c rec ho hendpoint)
  · rw [hboth.1]
    exact .kept

theorem verb_moves {c : Command} : Ends A c.prog (fun _ w' => ∀ id, Moves A w (.verb c) w' id) w := by
  obtain ⟨ctx, verb⟩ := c
  cases verb with
  | spawn input => exact ends_returned (wp_mono spawn_writes fun r w' h id => spawn_moves rfl h)
  | register input => exact ends_returned (wp_mono register_writes fun r w' h id => register_moves rfl h)
  | reconcile adopts => exact ends_returned (wp_mono reconcile_sweeps fun r w' h id => sweeps_moves h)
  | prune => exact ends_returned (wp_mono prune_sweeps fun r w' h id => sweeps_moves h)
  | touch => exact ends_returned (wp_mono touch_touches fun r w' h id => touches_moves h)
  | recordConversation session =>
    exact ends_returned (wp_mono recordConversation_converses fun r w' h id => converses_moves rfl h)
  | stop ref => exact ends_returned (wp_mono (stop_writes rfl) fun r w' h id => runtime_moves h)
  | restart ref fresh => exact ends_returned (wp_mono (restart_writes rfl) fun r w' h id => runtime_moves h)
  | rebind ref => exact ends_returned (wp_mono (rebind_writes rfl) fun r w' h id => runtime_moves h)
  | close input => exact ends_returned (wp_mono (close_writes rfl) fun r w' h id => runtime_moves h)

theorem operation_moves : Ends A o.prog (fun _ w' => ∀ id, Moves A w o w' id) w := by
  cases o with
  | verb c => exact verb_moves
  | registerStanding ctx input =>
    exact ends_returned (wp_mono registerStanding_writes fun r w' h id => standing_moves rfl h)
  | claim ctx handle => exact ends_returned (wp_mono claim_writes fun r w' h id => presence_moves (.inl ⟨_, _, rfl⟩) h)
  | clear handle => exact ends_returned (wp_mono clear_writes fun r w' h id => presence_moves (.inr ⟨_, rfl⟩) h)
  | send input => exact ends_returned (wp_mono send_writes fun r w' h id => send_moves rfl h)
  | service c => exact ends_returned (wp_mono (call_spec c) fun r w' h id => service_moves rfl h)

end

/-! ## Runs -/

abbrev OpEntry := Effects.Entry Operation Call Choice (Except HubError (Option AgentRecord)) World

abbrev OpRun := Effects.Logged Operation Call Choice (Except HubError (Option AgentRecord)) World

abbrev OpEvent := LogEvent Operation Choice Outside

def opStep : OpRun → OpEvent → Option OpRun := logStep handle Operation.prog outside

def newOps (live : List (StorableMux × String)) (dirs : List String) : OpRun := ⟨{ live, dirs }, []⟩

/-- An event changes no record and no mailbox, or is one operation with one more entry. -/
theorem opStep_cases {s s' : OpRun} {ev : OpEvent} (h : opStep s ev = some s') :
    (s'.log = s.log ∧ Same s.state s'.state) ∨ ∃ o cs r, ev = .call o cs ∧
      s'.log = s.log ++ [⟨o, trace handle o.prog cs s.state, r, s.state, s'.state⟩] ∧
      run handle o.prog cs s.state = some (r, s'.state) := by
  cases ev with
  | call o cs =>
    obtain ⟨⟨r, w'⟩, hr, rfl⟩ := Option.map_eq_some_iff.mp h
    exact .inr ⟨o, cs, r, rfl, rfl, hr⟩
  | other x =>
    obtain ⟨w', hx, rfl⟩ := Option.map_eq_some_iff.mp h
    obtain ⟨live, dirs, rfl⟩ := outside_cases hx
    exact .inl ⟨rfl, rfl, rfl, rfl⟩

theorem moves_run {w w' : World} {o : Operation} {cs : List Choice} {r : Except HubError (Option AgentRecord)}
    (h : run handle o.prog cs w = some (r, w')) (id : String) :
    Moves (fun op c => (op, c) ∈ trace handle o.prog cs w) w o w' id :=
  wp_run operation_moves (fun _ hx => hx) h id

theorem record_step {P : String → Option AgentRecord → Prop} {s s' : OpRun} {ev : OpEvent}
    (hchange : ∀ A w o id old new, Change A w o id old new → P id old → P id new)
    (hs : ∀ id, P id (s.state.agents.get id)) (hstep : opStep s ev = some s') :
    ∀ id, P id (s'.state.agents.get id) := by
  intro id
  rcases opStep_cases hstep with ⟨-, hsame⟩ | ⟨o, cs, r, -, -, hr⟩
  · rw [hsame.agents]; exact hs id
  · exact star_inv (moves_run hr id).agents (fun old new h => hchange _ _ _ id old new h) (hs id)

theorem record_run {P : String → Option AgentRecord → Prop} {s : OpRun} {live : List (StorableMux × String)}
    {dirs : List String} {es : List OpEvent}
    (hchange : ∀ A w o id old new, Change A w o id old new → P id old → P id new)
    (hnone : ∀ id, P id none) (h : exec opStep (newOps live dirs) es = some s) : ∀ id, P id (s.state.agents.get id) :=
  exec_inv (s := newOps live dirs) (I := fun s : OpRun => ∀ id, P id (s.state.agents.get id))
    (fun _ _ _ hs hstep => record_step hchange hs hstep) hnone h

end Cyberlegion
