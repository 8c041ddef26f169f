import Cyberlegion.Verbs

/-!
# What the verbs do

One lemma for each function: how it ends, and which record and which index entries
it writes. `A` is what the outside may answer during the call.
-/

namespace Cyberlegion

open Effects Runs

/-! ## Calls that write nothing -/

structure Same (w w' : World) : Prop where
  agents : w'.agents = w.agents
  panes : w'.panes = w.panes
  mailboxes : w'.mailboxes = w.mailboxes

/-- The calls that can hit a pane. -/
def Call.hitsPane : Call → Prop
  | .teardown _ _ | .removePaneIndex _ => True
  | _ => False

/-- The pane that ending the unit's session unbinds: its recorded one, else one the index
keeps under its id. -/
def World.leaves (w : World) (rec : AgentRecord) (pane : String) : Prop :=
  match rec.pane with
  | some q => q.id = pane
  | none => w.paneText pane = some rec.id

/-- The index entry of the pane names a running unit other than `id`. -/
def World.taken (w : World) (id pane : String) : Bool :=
  match w.resolvePaneId pane with
  | some other => other ≠ id ∧ (w.agents.get other).any (·.status.running)
  | none => false

/-- The program writes no record and no index entry, and what it returns meets `P`. -/
def Returns {α : Type} (A : Call → Choice → Prop) (p : HubM α) (P : α → Prop) : Prop :=
  ∀ w, Ends A p (fun r w' => Same w w' ∧ OnOk P r) w

section
variable {α β : Type} {A : Call → Choice → Prop} {Φ : Call → World → Prop} {w w' w'' : World}
variable {ctx : Ctx} {rec : AgentRecord} {id ref pane : String}

theorem Same.rfl : Same w w := ⟨Eq.refl _, Eq.refl _, Eq.refl _⟩

theorem Same.trans (h : Same w w') (h' : Same w' w'') : Same w w'' :=
  ⟨h'.agents.trans h.agents, h'.panes.trans h.panes, h'.mailboxes.trans h.mailboxes⟩

theorem Same.resolve (h : Same w w') : w'.resolvePaneId pane = w.resolvePaneId pane := by
  rw [World.resolvePaneId, World.paneText, h.panes]
  exact Eq.refl _

theorem Same.taken (h : Same w w') : w'.taken id pane = w.taken id pane := by
  unfold World.taken
  rw [h.resolve, h.agents]

theorem Same.leaves (h : Same w w') : w'.leaves rec pane = w.leaves rec pane := by
  unfold World.leaves World.paneText
  rw [h.panes]

theorem Same.selfId (h : Same w w') : w'.selfId ctx = w.selfId ctx := by
  unfold World.selfId
  cases ctx.env.currentPane with
  | some cur => exact h.resolve
  | none => rfl

theorem returns_ret {P : α → Prop} {a : α} (h : P a) : Returns A (pure a) P := fun _ => ⟨Same.rfl, h⟩

theorem returns_throw {P : α → Prop} {e : HubError} : Returns A (throw e) P := fun _ => ⟨Same.rfl, trivial⟩

theorem returns_perform {op : Call} {P : op.Res → Prop} (hop : op.writes = false)
    (h : ∀ c r w w', A op c → handle op c w = some (r, w') → P r) : Returns A (perform op) P := by
  refine fun w => ⟨trivial, fun c r w' hc hr => ⟨?_, h c r w w' hc hr⟩⟩
  obtain ⟨hagents, hpanes, hmail⟩ := handle_registry hop hr
  exact ⟨hagents, hpanes, hmail⟩

theorem returns_mono {P P' : α → Prop} {p : HubM α} (hp : Returns A p P) (h : ∀ a, P a → P' a) : Returns A p P' :=
  fun w => wp_mono (hp w) fun r w' hr => ⟨hr.1, by cases r with | ok a => exact h a hr.2 | error e => trivial⟩

theorem ends_returns {P : α → Prop} {p : HubM α} {f : α → HubM β} {Q : Except HubError β → World → Prop}
    (hp : Returns A p P) (hok : ∀ a w', Same w w' → P a → Ends A (f a) Q w')
    (herr : ∀ e w', Same w w' → Q (.error e) w') : Ends A (p >>= f) Q w := by
  refine ends_bind (hp w) (fun a w' h => hok a w' h.1 h.2) fun e w' h => herr e w' h.1

theorem ends_returned {p : HubM α} {g : α → β} {Q : World → Prop} (h : Ends A p (fun _ w' => Q w') w) :
    Ends A (do return g (← p)) (fun _ w' => Q w') w :=
  ends_bind h (fun _ _ hq => hq) fun _ _ hq => hq

theorem returns_bind {P : α → Prop} {R : β → Prop} {p : HubM α} {f : α → HubM β} (hp : Returns A p P)
    (hf : ∀ a, P a → Returns A (f a) R) : Returns A (p >>= f) R := by
  refine fun w => ends_returns hp (fun a w' hw' ha => ?_) fun e w' hw' => ⟨hw', trivial⟩
  exact wp_mono (hf a ha w') fun r w'' hr => ⟨hw'.trans hr.1, hr.2⟩

theorem ends_refuse {cond : Prop} [Decidable cond] {e : HubError} {f : Unit → HubM β}
    {Q : Except HubError β → World → Prop} (herr : cond → Q (.error e) w)
    (hok : ¬cond → wp handle A Φ (f ()) Q w) :
    wp handle A Φ (refuse cond e >>= f) Q w := by
  unfold refuse
  by_cases h : cond
  · rw [if_pos h]
    exact herr h
  · rw [if_neg h]
    exact hok h

theorem only_refuse {P : Call → Prop} {cond : Prop} [Decidable cond] {e : HubError} : (refuse cond e).Only P := by
  unfold refuse
  split <;> trivial

theorem returns_refuse {cond : Prop} [Decidable cond] {e : HubError} {P : Unit → Prop} (h : ¬cond → P ()) :
    Returns A (refuse cond e) P := by
  unfold refuse
  split
  · exact returns_throw
  · next hcond => exact returns_ret (h hcond)

/-! ## Programs that read -/

theorem given_eq_some {flag : Option String} {s : String} : given flag = some s ↔ flag = some s ∧ s ≠ "" := by
  simp [given, Option.filter_eq_some_iff]

theorem resolveAgent_answers (hΦ : ∀ op w, ¬op.hitsPane → Φ op w) (h : w.named ref = some rec) :
    Answers handle Φ (resolveAgent ref) w (.ok rec) := by
  unfold resolveAgent
  refine answers_call (hΦ _ _ not_false) (fun _ => rfl) ?_
  unfold World.named at h
  split at h
  · next heq =>
    cases h
    rw [heq]; exact answers_ret rec
  · next heq =>
    rw [heq]
    refine answers_call (hΦ _ _ not_false) (fun _ => rfl) ?_
    show Answers handle Φ (resolveAmong ref (Registry.list w.agents)) w (.ok rec)
    rw [Prog.value_eq_some.mp h]
    exact answers_ret rec

theorem only_resolveAmong {agents : List AgentRecord} : (resolveAmong ref agents).Only fun _ => False := by
  unfold resolveAmong pickLive
  refine Prog.Only.bind ?_ fun picked => ?_
  · split
    · trivial
    · split <;> trivial
  · cases picked with
    | some _ => trivial
    | none =>
      simp only
      split <;> trivial

theorem ends_named {f : AgentRecord → HubM β} {Q : Except HubError β → World → Prop}
    (hok : ∀ rec, w.named ref = some rec → Ends A (f rec) Q w) (herr : ∀ e, Q (.error e) w) :
    Ends A (resolveAgent ref >>= f) Q w := by
  unfold resolveAgent
  rw [bind_assoc]
  refine ⟨trivial, fun c r w' _ hr => ?_⟩
  cases hr
  cases hget : w.agents.get ref with
  | some rec => exact hok rec (by unfold World.named; rw [hget])
  | none =>
    refine ⟨trivial, fun c r w' _ hr => ?_⟩
    cases hr
    show Ends A (resolveAmong ref (Registry.list w.agents) >>= f) Q w
    cases hp : resolveAmong ref (Registry.list w.agents) with
    | ret rec => exact hok rec (by unfold World.named; rw [hget, hp]; rfl)
    | throw e => exact herr e
    | call op k =>
      have hnone : (resolveAmong ref (Registry.list w.agents)).Only fun _ => False := only_resolveAmong
      rw [hp] at hnone
      exact hnone.1.elim

theorem resolveSelfId_answers (hΦ : ∀ op w, ¬op.hitsPane → Φ op w) :
    Answers handle Φ (resolveSelfId ctx) w (.ok (w.selfId ctx)) := by
  unfold resolveSelfId World.selfId
  cases ctx.env.currentPane with
  | some cur => exact answers_call (hΦ _ _ not_false) (fun _ => rfl) (answers_ret _)
  | none => exact answers_ret _

/-! ## The pane of a unit -/

theorem runtimePane_spec (hΦ : ∀ w, Φ (.findPaneByAgentId rec.id) w) : wp handle A Φ (runtimePane rec) (fun r w' =>
    w' = w ∧ ∃ pane, r = .ok pane ∧ (∀ key, pane = some key → w.leaves rec key) ∧
      (∀ q, rec.pane = some q → pane = some q.id) ∧ (pane = none → ∀ key, w.paneText key ≠ some rec.id)) w := by
  unfold runtimePane World.leaves
  cases hp : rec.pane with
  | some q =>
    refine ⟨rfl, some q.id, rfl, fun key hkey => Option.some.inj hkey, fun q' hq => ?_, nofun⟩
    cases hq; rfl
  | none =>
    refine ⟨hΦ _, fun c r w' _ hr => ⟨findPane_reads hr, r, rfl, fun key hkey => ?_, nofun,
      fun hnone key hkey => ?_⟩⟩
    · subst hkey
      simp only [handle] at hr
      split at hr
      · split at hr
        · next hkey => cases hr; exact hkey
        · cases hr
      · split at hr <;> cases hr
    · subst hnone
      simp only [handle] at hr
      split at hr
      · split at hr <;> cases hr
      · split at hr
        · cases hr
        · next hno =>
          refine hno (List.any_eq_true.mpr ⟨key, AList.mem_keys.mp (AList.lookup_isSome.mp ?_), decide_eq_true hkey⟩)
          obtain ⟨text, htext, -⟩ := Option.map_eq_some_iff.mp hkey
          rw [htext]; rfl

theorem paneAdapter_spec (hΦ : ∀ op w, ¬op.hitsPane → Φ op w) : wp handle A Φ (paneAdapter rec) (fun r w' =>
    w' = w ∧ ∃ adapter, r = .ok adapter ∧ ∀ q, rec.pane = some q → adapter = some q.mux) w := by
  unfold paneAdapter
  cases hp : rec.pane with
  | some q =>
    refine ⟨rfl, some q.mux, rfl, fun q' hq => ?_⟩
    cases hq; rfl
  | none => exact ⟨hΦ _ _ not_false, fun c r w' _ hr => by cases hr; exact ⟨rfl, _, rfl, nofun⟩⟩

theorem listPanes_cases {mux : StorableMux} {c : Choice} {list : List LivePane}
    (h : handle (.listPanes mux) c w = some (list, w')) : w' = w ∧ (list = [] ∨ w.lists mux list = true) := by
  simp only [handle] at h
  split at h
  · next hlist => cases h; exact ⟨rfl, hlist⟩
  · cases h

/-- The pane's multiplexer can answer a pane list without it. -/
def World.mayMiss (w : World) (pane : Pane) : Prop :=
  ∃ list, list ≠ [] ∧ w.lists pane.mux list = true ∧ ∀ p ∈ list, p.id ≠ pane.id

theorem probeLiveness_spec (hΦ : ∀ op w, ¬op.hitsPane → Φ op w) : wp handle A Φ (probeLiveness rec) (fun r w' =>
    w' = w ∧ ∃ liveness, r = .ok liveness ∧
    (liveness ≠ .live → liveness ≠ .unknown → rec.kind.hasRuntime = true →
      rec.status.running = true → ∀ q, rec.pane = some q → w.mayMiss q)) w := by
  unfold probeLiveness
  split
  · next h => exact ⟨rfl, _, rfl, fun _ _ hruntime => absurd hruntime h⟩
  split
  · next h => exact ⟨rfl, _, rfl, fun _ _ _ hrunning => by rw [h] at hrunning; cases hrunning⟩
  split
  · next h => exact ⟨rfl, _, rfl, fun _ _ _ hrunning => by rw [h] at hrunning; cases hrunning⟩
  refine (wp_bind _ _).mpr (wp_mono (runtimePane_spec fun w => hΦ _ w not_false) ?_)
  rintro r w' ⟨rfl, pane, rfl, -, hrec, -⟩
  dsimp only
  cases hg : given pane with
  | none => exact ⟨rfl, _, rfl, fun _ h => absurd rfl h⟩
  | some key =>
    obtain ⟨rfl, -⟩ := given_eq_some.mp hg
    refine (wp_bind _ _).mpr (wp_mono (paneAdapter_spec hΦ) ?_)
    rintro r w'' ⟨rfl, adapter, rfl, hmux⟩
    cases adapter with
    | none => exact ⟨rfl, _, rfl, fun _ h => absurd rfl h⟩
    | some mux =>
      refine ⟨hΦ _ _ not_false, fun c list w1 _ hlist => ?_⟩
      obtain ⟨rfl, hlists⟩ := listPanes_cases hlist
      show wp handle _ _ (if _ then _ else _) _ _
      split
      · exact ⟨rfl, _, rfl, fun _ h => absurd rfl h⟩
      · next hne =>
        split
        · exact ⟨rfl, _, rfl, fun h => absurd rfl h⟩
        · next hany =>
          refine ⟨rfl, _, rfl, fun _ _ _ _ q hq => ⟨list, hne, ?_, fun p hp hid => hany ?_⟩⟩
          · cases hmux q hq
            exact hlists.resolve_left hne
          · cases hrec q hq
            exact List.any_eq_true.mpr ⟨p, hp, decide_eq_true hid⟩

/-- What `holderOf` does about the unit that a pane is indexed to. -/
def holderNamed (rec : AgentRecord) (holder : Option String) : HubM (Option AgentRecord) := do
  match given holder with
  | none => return none
  | some holderId =>
    if holderId = rec.id then return none
    else return (← Store.getAgent holderId).filter (·.status.running)

theorem holderOf_answers (hΦ : ∀ op w, ¬op.hitsPane → Φ op w) :
    ∃ holder, Answers handle Φ (holderOf rec pane) w (.ok holder) ∧ holder.isSome = w.taken rec.id pane := by
  unfold holderOf World.taken
  cases hres : w.resolvePaneId pane with
  | none => exact ⟨none, answers_call (hΦ _ _ not_false) (fun _ => by rw [handle, hres]) (answers_ret _), rfl⟩
  | some other =>
    have hcall : ∀ {holder : Option AgentRecord}, Answers handle Φ (holderNamed rec (some other)) w (.ok holder) →
        Answers handle Φ (holderOf rec pane) w (.ok holder) :=
      fun h => answers_call (hΦ _ _ not_false) (fun _ => by rw [handle, hres]) h
    by_cases hempty : other = ""
    · refine ⟨none, hcall (by rw [hempty]; exact answers_ret _), ?_⟩
      have hget : w.agents.get other = none := by
        refine Option.eq_none_iff_forall_ne_some.mpr fun rec hrec => ?_
        have hsafe := Filed.valid_of_get hrec
        rw [Filed.key_of_get hrec, hempty] at hsafe
        cases hsafe
      simp [hget]
    · have hg : given (some other) = some other := given_eq_some.mpr ⟨rfl, hempty⟩
      rw [holderNamed, hg] at hcall
      by_cases hself : other = rec.id
      · refine ⟨none, hcall ?_, by simp [hself]⟩
        show Answers handle Φ (if _ then _ else _) w _
        rw [if_pos hself]
        exact answers_ret _
      · refine ⟨(w.agents.get other).filter (·.status.running), hcall ?_, ?_⟩
        · show Answers handle Φ (if _ then _ else _) w _
          rw [if_neg hself]
          exact answers_call (hΦ _ _ not_false) (fun _ => rfl) (answers_ret _)
        · simp only [ne_eq, hself, not_false_eq_true, true_and]
          cases w.agents.get other with
          | none => rfl
          | some holder => cases h : holder.status.running <;> simp [h]

theorem alreadyBound_answers (hΦ : ∀ op w, ¬op.hitsPane → Φ op w) {cur : CurrentPane} :
    ∃ b, Answers handle Φ (alreadyBound rec cur) w (.ok b) ∧
      (b = true → ∃ q, rec.pane = some q ∧ q.id = cur.pane) := by
  unfold alreadyBound
  split
  · next h =>
    obtain ⟨q, hq, hbound⟩ := (Option.any_eq_true _ _).mp h
    exact ⟨_, answers_call (hΦ _ _ not_false) (fun _ => rfl) (answers_ret _),
      fun _ => ⟨q, hq, (of_decide_eq_true hbound).2⟩⟩
  · exact ⟨_, answers_ret _, nofun⟩

/-! ## Parts that touch no pane -/

theorem only_putAgent {P : Call → Prop} (h : P (.putAgent rec)) : (Store.putAgent rec).Only P := by
  unfold Store.putAgent
  split
  · exact only_perform h
  · trivial

/-- A call that writes no record and no index entry and closes no pane. -/
def Call.quiet (op : Call) : Prop := op.writes = false ∧ ¬op.hitsPane

theorem returns_quiet {p : HubM α} (h : p.Only Call.quiet) : Returns A p fun _ => True := by
  intro w
  refine wp_mono (wp_only (I := fun w' => Same w w') h ?_ (fun _ _ _ _ => trivial) Same.rfl) fun r w' hw' => ⟨hw', ?_⟩
  · intro op c w₁ r w₂ hop hw₁ hr
    obtain ⟨hagents, hpanes, hmail⟩ := handle_registry hop.1 hr
    exact hw₁.trans ⟨hagents, hpanes, hmail⟩
  · cases r <;> trivial

theorem quiet_perform {op : Call} (h : op.writes = false) (h' : ¬op.hitsPane) : (perform op).Only Call.quiet :=
  only_perform ⟨h, h'⟩

theorem quiet_of_reads (op : Call) (h : op.reads = true) : op.quiet := by
  cases op <;> first | exact ⟨rfl, not_false⟩ | cases h

theorem reads_perform {op : Call} (h : op.reads = true) : (perform op).Only (·.reads) := only_perform h

/-- The reads that take no worktree and give none back. -/
def Call.asks : Call → Bool
  | .acquireWorktree _ _ | .releaseWorktree _ _ => false
  | op => op.reads

theorem reads_of_asks (op : Call) (h : op.asks = true) : op.reads = true := by
  unfold Call.asks at h
  split at h
  · cases h
  · cases h
  · exact h

theorem asks_perform {op : Call} (h : op.asks = true) : (perform op).Only (·.asks) := only_perform h

theorem returns_reads {p : HubM α} (h : p.Only (·.reads)) : Returns A p fun _ => True :=
  returns_quiet (h.mono quiet_of_reads)

theorem returns_asks {p : HubM α} (h : p.Only (·.asks)) : Returns A p fun _ => True :=
  returns_reads (h.mono reads_of_asks)

theorem wp_reads {P : α → Prop} {p : HubM α} {f : α → HubM β} {Q : Except HubError β → World → Prop}
    (hp : p.Only (·.reads)) (hP : Returns A p P) (hΦ : ∀ op w, op.reads = true → Φ op w)
    (hok : ∀ a, P a → wp handle A Φ (f a) Q w) (herr : ∀ e, Q (.error e) w) : wp handle A Φ (p >>= f) Q w := by
  have hsame : wp handle A Φ p (fun _ w' => w' = w) w := by
    refine wp_only hp (fun op c w₁ r w₂ hop hw₁ hr => ?_) (fun op w' hop _ => hΦ op w' hop) rfl
    rw [handle_reads hop hr, hw₁]
  refine (wp_bind _ _).mpr (wp_mono (wp_weaken (wp_and hsame (hP w)) fun _ _ h => h.1) fun r w' hr => ?_)
  obtain ⟨rfl, -, hr⟩ := hr
  cases r with
  | ok a => exact hok a hr
  | error e => exact herr e

theorem quiet_openSession {mux : StorableMux} {cwd : String} {launch : LaunchLine} {place : Placement} :
    (openSession mux cwd launch place).Only Call.quiet := by
  refine (quiet_perform rfl (by exact not_false)).bind fun r => ?_
  cases r <;> trivial

theorem asks_selectSessionAdapter : selectSessionAdapter.Only (·.asks) := by
  refine (asks_perform rfl).bind fun mux => ?_
  cases mux <;> trivial

theorem quiet_openStopped {harness : String} {fresh : Bool} : (openStopped ctx rec harness fresh).Only Call.quiet := by
  have hopen : ∀ command resume, (openAgain ctx rec command resume).Only Call.quiet := by
    intro command resume
    refine ((asks_selectSessionAdapter.mono reads_of_asks).mono quiet_of_reads).bind fun mux => ?_
    refine Prog.Only.bind ?_ fun _ => quiet_openSession.bind fun _ => trivial
    split
    · exact quiet_perform rfl (by exact not_false)
    · trivial
  unfold openStopped
  refine Prog.Only.bind (Prog.Only.tryCatch (hopen _ _).map fun _ => trivial) fun r => ?_
  cases r <;> trivial

theorem reads_unitPrimaryRoot {present : Bool} : (unitPrimaryRoot rec present).Only (·.reads) := by
  unfold unitPrimaryRoot
  split
  · trivial
  · split
    · refine (reads_perform rfl).bind fun r => ?_
      cases r <;> trivial
    · trivial

theorem reads_isDirty {root : String} : (isDirty root).Only (·.reads) :=
  (reads_perform rfl).bind fun _ => Prog.only_ret _

theorem reads_assertCloses {input : DecommissionInput} {primaryRoot : Option String} {removes : Bool} :
    (assertCloses ctx input rec primaryRoot removes).Only (·.reads) := by
  unfold assertCloses
  refine only_refuse.bind fun _ => Prog.Only.bind ?_ fun _ => only_refuse
  split
  · exact reads_isDirty
  · trivial

theorem reads_pruneGone {present : Bool} {primaryRoot : Option String} :
    (pruneGone rec present primaryRoot).Only (·.reads) := by
  unfold pruneGone
  split
  · split
    · trivial
    · refine (reads_perform rfl).bind fun b => ?_
      cases b
      · trivial
      · exact (reads_perform rfl).bind fun _ => Prog.only_ret _
  · trivial

theorem reads_releaseLease : (releaseLease rec).Only (·.reads) := by
  unfold releaseLease
  split
  · split
    · refine (reads_perform rfl).bind fun b => ?_
      cases b <;> trivial
    · trivial
  · trivial

theorem quiet_removeWorktree {primaryRoot : Option String} {removes : Bool} :
    (removeWorktree rec primaryRoot removes).Only Call.quiet := by
  unfold removeWorktree
  split
  · refine (quiet_perform rfl (by exact not_false)).bind fun b => ?_
    cases b <;> trivial
  · trivial

end

/-! ## Which unit a runtime verb acts on -/

/-- A close refuses a service endpoint, and a worktree that is gone but was recorded as
the primary checkout. -/
def World.refusesClose (w : World) (ctx : Ctx) (rec : AgentRecord) : Bool :=
  rec.kind = .service ∨ rec.worktree.any fun worktree => worktree.root ∉ w.dirs ∧ isPrimary ctx rec worktree.primaryRoot

/-- The unit a runtime verb acts on. -/
def Command.target (c : Command) (w : World) : Option AgentRecord :=
  match c.verb with
  | .stop ref | .restart ref _ | .rebind ref => w.named ref
  | .close input => w.agents.get input.id
  | _ => none

/-- Some answers of the outside let the verb past its refusals, to the pane the record bears. -/
def GetsToPane (w : World) (c : Command) (rec : AgentRecord) : Prop :=
  match c.verb with
  | .stop _ => rec.kind.hasRuntime = true ∧ w.selfId c.ctx ≠ some rec.id ∧ rec.status ≠ .stopped
  | .restart _ _ => rec.kind.hasRuntime = true ∧ w.selfId c.ctx ≠ some rec.id ∧ rec.harness.getD "" ≠ "" ∧
      inLaunchMap (rec.harness.getD "") = true ∧ rec.cwd ∈ w.dirs ∧ rec.status ≠ .stopped
  | .rebind _ => rec.kind.hasRuntime = true ∧ ∃ cur q, storablePane c.ctx.env = some cur ∧
      w.taken rec.id cur.pane = false ∧ rec.pane = some q ∧ q.id ≠ cur.pane ∧
      (rec.status.running = true → w.mayMiss q)
  | .close _ => w.refusesClose c.ctx rec = false
  | _ => False

/-! ## What a verb writes -/

/-- The entry of one unit is written, one pane is unbound, and one is bound to the unit.
Only a unit whose record goes may lose its mailbox. -/
structure Wrote (w : World) (id : String) (rec : Option AgentRecord) (unbinds binds : Option String) (w' : World) :
    Prop where
  agents : ∀ x, w'.agents.get x = if x = id then rec else w.agents.get x
  panes : ∀ pane, w'.resolvePaneId pane =
    if binds.any (sanitizePane pane = sanitizePane ·) then some (jsTrim id)
    else if unbinds.any (sanitizePane pane = sanitizePane ·) then none
    else w.resolvePaneId pane
  mailboxes : ∀ x, x ≠ id ∨ rec.isSome = true → w'.mailboxes.lookup x = w.mailboxes.lookup x

section
variable {α β : Type} {A : Call → Choice → Prop} {w w' w'' : World}
variable {rec rec' : AgentRecord} {written : Option AgentRecord} {id pane : String} {unbinds binds : Option String}

theorem Same.wrote (h : Same w w') (h' : Wrote w' id written unbinds binds w'') :
    Wrote w id written unbinds binds w'' := by
  refine ⟨fun x => ?_, fun pane => ?_, fun x hx => ?_⟩
  · rw [h'.agents, h.agents]
  · rw [h'.panes, h.resolve]
  · rw [h'.mailboxes x hx, h.mailboxes]

theorem Wrote.same (h : Wrote w id written unbinds binds w') (h' : Same w' w'') :
    Wrote w id written unbinds binds w'' := by
  refine ⟨fun x => ?_, fun pane => ?_, fun x hx => ?_⟩
  · rw [h'.agents, h.agents]
  · rw [h'.resolve, h.panes]
  · rw [h'.mailboxes, h.mailboxes x hx]

theorem wrote_put (h : safeId rec.id) :
    Wrote w rec.id (some rec) none none { w with agents := w.agents.put rec h } :=
  ⟨fun _ => Filed.get_put w.agents rec h, fun _ => rfl, fun _ _ => rfl⟩

theorem wrote_erase : Wrote w id none none none { w with agents := w.agents.erase id } :=
  ⟨fun _ => Filed.get_erase, fun _ => rfl, fun _ _ => rfl⟩

theorem resolve_erase {key : String} :
    ({ w with panes := w.panes.erase (sanitizePane key) } : World).resolvePaneId pane =
      if sanitizePane pane = sanitizePane key then none else w.resolvePaneId pane := by
  show ((w.panes.erase (sanitizePane key)).lookup (sanitizePane pane)).map jsTrim = _
  rw [Table.lookup_erase_eq]
  split <;> rfl

theorem resolve_insert {key : String} :
    ({ w with panes := w.panes.insert (sanitizePane key) id } : World).resolvePaneId pane =
      if sanitizePane pane = sanitizePane key then some (jsTrim id) else w.resolvePaneId pane := by
  show ((w.panes.insert (sanitizePane key) id).lookup (sanitizePane pane)).map jsTrim = _
  rw [Table.lookup_insert_eq]
  split <;> rfl

theorem Wrote.unbind (h : Wrote w id written none none w') {key : String} :
    Wrote w id written (some key) none { w' with panes := w'.panes.erase (sanitizePane key) } := by
  refine ⟨h.agents, fun pane => ?_, h.mailboxes⟩
  rw [resolve_erase, h.panes]
  simp

theorem Wrote.bind (h : Wrote w id written unbinds none w') {key : String} :
    Wrote w id written unbinds (some key) { w' with panes := w'.panes.insert (sanitizePane key) id } := by
  refine ⟨h.agents, fun pane => ?_, h.mailboxes⟩
  rw [resolve_insert, h.panes]
  simp

theorem Wrote.then (h : Wrote w id (some rec) unbinds none w') {binds : Option String} {written' : Option AgentRecord}
    (h' : Wrote w' id written' none binds w'') : Wrote w id written' unbinds binds w'' := by
  refine ⟨fun x => ?_, fun pane => ?_, fun x hx => ?_⟩
  · rw [h'.agents, h.agents]
    split <;> rfl
  · rw [h'.panes, h.panes]
    simp
  · rw [h'.mailboxes x hx, h.mailboxes x (.inr rfl)]

theorem ends_putAgent {f : Unit → HubM β} {Q : Except HubError β → World → Prop}
    (hok : ∀ w', Wrote w rec.id (some rec) none none w' → Ends A (f ()) Q w') (herr : ∀ e, Q (.error e) w) :
    Ends A (Store.putAgent rec >>= f) Q w := by
  unfold Store.putAgent
  split
  · next hsafe =>
    refine ends_call fun c r w' _ hr => ?_
    simp only [handle, hsafe, dif_pos] at hr
    cases hr
    exact hok _ (wrote_put hsafe)
  · exact herr _

theorem putAgent_writes :
    Ends A (Store.putAgent rec) (fun _ w' => Same w w' ∨ Wrote w rec.id (some rec) none none w') w := by
  rw [← bind_pure (Store.putAgent rec)]
  exact ends_putAgent (fun w' h => .inr h) fun e => .inl Same.rfl

theorem ends_getAgent {f : Option AgentRecord → HubM β} {Q : Except HubError β → World → Prop}
    (h : Ends A (f (w.agents.get id)) Q w) : Ends A (Store.getAgent id >>= f) Q w :=
  ends_read (fun _ => rfl) h

theorem ends_bindPane {f : Unit → HubM β} {Q : Except HubError β → World → Prop}
    (hw : Wrote w id written unbinds none w')
    (hok : ∀ w'', Wrote w id written unbinds (some pane) w'' → Ends A (f ()) Q w'') :
    Ends A (perform (.putPaneIndex pane id) >>= f) Q w' := by
  refine ends_call fun c r w'' _ hr => ?_
  cases hr
  exact hok _ hw.bind

/-- The pane's index entry is removed, where there is a pane. -/
def Unindexes (A : Call → Choice → Prop) (old : Option String) : Prop :=
  ∀ key, old = some key → ∃ c, A (.removePaneIndex key) c

/-- `if (pane) store.removePaneIndex(pane)` -/
theorem ends_unbindPane {f : Unit → HubM β} {Q : Except HubError β → World → Prop} {old : Option String}
    (hw : Wrote w id written none none w')
    (hok : ∀ w'', Unindexes A old → Wrote w id written old none w'' → Ends A (f ()) Q w'') :
    Ends A (match old with | some pane => perform (.removePaneIndex pane) >>= f | none => f ()) Q w' := by
  cases old with
  | none => exact hok w' nofun hw
  | some pane =>
    refine ends_call fun c r w'' hA hr => ?_
    cases hr
    refine hok _ (fun key hkey => ?_) hw.unbind
    cases hkey
    exact ⟨c, hA⟩

theorem ends_nowIso {f : Int → HubM β} {Q : Except HubError β → World → Prop} (hok : ∀ t, Ends A (f t) Q w)
    (herr : ∀ e, Q (.error e) w) : Ends A (nowIso >>= f) Q w := by
  unfold nowIso
  rw [bind_assoc]
  refine ends_call fun c r w' _ hr => ?_
  cases hr
  unfold iso
  split
  · exact hok c.ms
  · exact herr _

end

/-! ## Stop, restart, rebind and close -/

def AgentRecord.halted (rec : AgentRecord) : AgentRecord := { rec with status := .stopped, pane := none }

def AgentRecord.bound (rec : AgentRecord) (pane : Pane) (lastSeen : Int) : AgentRecord :=
  { rec with status := .active, pane := some pane, lastSeen }

def opens : Call → Choice → Option String
  | .openSession _ _ _ _, c | .createInWorkspace _ _, c => c.text
  | _, _ => none

/-- A backend may answer the pane for a new session. -/
def Opens (A : Call → Choice → Prop) (pane : String) : Prop := ∃ op c, A op c ∧ opens op c = some pane

/-- The verbs that bind a pane to a unit that is stored. -/
def Command.binds (c : Command) : Bool :=
  match c.verb with
  | .restart _ _ | .rebind _ => true
  | _ => false

/-- What a runtime verb writes for the unit it acts on, and the pane it binds. -/
inductive RuntimeWrite (A : Call → Choice → Prop) (w : World) (c : Command) (rec : AgentRecord) :
    Option AgentRecord → Option String → Prop
  | halts (hruntime : rec.kind.hasRuntime = true) : RuntimeWrite A w c rec (some rec.halted) none
  | opens {pane : Pane} {t : Int} (hruntime : rec.kind.hasRuntime = true) (hverb : c.binds = true)
      (h : Opens A pane.id) : RuntimeWrite A w c rec (some (rec.bound pane t)) (some pane.id)
  | binds {cur : CurrentPane} {t : Int} (hruntime : rec.kind.hasRuntime = true) (hverb : c.binds = true)
      (hcur : storablePane c.ctx.env = some cur)
      (hfree : w.taken rec.id cur.pane = false) :
      RuntimeWrite A w c rec (some (rec.bound { mux := cur.mux, id := cur.pane } t)) (some cur.pane)
  | reaps {input : DecommissionInput} (hverb : c.verb = .close input) (hkind : rec.kind ≠ .service) :
      RuntimeWrite A w c rec none none

/-- The pane the verb unbinds is one the unit leaves, and its index entry is removed. -/
def Unbinds (A : Call → Choice → Prop) (w : World) (rec : AgentRecord) (old : Option String) : Prop :=
  (∀ key, old = some key → key ≠ "" ∧ w.leaves rec key) ∧ Unindexes A old

/-- A runtime verb writes nothing, or the entry of its unit and of the panes it unbinds and binds. -/
def RuntimeWrites (A : Call → Choice → Prop) (w : World) (c : Command) (w' : World) : Prop :=
  Same w w' ∨ ∃ rec written old binds, c.target w = some rec ∧ Unbinds A w rec old ∧
    RuntimeWrite A w c rec written binds ∧ Wrote w rec.id written old binds w'

section
variable {A : Call → Choice → Prop} {w w' : World} {ctx : Ctx} {c : Command}
variable {rec : AgentRecord} {ref pane : String} {old : Option String}

theorem target_stored (h : c.target w = some rec) : w.agents.get rec.id = some rec := by
  unfold Command.target at h
  split at h
  · exact named_mem h
  · exact named_mem h
  · exact named_mem h
  · rw [Filed.key_of_get h]; exact h
  · cases h

theorem markStopped_writes : Ends A (markStopped rec old) (fun r w' =>
    (Same w w' ∧ ∃ e, r = .error e) ∨
      r = .ok rec.halted ∧ Unindexes A old ∧ Wrote w rec.id (some rec.halted) old none w') w := by
  unfold markStopped
  refine ends_putAgent (fun w' hw' => ?_) fun e => .inl ⟨Same.rfl, e, rfl⟩
  refine ends_unbindPane hw' fun w'' hold hw'' => ?_
  exact .inr ⟨rfl, hold, hw''⟩

/-- How stopping the runtime ends: refused with nothing written, or with the record
stopped and the pane it leaves unbound. -/
def Halts (A : Call → Choice → Prop) (w : World) (rec : AgentRecord) (r : Except HubError Stopped)
    (w' : World) : Prop :=
  (Same w w' ∧ ∃ e, r = .error e) ∨ ∃ res old, r = .ok res ∧ res.agent = rec.halted ∧ Unbinds A w rec old ∧
    Wrote w rec.id (some rec.halted) old none w'

theorem stopRuntime_writes : Ends A (stopRuntime rec) (Halts A w rec) w := by
  have hmark : ∀ {w'} {old : Option String}, Same w w' → (∀ key, old = some key → key ≠ "" ∧ w.leaves rec key) →
      ∀ verified, Ends A (do return { agent := ← markStopped rec old, pane := old, verified } : HubM Stopped)
        (Halts A w rec) w' := by
    intro w' old hw' hold verified
    refine ends_bind markStopped_writes (fun agent w'' h => ?_) fun e w'' h => ?_
    · rcases h with ⟨-, _, h⟩ | ⟨h, hunindexes, hwrote⟩
      · cases h
      · cases h
        exact .inr ⟨_, old, rfl, rfl, ⟨hold, hunindexes⟩, hw'.wrote hwrote⟩
    · rcases h with ⟨hsame, -⟩ | ⟨h, -⟩
      · exact .inl ⟨hw'.trans hsame, e, rfl⟩
      · cases h
  unfold stopRuntime
  refine (wp_bind _ _).mpr (wp_mono (runtimePane_spec fun _ => trivial) ?_)
  rintro r w' ⟨rfl, pane, rfl, hleaves, -⟩
  dsimp only
  cases hg : given pane with
  | none => exact hmark Same.rfl (fun _ h => by cases h) _
  | some key =>
    obtain ⟨rfl, hne⟩ := given_eq_some.mp hg
    have hold : ∀ key', some key = some key' → key' ≠ "" ∧ w'.leaves rec key' := by
      intro key' h
      cases h
      exact ⟨hne, hleaves key rfl⟩
    refine (wp_bind _ _).mpr (wp_mono (paneAdapter_spec fun _ _ _ => trivial) ?_)
    rintro r w'' ⟨rfl, adapter, rfl, -⟩
    cases adapter with
    | none => exact hmark Same.rfl hold _
    | some mux =>
      refine ends_returns (returns_perform (P := fun _ => True) rfl fun _ _ _ _ _ _ => trivial) (fun _ w₁ h₁ _ => ?_)
        fun e w₁ h₁ => .inl ⟨h₁, e, rfl⟩
      refine ends_returns (returns_perform (P := fun _ => True) rfl fun _ _ _ _ _ _ => trivial) (fun _ w₂ h₂ _ => ?_)
        fun e w₂ h₂ => .inl ⟨h₁.trans h₂, e, rfl⟩
      exact ends_refuse (fun _ => .inl ⟨h₁.trans h₂, _, rfl⟩) fun _ => hmark (h₁.trans h₂) hold _

theorem stop_writes (hc : c.verb = .stop ref) : Ends A (stopUnit c.ctx ref) (fun _ w' => RuntimeWrites A w c w') w := by
  unfold stopUnit assertHasRuntime assertNotSelf
  refine ends_named (fun rec hn => ?_) fun e => .inl Same.rfl
  refine ends_refuse (fun _ => .inl Same.rfl) fun hruntime => ?_
  rw [bind_assoc]
  refine (resolveSelfId_answers fun _ _ _ => trivial).bind_of (ends_refuse (fun _ => .inl Same.rfl) fun _ => ?_)
  split
  · exact .inl Same.rfl
  · refine ends_bind stopRuntime_writes (fun res w' h => ?_) fun e w' h => ?_
    · rcases h with ⟨-, _, h⟩ | ⟨_, old, h, -, hold, hwrote⟩
      · cases h
      · cases h
        refine .inr ⟨rec, _, old, none, ?_, hold, .halts (not_not.mp hruntime), hwrote⟩
        simp only [Command.target, hc]
        exact hn
    · rcases h with ⟨hsame, -⟩ | ⟨_, _, h, -⟩
      · exact .inl hsame
      · cases h

theorem openSession_opens {mux : StorableMux} {cwd : String} {launch : LaunchLine} {place : Placement} :
    Returns A (openSession mux cwd launch place) (Opens A) := by
  refine returns_bind (P := fun r => ∀ pane, r = some pane → Opens A pane) (returns_perform rfl ?_) fun r hr => ?_
  · intro c r w w' hc h pane hpane
    subst hpane
    simp only [handle] at h
    split at h
    · cases h
    · next htext =>
      split at h
      · cases h
      · cases h; exact ⟨_, c, hc, htext⟩
  · cases r with
    | some pane => exact returns_ret (hr pane rfl)
    | none => exact returns_throw

theorem returns_caught {α : Type} {P : α → Prop} {p : HubM α} (hp : Returns A p P) :
    Returns A (tryCatch (Except.ok <$> p) (fun e => pure (.error e)) : HubM (Except HubError α))
      (fun r => ∀ a, r = .ok a → P a) := by
  intro w
  refine (wp_tryCatch _ _).mpr ?_
  rw [← bind_pure_comp]
  refine (wp_bind _ _).mpr (wp_mono (hp w) fun r w' hr => ?_)
  cases r with
  | ok a => exact ⟨hr.1, fun b hb => by cases hb; exact hr.2⟩
  | error e => exact ⟨hr.1, fun b hb => by cases hb⟩

theorem openStopped_opens {harness : String} {fresh : Bool} :
    Returns A (openStopped ctx rec harness fresh) (fun opened => Opens A opened.2.1) := by
  have hopen : ∀ command resume, Returns A (openAgain ctx rec command resume) fun opened => Opens A opened.2 := by
    intro command resume
    refine returns_bind (returns_asks asks_selectSessionAdapter)
      fun mux _ => returns_bind (P := fun _ => True) ?_ fun _ _ =>
      returns_bind openSession_opens fun pane hpane => returns_ret hpane
    split
    · exact returns_perform rfl fun _ _ _ _ _ _ => trivial
    · exact returns_ret trivial
  unfold openStopped
  refine returns_bind (returns_caught (hopen _ _)) fun r hr => ?_
  cases r with
  | ok opened => exact returns_ret (hr opened rfl)
  | error e => exact returns_throw

theorem startStopped_writes {previous : Option String} {fresh : Bool} :
    Ends A (startStopped ctx rec previous fresh) (fun _ w' => Same w w' ∨ ∃ pane t, Opens A pane.id ∧
      Wrote w rec.id (some (rec.bound pane t)) none (some pane.id) w') w := by
  unfold startStopped
  refine ends_returns openStopped_opens (fun opened w₁ h₁ hopened => ?_) fun e w₁ h₁ => .inl h₁
  refine ends_nowIso (fun t => ?_) fun e => .inl h₁
  refine ends_putAgent (fun w₂ h₂ => ?_) fun e => .inl h₁
  refine ends_bindPane h₂ fun w₃ h₃ => ?_
  exact .inr ⟨_, t, hopened, h₁.wrote h₃⟩

theorem restart_writes {fresh : Bool} (hc : c.verb = .restart ref fresh) :
    Ends A (restartUnit c.ctx ref fresh) (fun _ w' => RuntimeWrites A w c w') w := by
  unfold restartUnit assertRestarts assertHasRuntime assertNotSelf
  refine ends_named (fun rec hn => ?_) fun e => .inl Same.rfl
  simp only [bind_assoc]
  refine ends_refuse (fun _ => .inl Same.rfl) fun hruntime => ?_
  refine (resolveSelfId_answers fun _ _ _ => trivial).bind_of (ends_refuse (fun _ => .inl Same.rfl) fun _ => ?_)
  refine ends_refuse (fun _ => .inl Same.rfl) fun _ => ends_read (fun _ => rfl) ?_
  refine ends_refuse (fun _ => .inl Same.rfl) fun _ => ?_
  have ht : c.target w = some rec := by
    simp only [Command.target, hc]; exact hn
  have hstart : ∀ {w' stopped previous old}, stopped.id = rec.id →
      (∀ pane t, stopped.bound pane t = rec.bound pane t) →
      Unbinds A w rec old →
      (∀ {written binds w''}, Wrote w' rec.id written none binds w'' → Wrote w rec.id written old binds w'') →
      (∀ w'', Same w' w'' → RuntimeWrites A w c w'') →
      Ends A (startStopped c.ctx stopped previous fresh) (fun _ w' => RuntimeWrites A w c w') w' := by
    intro w' stopped previous old hid hbound hold hthen hsame
    refine wp_mono startStopped_writes fun r w'' h => ?_
    rcases h with h | ⟨pane, t, hopens, hwrote⟩
    · exact hsame w'' h
    · rw [hid, hbound] at hwrote
      exact .inr ⟨rec, _, old, _, ht, hold,
        .opens (not_not.mp hruntime) (by rw [Command.binds, hc]) hopens, hthen hwrote⟩
  unfold stopFirst
  split
  · exact hstart rfl (fun _ _ => rfl) (show Unbinds A w rec none from ⟨nofun, nofun⟩) id fun w'' h => .inl h
  · rw [bind_assoc]
    refine ends_bind stopRuntime_writes (fun res w' h => ?_) fun e w' h => ?_
    · rcases h with ⟨-, _, h⟩ | ⟨_, old, h, hagent, hold, hwrote⟩
      · cases h
      · cases h
        refine hstart (by rw [hagent]; rfl) (fun _ _ => by rw [hagent]; rfl) hold hwrote.then fun w'' h => ?_
        exact .inr ⟨rec, _, old, none, ht, hold, .halts (not_not.mp hruntime), hwrote.same h⟩
    · rcases h with ⟨hsame, -⟩ | ⟨_, _, h, -⟩
      · exact .inl hsame
      · cases h

theorem bindPane_writes {cur : CurrentPane} : Ends A (bindPane rec cur old) (fun _ w' => Same w w' ∨ ∃ t,
    Unindexes A old ∧ Wrote w rec.id (some (rec.bound { mux := cur.mux, id := cur.pane } t)) old
      (some cur.pane) w') w := by
  unfold bindPane
  refine ends_nowIso (fun t => ?_) fun e => .inl Same.rfl
  refine ends_putAgent (fun w₁ h₁ => ?_) fun e => .inl Same.rfl
  refine ends_unbindPane h₁ fun w₂ hold h₂ => ends_bindPane h₂ fun w₃ h₃ => ?_
  exact .inr ⟨t, hold, h₃⟩

/-- A rebind gets to its writes only past the holder of the pane. -/
theorem rebindTo_writes {cur : CurrentPane} :
    Ends A (rebindTo rec cur old) (fun _ w' => Same w w' ∨ ∃ t, w.taken rec.id cur.pane = false ∧ Unindexes A old ∧
      Wrote w rec.id (some (rec.bound { mux := cur.mux, id := cur.pane } t)) old (some cur.pane) w') w := by
  have hquiet : ∀ (op : Call) (w : World), ¬op.hitsPane → (fun (_ : Call) (_ : World) => True) op w :=
    fun _ _ _ => trivial
  obtain ⟨b, hbound, -⟩ := alreadyBound_answers (w := w) hquiet
  unfold rebindTo
  refine hbound.bind_of ?_
  cases b with
  | true => exact .inl Same.rfl
  | false =>
    obtain ⟨holder, hholder, htaken⟩ := holderOf_answers (w := w) hquiet
    unfold assertUnheld
    rw [bind_assoc]
    refine hholder.bind_of ?_
    cases holder with
    | some holder => exact .inl Same.rfl
    | none =>
      unfold assertNotRunning
      show Ends A ((probeLiveness rec >>= _) >>= _) _ w
      rw [bind_assoc]
      refine (wp_bind _ _).mpr (wp_mono (probeLiveness_spec hquiet) ?_)
      rintro r w' ⟨rfl, liveness, rfl, -⟩
      refine ends_refuse (fun _ => .inl Same.rfl) fun _ => ?_
      exact wp_mono bindPane_writes fun r w'' h => h.imp_right fun ⟨t, hold, hwrote⟩ => ⟨t, htaken.symm, hold, hwrote⟩

theorem rebind_writes (hc : c.verb = .rebind ref) :
    Ends A (rebindUnit c.ctx ref) (fun _ w' => RuntimeWrites A w c w') w := by
  unfold rebindUnit assertHasRuntime
  refine ends_named (fun rec hn => ?_) fun e => .inl Same.rfl
  refine ends_refuse (fun _ => .inl Same.rfl) fun hruntime => ?_
  cases hcur : storablePane c.ctx.env with
  | none => exact .inl Same.rfl
  | some cur =>
    refine (wp_bind _ _).mpr (wp_mono (runtimePane_spec fun _ => trivial) ?_)
    rintro r w' ⟨rfl, pane, rfl, hleaves, -⟩
    refine wp_mono rebindTo_writes fun r w'' h => ?_
    rcases h with h | ⟨t, hfree, hold, hwrote⟩
    · exact .inl h
    · refine .inr ⟨rec, _, _, _, ?_, ⟨fun key hkey => ?_, hold⟩,
        .binds (not_not.mp hruntime) (by rw [Command.binds, hc]) hcur hfree,
        hwrote⟩
      · simp only [Command.target, hc]; exact hn
      · obtain ⟨hgiven, -⟩ := Option.filter_eq_some_iff.mp hkey
        obtain ⟨rfl, hempty⟩ := given_eq_some.mp hgiven
        exact ⟨hempty, hleaves key rfl⟩

theorem reap_writes {id : String} :
    Ends A (reap id old) (fun _ w' => Unindexes A old ∧ Wrote w id none old none w') w := by
  unfold reap
  refine ends_call fun c r w₁ _ hr => ?_
  cases hr
  refine ends_unbindPane wrote_erase fun w₂ hold h₂ => ends_call fun c r w₃ _ hr => ?_
  cases hr
  refine wp_perform.mpr ⟨trivial, fun c r w₄ _ hr => ?_⟩
  cases hr
  refine ⟨hold, h₂.agents, h₂.panes, fun x hx => ?_⟩
  rw [AList.lookup_erase_ne (hx.resolve_right Bool.false_ne_true)]
  exact h₂.mailboxes x hx

theorem returns_teardownPane : Returns A (teardownPane old) fun _ => True := by
  unfold teardownPane
  split
  · refine returns_bind (P := fun _ => True) (returns_perform rfl fun _ _ _ _ _ _ => trivial) fun mux _ => ?_
    cases mux.storable with
    | some mux => exact returns_perform rfl fun _ _ _ _ _ _ => trivial
    | none => exact returns_ret trivial
  · exact returns_ret trivial

theorem existsRoot_answers {Φ : Call → World → Prop} (hΦ : ∀ op w, op.reads = true → Φ op w) :
    Answers handle Φ (existsRoot rec) w
      (.ok ((rec.worktree.map fun worktree => decide (worktree.root ∈ w.dirs)).getD false)) := by
  unfold existsRoot
  cases rec.worktree with
  | none => exact answers_ret _
  | some worktree => exact answers_call (hΦ _ _ rfl) (fun _ => rfl) (answers_ret _)

/-- The primary checkout of a unit is the one git answers for its worktree, or the recorded
one where the worktree is gone. -/
def AnsweredRoot (A : Call → Choice → Prop) (rec : AgentRecord) (present : Bool) (primaryRoot : Option String) : Prop :=
  (present = false → primaryRoot = rec.worktree.bind (·.primaryRoot)) ∧
    (present = true → ∀ worktree, rec.worktree = some worktree →
      ∃ c, A (.primaryRoot (some worktree.root)) c ∧ c.text = primaryRoot ∧ primaryRoot.isSome = true)

theorem unitPrimaryRoot_answers {present : Bool} :
    Returns A (unitPrimaryRoot rec present) (AnsweredRoot A rec present) := by
  unfold unitPrimaryRoot
  cases hwt : rec.worktree with
  | none => exact returns_ret ⟨fun _ => by rw [hwt]; rfl, fun _ _ h => by rw [hwt] at h; cases h⟩
  | some worktree =>
    cases present with
    | false => exact returns_ret ⟨fun _ => by rw [hwt]; rfl, fun h => by cases h⟩
    | true =>
      refine returns_bind (P := fun root => ∃ c, A (.primaryRoot (some worktree.root)) c ∧ c.text = root)
        (returns_perform rfl fun c r w w' hc h => by cases h; exact ⟨c, hc, rfl⟩) fun root hroot => ?_
      cases root with
      | none => exact returns_throw
      | some root =>
        obtain ⟨c, hc, htext⟩ := hroot
        refine returns_ret ⟨fun h => (by cases h), fun _ worktree' h => ?_⟩
        cases hwt.symm.trans h
        exact ⟨c, hc, htext, rfl⟩

def statusCall (worktreeRoot : String) : Call :=
  .exec "git" ["-C", worktreeRoot, "status", "--porcelain", "--untracked-files=all"]

/-- The git status that `isDirty` takes for a clean worktree. -/
def Undirty (status : Option String) : Prop :=
  ∀ listing, given status = some listing →
    ∀ line ∈ listing.splitOn "\n", line = "" ∨ line = "?? " ++ WORKTREE_MARKER

theorem isDirty_answers {root : String} : Returns A (isDirty root) fun dirty =>
    dirty = false → ∃ c, A (statusCall root) c ∧ Undirty c.text := by
  unfold isDirty
  refine returns_bind (P := fun status => ∃ c, A (statusCall root) c ∧ c.text = status)
    (returns_perform rfl fun c r w w' hc h => by cases h; exact ⟨c, hc, rfl⟩) fun status hstatus =>
      returns_ret fun hclean => ?_
  obtain ⟨c, hc, rfl⟩ := hstatus
  refine ⟨c, hc, fun listing hlisting line hline => by_contra fun hne => ?_⟩
  rw [hlisting, Option.any_some, List.any_eq_false] at hclean
  exact hclean line hline (decide_eq_true (not_or.mp hne))

theorem assertCloses_passes {input : DecommissionInput} {primaryRoot : Option String} {removes : Bool} :
    Returns A (assertCloses ctx input rec primaryRoot removes) fun _ => isPrimary ctx rec primaryRoot = false ∧
      (removes = true → input.force = false →
        ∃ c, A (statusCall ((rec.worktree.map (·.root)).getD "")) c ∧ Undirty c.text) := by
  unfold assertCloses
  refine returns_bind (P := fun _ => isPrimary ctx rec primaryRoot = false)
    (returns_refuse fun h => Bool.eq_false_iff.mpr h) fun _ hprimary => ?_
  refine returns_bind (P := fun dirty => dirty = false → removes = true → input.force = false →
    ∃ c, A (statusCall ((rec.worktree.map (·.root)).getD "")) c ∧ Undirty c.text) ?_ fun dirty hdirty =>
      returns_refuse fun hpass => ⟨hprimary, hdirty (Bool.eq_false_iff.mpr hpass)⟩
  split
  · exact returns_mono isDirty_answers fun dirty h hclean _ _ => h hclean
  · next hskip =>
      exact returns_ret fun _ hremoves hforce =>
        absurd ⟨hremoves, by rw [hforce]; exact Bool.false_ne_true⟩ hskip

theorem close_writes {input : DecommissionInput} (hc : c.verb = .close input) :
    Ends A (decommission c.ctx input) (fun _ w' => RuntimeWrites A w c w') w := by
  unfold decommission
  refine ends_getAgent ?_
  cases hget : w.agents.get input.id with
  | none => exact .inl Same.rfl
  | some rec =>
    refine ends_refuse (fun _ => .inl Same.rfl) fun hkind => ?_
    refine (existsRoot_answers fun _ _ _ => trivial).bind_of ?_
    refine ends_returns unitPrimaryRoot_answers (fun primaryRoot w₁ h₁ _ => ?_) fun e w' h => .inl h
    refine ends_returns assertCloses_passes (fun _ w₂ h₂ _ => ?_) fun e w' h => .inl (h₁.trans h)
    refine (wp_bind _ _).mpr (wp_mono (runtimePane_spec fun _ => trivial) ?_)
    rintro r w' ⟨rfl, pane, rfl, hleaves, -⟩
    have h₁₂ := h₁.trans h₂
    refine ends_returns (returns_reads reads_pruneGone) (fun _ w₃ h₃ _ => ?_) fun e w' h => .inl (h₁₂.trans h)
    have h₁₃ := h₁₂.trans h₃
    refine ends_returns (returns_reads reads_releaseLease) (fun _ w₄ h₄ _ => ?_) fun e w' h => .inl (h₁₃.trans h)
    have h₁₄ := h₁₃.trans h₄
    refine ends_returns (returns_quiet quiet_removeWorktree) (fun _ w₅ h₅ _ => ?_) fun e w' h => .inl (h₁₄.trans h)
    have h₁₅ := h₁₄.trans h₅
    refine ends_returns returns_teardownPane (fun _ w₆ h₆ _ => ?_) fun e w' h => .inl (h₁₅.trans h)
    have hend : ∀ w', Unindexes A (given pane) ∧ Wrote w₆ input.id none (given pane) none w' →
        RuntimeWrites A w c w' := by
      intro w₇ ⟨hold, h₇⟩
      refine .inr ⟨rec, none, given pane, none, ?_, ⟨fun key hkey => ?_, hold⟩, .reaps hc hkind, ?_⟩
      · simp only [Command.target, hc]
        exact hget
      · obtain ⟨rfl, hne⟩ := given_eq_some.mp hkey
        have hkey := hleaves key rfl
        rw [h₁₂.leaves] at hkey
        exact ⟨hne, hkey⟩
      · rw [Filed.key_of_get hget]
        exact (h₁₅.trans h₆).wrote h₇
    refine ends_bind (R := fun _ w' => Unindexes A (given pane) ∧
      Wrote w₆ input.id none (given pane) none w') reap_writes ?_ ?_
    · exact fun _ w' h => hend w' h
    · exact fun e w' h => hend w' h

end

end Cyberlegion
