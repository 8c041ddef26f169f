import Cyberlegion.Restart
import Cyberlegion.RuntimeFrame

/-!
# What a restart leaves

A restart that finds no backend to open a session in has already stopped the unit.
-/

namespace Cyberlegion

open Effects

/-- The restart is refused for something it could know before the teardown. -/
def Refused (w : World) (ctx : Ctx) (ref : String) (m : Calls) : Prop :=
  (∀ rec, w.named ref = some rec → ¬Restarts w ctx rec) ∨ NoBackend m

/-- Everything but the status, the pane and the last-seen time. -/
def AgentRecord.sameUnit (rec rec' : AgentRecord) : Prop :=
  rec' = { rec with status := rec'.status, pane := rec'.pane, lastSeen := rec'.lastSeen }

/-- The backend that answers these calls opens sessions, and the clock is right. -/
def Working (m : Calls) : Prop :=
  (∀ c, (.probeMultiplexer, c) ∈ m → c.mux.storable.isSome) ∧ none ∉ (seen m).opened ∧
  ∀ ms ∈ (seen m).clocks, validTime ms

/-- A restart of the unit from any session but its own succeeds where the backend works. -/
def Restartable (w : World) (rec : AgentRecord) : Prop :=
  ∀ ctx ref fresh cs r w', w.named ref = some rec → w.selfId ctx ≠ some rec.id →
    run handle (restartUnit ctx ref fresh) cs w = some (r, w') →
    Working (trace handle (restartUnit ctx ref fresh) cs w) → ∃ res, r = .ok res

/-- All of the restart happens, or what is left of it can be restarted. -/
structure Recovers (w : World) (ctx : Ctx) (ref : String) (r : Except HubError RestartResult) (w' : World) (m : Calls) :
    Prop where
  keeps : ∀ rec, w.named ref = some rec →
    (∃ rec', w'.agents.get rec.id = some rec' ∧ rec.sameUnit rec') ∧
    w'.briefs.lookup rec.id = w.briefs.lookup rec.id ∧
      w'.mailboxes.lookup rec.id = w.mailboxes.lookup rec.id
  refuses : Refused w ctx ref m → (∃ e, r = .error e) ∧ (seen m).torn = [] ∧
    (∀ id, w'.agents.get id = w.agents.get id) ∧
    ∀ pane, w'.resolvePaneId pane = w.resolvePaneId pane
  listed : ∀ mux pane list, (mux, pane) ∈ (seen m).torn → (mux, list) ∈ (seen m).listed →
    list.any (·.id = pane) = true →
    (seen m).opened = [] ∧ ∀ id, w'.agents.get id = w.agents.get id
  unopened : none ∈ (seen m).opened → ∀ rec, w.named ref = some rec → ∃ rec', w'.named rec.id = some rec' ∧
    rec'.status = .stopped ∧ rec'.pane = none ∧ w'.selfId ctx ≠ some rec.id ∧ Restartable w' rec'
  returns : ∀ res, r = .ok res → ∀ rec, w.named ref = some rec →
    (∃ rec' pane, w'.agents.get rec.id = some rec' ∧ rec'.status = .active ∧ rec'.pane = some pane ∧
      pane.id = res.pane) ∧
      w'.resolvePaneId res.pane = some rec.id ∧
      ∀ prev, res.previousPane = some prev → prev ≠ res.pane → w'.resolvePaneId prev ≠ some rec.id

/-- When it does: a backend is there before the unit is stopped, the unit is no stopped one
that still bears a pane, and the index tells the panes and the unit's id apart. -/
structure Prepared (w : World) (ctx : Ctx) (ref : String) (m : Calls) : Prop where
  backend : ∀ rec, w.named ref = some rec → NoBackend m → rec.status = .stopped
  paneless : ∀ rec, w.named ref = some rec → none ∈ (seen m).opened → rec.status = .stopped → rec.pane = none
  told : ∀ rec, w.named ref = some rec → ∀ pane ms, some pane ∈ (seen m).opened → ms ∈ (seen m).clocks →
    validTime ms →
    jsTrim rec.id = rec.id ∧ (rec.status ≠ .stopped → ∀ prev, leaving rec m = some prev → prev ≠ pane →
      sanitizePane prev ≠ sanitizePane pane)

/-! ## How a restart goes -/

inductive Course (w : World) (ctx : Ctx) (ref : String) : Except HubError RestartResult → World → Calls → Prop
  | refused {e : HubError} {m : Calls} (h : ∀ rec, w.named ref = some rec → ¬Restarts w ctx rec) (hm : seen m = .none)
      (hlast : ¬NoBackend m) : Course w ctx ref (.error e) w m
  | still {rec : AgentRecord} {e : HubError} {w' : World} {m : Calls} (hn : w.named ref = some rec)
      (hr : Restarts w ctx rec) (h : rec.status ≠ .stopped) (hw : Same w w') (hm : (seen m).opened = [])
      (hlast : ¬NoBackend m) : Course w ctx ref (.error e) w' m
  | starts {rec : AgentRecord} {stopped : AgentRecord} {prev : Option String} {r : Except HubError RestartResult}
      {w₁ w' : World} {m₀ m₁ m₂ : Calls} (hn : w.named ref = some rec) (hr : Restarts w ctx rec)
      (hm₀ : seen m₀ = .none)
      (hstops : StopsFirst w rec (.ok (stopped, prev)) w₁ m₁) (hstarts : StartsAgain w₁ stopped prev r w' m₂) :
      Course w ctx ref r w' (m₀ ++ (m₁ ++ m₂))

section
variable {w : World} {ctx : Ctx} {ref : String} {fresh : Bool}

theorem traces_restart : Traces handle (restartUnit ctx ref fresh) w (Course w ctx ref) := by
  rw [restartUnit_eq]
  refine traces_admitted.seq (fun rec w₁ m h => ?_) fun e w₁ m h => ?_
  · obtain ⟨⟨rfl, hn, hr⟩, hm⟩ := h
    have hsafe := w₁.agents.valid_of_get (named_mem hn)
    refine (traces_stopFirst hsafe).seq (fun p w₂ m₁ h => ?_) fun e w₂ m₁ h => ?_
    · obtain ⟨stopped, prev⟩ := p
      have hstopped : safeId stopped.id := by cases h <;> exact hsafe
      exact (traces_startStopped hstopped).mono fun r w' m₂ hstarts => .starts hn hr (seen_asking hm) h hstarts
    · cases h with
      | still mux hstatus hw hm₁ hlist hlast hne =>
        refine .still hn hr hstatus hw ?_ ?_
        · rw [seen_append, seen_asking hm, hm₁]; rfl
        · rw [noBackend_append hne]
          exact hlast
  · obtain ⟨⟨rfl, h⟩, hm⟩ := h
    exact .refused h (seen_asking hm) (asking_hasBackend hm)

/-! ## The directories and the briefs -/

/-- The calls that make or remove a directory or a brief. -/
def Call.furnishes : Call → Bool
  | .createInWorkspace _ _ | .createWorktree _ | .removeWorktree _ _ | .writeBrief _ _ | .removeAgentData _ => true
  | _ => false

theorem handle_furnished {op : Call} {c : Choice} {w w' : World} {a : op.Res} (hop : op.furnishes = false)
    (h : handle op c w = some (a, w')) : w'.dirs = w.dirs ∧ w'.briefs = w.briefs := by
  cases op with
  | createInWorkspace | createWorktree | removeWorktree | writeBrief | removeAgentData => cases hop
  | _ =>
    simp only [handle, World.opened] at h
    repeat' split at h
    all_goals cases h
    all_goals exact ⟨rfl, rfl⟩

theorem furnishes_markStopped {rec : AgentRecord} {old : Option String} :
    (markStopped rec old).Only (·.furnishes = false) := by
  refine (only_putAgent (P := (·.furnishes = false)) rfl).bind fun _ => ?_
  cases old with
  | none => trivial
  | some pane => exact ⟨rfl, fun _ => trivial⟩

theorem furnishes_stopFirst {rec : AgentRecord} : (stopFirst rec).Only (·.furnishes = false) := by
  have hrest : ∀ (res : Stopped),
      (pure (res.agent, res.pane) : HubM (AgentRecord × Option String)).Only (·.furnishes = false) :=
    fun _ => trivial
  have hend : ∀ pane adapter, (endPane rec pane adapter).Only (·.furnishes = false) := by
    intro pane adapter
    cases adapter with
    | none => exact furnishes_markStopped.bind fun _ => trivial
    | some mux =>
      exact ⟨rfl, fun _ => ⟨rfl, fun _ => only_refuse.bind fun _ => furnishes_markStopped.bind fun _ => trivial⟩⟩
  unfold stopFirst
  by_cases hstatus : rec.status = .stopped
  · rw [if_pos hstatus]
    trivial
  rw [if_neg hstatus]
  refine Prog.Only.bind (Prog.Only.bind ?_ fun pane => ?_) hrest
  · unfold runtimePane
    cases rec.pane with
    | none => exact ⟨rfl, fun _ => trivial⟩
    | some pane => trivial
  · cases given pane with
    | none => exact furnishes_markStopped.bind fun _ => trivial
    | some key =>
      refine Prog.Only.bind ?_ fun adapter => hend key adapter
      unfold paneAdapter
      cases rec.pane with
      | none => exact ⟨rfl, fun _ => trivial⟩
      | some pane => trivial

theorem furnishes_startStopped {rec : AgentRecord} {prev : Option String} :
    (startStopped ctx rec prev fresh).Only (·.furnishes = false) := by
  have hopen : ∀ command resume, (openAgain ctx rec command resume).Only (·.furnishes = false) := by
    intro command resume
    refine Prog.Only.bind ⟨rfl, fun mux => ?_⟩ fun mux => Prog.Only.bind ?_
      fun _ => Prog.Only.bind ⟨rfl, fun pane => ?_⟩ fun _ => trivial
    · cases mux <;> trivial
    · split
      · exact ⟨rfl, fun _ => trivial⟩
      · trivial
    · cases pane <;> trivial
  unfold startStopped openStopped
  refine Prog.Only.bind (Prog.Only.bind (Prog.Only.tryCatch (hopen _ _).map fun _ => trivial) fun r => ?_)
    fun opened => ?_
  · cases r <;> trivial
  · refine (only_nowIso (P := (·.furnishes = false)) rfl).bind fun _ => ?_
    exact (only_putAgent (P := (·.furnishes = false)) rfl).bind fun _ => ⟨rfl, fun _ => trivial⟩

theorem restart_furnished : wp handle (fun _ _ => True) (fun _ _ => True) (restartUnit ctx ref fresh)
    (fun _ w' => w'.dirs = w.dirs ∧ w'.briefs = w.briefs) w := by
  have honly : (restartUnit ctx ref fresh).Only (·.furnishes = false) := by
    rw [restartUnit_eq]
    refine Prog.Only.bind (refuses_admitted.mono ?_) fun rec => furnishes_stopFirst.bind fun p => furnishes_startStopped
    intro op hop
    cases op <;> first | rfl | cases hop
  refine wp_only honly (fun op c w₁ a w₂ hop hw₁ h => ?_) (fun _ _ _ _ => trivial) ⟨rfl, rfl⟩
  obtain ⟨hdirs, hbriefs⟩ := handle_furnished hop h
  exact ⟨hdirs.trans hw₁.1, hbriefs.trans hw₁.2⟩

end

/-! ## What is left -/

section
variable {w w' w₁ : World} {ctx : Ctx} {ref : String} {rec stopped : AgentRecord} {prev : Option String}
  {r : Except HubError RestartResult} {m m₁ m₂ : Calls}

/-- What the stop step leaves of the unit. -/
structure Halt (w : World) (rec stopped : AgentRecord) (prev : Option String) (w₁ : World) (m₁ : Calls) : Prop where
  id : stopped.id = rec.id
  same : rec.sameUnit stopped
  status : stopped.status = .stopped
  get : w₁.agents.get rec.id = some stopped
  mailboxes : ∀ x, w₁.mailboxes.lookup x = w.mailboxes.lookup x
  panes : ∀ pane, w₁.resolvePaneId pane =
    if prev.any (sanitizePane pane = sanitizePane ·) then none else w.resolvePaneId pane
  opened : (seen m₁).opened = []
  clocks : (seen m₁).clocks = []
  gone : ∀ mux pane list, (mux, pane) ∈ (seen m₁).torn → (mux, list) ∈ (seen m₁).listed →
    list.any (·.id = pane) = false
  already : rec.status = .stopped → stopped = rec ∧ w₁ = w ∧ m₁ = [] ∧ prev = none
  halted : rec.status ≠ .stopped → stopped = rec.halted ∧ prev = leaving rec m₁

theorem halt_of_stops (hget : w.agents.get rec.id = some rec) (h : StopsFirst w rec (.ok (stopped, prev)) w₁ m₁) :
    Halt w rec stopped prev w₁ m₁ := by
  cases h with
  | already hstatus =>
    refine ⟨rfl, rfl, hstatus, hget, fun _ => rfl, fun _ => rfl, rfl, rfl, fun _ _ _ htorn => ?_,
      fun _ => ⟨rfl, rfl, rfl, rfl⟩, fun hne => absurd hstatus hne⟩
    cases htorn
  | stopped hstatus hleaves hwrote hopened hclocks hgone =>
    refine ⟨rfl, rfl, rfl, ?_, fun x => hwrote.mailboxes x (.inr rfl), fun pane => ?_, hopened, hclocks, hgone,
      fun heq => absurd heq hstatus, fun _ => ⟨rfl, hleaves.symm⟩⟩
    · rw [hwrote.agents, if_pos rfl]
    · rw [hwrote.panes]
      rfl

theorem Halt.selfId (h : Halt w rec stopped prev w₁ m₁) (hself : w.selfId ctx ≠ some rec.id) :
    w₁.selfId ctx ≠ some rec.id := by
  unfold World.selfId at hself ⊢
  cases hcur : ctx.env.currentPane with
  | none =>
    rw [hcur] at hself
    exact hself
  | some cur =>
    rw [hcur] at hself
    simp only at hself ⊢
    rw [h.panes]
    split
    · nofun
    · exact hself

theorem starts_seen (h : StartsAgain w₁ stopped prev r w' m₂) :
    m₂ ≠ [] ∧ (seen m₂).torn = [] ∧ (seen m₂).listed = [] ∧ (seen m₂).found = [] := by
  cases h with
  | unselected hc => exact ⟨List.cons_ne_nil _ _, rfl, rfl, rfl⟩
  | unopened hm hlast | unclocked pane hw hm hms hlast | bound hpane hprev hwrote hm hms hlast =>
    refine ⟨?_, congrArg Seen.torn hm, congrArg Seen.listed hm, congrArg Seen.found hm⟩
    rintro rfl
    cases congrArg Seen.opened hm

theorem seen_starts {m₀ : Calls} (hm₀ : seen m₀ = .none) :
    seen (m₀ ++ (m₁ ++ m₂)) = (seen m₁).append (seen m₂) := by
  rw [seen_append, seen_append, hm₀, Seen.none_append]

theorem restartable_of_stopped (hruntime : rec.kind.hasRuntime = true)
    (hharness : rec.harness.getD "" ≠ "" ∧ inLaunchMap (rec.harness.getD "") = true) (hcwd : rec.cwd ∈ w.dirs)
    (hstatus : rec.status = .stopped) : Restartable w rec := by
  intro ctx ref fresh cs r w' hn hself hr hworking
  have hcourse := traces_restart cs r w' hr
  generalize trace handle (restartUnit ctx ref fresh) cs w = m at hcourse hworking
  cases hcourse with
  | refused h => exact absurd ⟨hruntime, hself, hharness, hcwd⟩ (h rec hn)
  | still hn' _ hne =>
    rw [hn] at hn'
    cases hn'
    exact absurd hstatus hne
  | starts hn' _ hm₀ hstops hstarts =>
    obtain ⟨hprobes, hopened, hclocks⟩ := hworking
    rw [seen_starts hm₀] at hopened hclocks
    cases hstarts with
    | unselected hc =>
      have hsome := hprobes _ (List.mem_append_right _ (List.mem_append_right _ (List.mem_singleton_self _)))
      rw [hc] at hsome
      cases hsome
    | unopened hm =>
      refine absurd (List.mem_append_right _ ?_) hopened
      rw [hm]
      exact List.mem_singleton_self _
    | unclocked pane hw hm hms =>
      refine absurd (hclocks _ (List.mem_append_right _ ?_)) hms
      rw [hm]
      exact List.mem_singleton_self _
    | bound => exact ⟨_, rfl⟩

theorem sameUnit_self (rec : AgentRecord) : rec.sameUnit rec := rfl

theorem sameUnit_bound {pane : Pane} {t : Int} (h : rec.sameUnit stopped) : rec.sameUnit (stopped.bound pane t) := by
  unfold AgentRecord.sameUnit at h ⊢
  rw [h]
  rfl

theorem starts_error {e : HubError} (h : StartsAgain w₁ stopped prev (.error e) w' m₂) : Same w₁ w' := by
  cases h with
  | unselected | unopened => exact ⟨rfl, rfl, rfl⟩
  | unclocked pane hw => exact hw

section
variable (hhalt : Halt w rec stopped prev w₁ m₁)
include hhalt

theorem starts_keeps (h : StartsAgain w₁ stopped prev r w' m₂) :
    (∃ rec', w'.agents.get rec.id = some rec' ∧ rec.sameUnit rec') ∧
    w'.mailboxes.lookup rec.id = w.mailboxes.lookup rec.id := by
  cases r with
  | error e =>
    have hsame := starts_error h
    exact ⟨⟨stopped, by rw [hsame.agents]; exact hhalt.get, hhalt.same⟩, by rw [hsame.mailboxes, hhalt.mailboxes]⟩
  | ok res =>
    cases h with
    | @bound _ _ _ pane ms _ _ hwrote =>
      refine ⟨⟨stopped.bound pane ms, ?_, sameUnit_bound hhalt.same⟩, ?_⟩
      · rw [hwrote.agents, if_pos hhalt.id.symm]
      · rw [hwrote.mailboxes _ (.inr rfl), hhalt.mailboxes]

theorem Halt.restartable (hr : Restarts w ctx rec) (hdirs : w₁.dirs = w.dirs) : Restartable w₁ stopped := by
  have hsame : stopped = { rec with status := stopped.status, pane := stopped.pane, lastSeen := stopped.lastSeen } :=
    hhalt.same
  refine restartable_of_stopped ?_ ?_ ?_ hhalt.status
  · rw [hsame]
    exact hr.runtime
  · rw [hsame]
    exact hr.harness
  · rw [hsame, hdirs]
    exact hr.cwd

theorem Halt.bound_panes {pane : Pane} {written : Option AgentRecord}
    (hwrote : Wrote w₁ stopped.id written none (some pane.id) w')
    (q : String) : w'.resolvePaneId q =
      if sanitizePane q = sanitizePane pane.id then some (jsTrim rec.id)
      else if prev.any (sanitizePane q = sanitizePane ·) then none else w.resolvePaneId q := by
  rw [hwrote.panes, hhalt.panes, hhalt.id]
  simp

end

theorem recovers_of_prepared (h : Course w ctx ref r w' m) (hdirs : w'.dirs = w.dirs) (hbriefs : w'.briefs = w.briefs)
    (hp : Prepared w ctx ref m) : Recovers w ctx ref r w' m := by
  cases h with
  | refused hrefused hm hlast =>
    refine ⟨fun rec hn => ⟨⟨rec, named_mem hn, sameUnit_self rec⟩, by rw [hbriefs], rfl⟩,
      fun _ => ⟨⟨_, rfl⟩, ?_, fun _ => rfl, fun _ => rfl⟩,
      fun mux pane list htorn => ?_, fun hopened => ?_, fun res hres => ?_⟩
    · exact congrArg Seen.torn hm
    · rw [hm] at htorn
      cases htorn
    · rw [hm] at hopened
      cases hopened
    · cases hres
  | still hn hr hne hw hm hlast =>
    refine ⟨fun rec' hn' => ?_, fun hrefused => ?_, fun mux pane list _ _ _ => ⟨hm, fun id => by rw [hw.agents]⟩,
      fun hopened => ?_, fun res hres => ?_⟩
    · rw [hn] at hn'
      cases hn'
      exact ⟨⟨_, by rw [hw.agents]; exact named_mem hn, sameUnit_self _⟩, by rw [hbriefs], by rw [hw.mailboxes]⟩
    · rcases hrefused with hrefused | hno
      · exact absurd hr (hrefused _ hn)
      · exact absurd hno hlast
    · rw [hm] at hopened
      cases hopened
    · cases hres
  | @starts rec stopped prev _ w₁ _ m₀ m₁ m₂ hn hr hm₀ hstops hstarts =>
    have hhalt := halt_of_stops (named_mem hn) hstops
    have hseen : seen (m₀ ++ (m₁ ++ m₂)) = (seen m₁).append (seen m₂) := seen_starts hm₀
    obtain ⟨hne, htorn₂, hlisted₂, hfound₂⟩ := starts_seen hstarts
    have hnamed : ∀ rec', w.named ref = some rec' → rec' = rec := fun rec' hn' => Option.some.inj (hn'.symm.trans hn)
    have hlast : NoBackend (m₀ ++ (m₁ ++ m₂)) ↔ NoBackend m₂ := by
      rw [← List.append_assoc, noBackend_append hne]
    refine ⟨?_, ?_, ?_, ?_, ?_⟩
    · intro rec' hn'
      obtain rfl := hnamed rec' hn'
      obtain ⟨hkept, hmailbox⟩ := starts_keeps hhalt hstarts
      exact ⟨hkept, by rw [hbriefs], hmailbox⟩
    · rintro (hrefused | hno)
      · exact absurd hr (hrefused rec hn)
      · obtain ⟨rfl, rfl, rfl, rfl⟩ := hhalt.already (hp.backend rec hn hno)
        rw [hlast] at hno
        cases hstarts with
        | unselected hc => exact ⟨⟨_, rfl⟩, congrArg Seen.torn hseen, fun _ => rfl, fun _ => rfl⟩
        | unopened hm hlast | unclocked pane hw hm hms hlast | bound hpane hprev hwrote hm hms hlast =>
          exact absurd hno hlast
    · intro mux pane list htorn hlisted hany
      rw [hseen, Seen.append, htorn₂, List.append_nil] at htorn
      rw [hseen, Seen.append, hlisted₂, List.append_nil] at hlisted
      rw [hhalt.gone mux pane list htorn hlisted] at hany
      cases hany
    · intro hopened rec' hn'
      obtain rfl := hnamed rec' hn'
      have hpane := hp.paneless rec' hn hopened
      rw [hseen, Seen.append, hhalt.opened, List.nil_append] at hopened
      cases hstarts with
      | unselected hc => cases hopened
      | unopened hm hlast =>
        refine ⟨stopped, ?_, hhalt.status, ?_, hhalt.selfId hr.notSelf, hhalt.restartable hr hdirs⟩
        · rw [World.named, hhalt.get]
        · by_cases hstatus : rec'.status = .stopped
          · rw [(hhalt.already hstatus).1]
            exact hpane hstatus
          · rw [(hhalt.halted hstatus).1]
            rfl
      | unclocked pane hw hm =>
        rw [hm] at hopened
        cases List.mem_singleton.mp hopened
      | bound hpane hprev hwrote hm =>
        rw [hm] at hopened
        cases List.mem_singleton.mp hopened
    · intro res hres rec' hn'
      obtain rfl := hnamed rec' hn'
      subst hres
      cases hstarts with
      | @bound _ _ _ pane ms hpane hprev hwrote hm hms =>
        have hopened : some pane.id ∈ (seen (m₀ ++ (m₁ ++ m₂))).opened := by
          rw [hseen, Seen.append, hm]
          exact List.mem_append_right _ (List.mem_singleton_self _)
        have hclock : ms ∈ (seen (m₀ ++ (m₁ ++ m₂))).clocks := by
          rw [hseen, Seen.append, hm]
          exact List.mem_append_right _ (List.mem_singleton_self _)
        obtain ⟨htrim, happart⟩ := hp.told rec' hn pane.id ms hopened hclock hms
        refine ⟨⟨_, pane, by rw [hwrote.agents, if_pos hhalt.id.symm], rfl, rfl, hpane.symm⟩, ?_, fun q hq hne' => ?_⟩
        · rw [hhalt.bound_panes hwrote, hpane, if_pos rfl, htrim]
        · have hstatus : rec'.status ≠ .stopped := by
            intro hstatus
            rw [hprev, (hhalt.already hstatus).2.2.2] at hq
            cases hq
          have hleaving : leaving rec' (m₀ ++ (m₁ ++ m₂)) = some q := by
            have hfound : (seen m₂).found = [] := hfound₂
            rw [leaving_prepend hm₀, leaving_append hfound, ← (hhalt.halted hstatus).2, ← hprev]
            exact hq
          have hsan := happart hstatus q hleaving (fun heq => hne' (heq.trans hpane.symm))
          rw [hprev] at hq
          rw [hhalt.bound_panes hwrote, if_neg hsan, hq]
          simp

theorem prepared_of_recovers (h : Course w ctx ref r w' m) (hp : Recovers w ctx ref r w' m) : Prepared w ctx ref m := by
  cases h with
  | refused _ hm hlast =>
    refine ⟨fun rec hn hno => absurd hno hlast, fun rec hn hopened => ?_, fun rec hn pane ms hopened => ?_⟩
    · rw [hm] at hopened
      cases hopened
    · rw [hm] at hopened
      cases hopened
  | still hn hr hne hw hm hlast =>
    refine ⟨fun rec hn hno => absurd hno hlast, fun rec hn hopened => ?_, fun rec hn pane ms hopened => ?_⟩
    · rw [hm] at hopened
      cases hopened
    · rw [hm] at hopened
      cases hopened
  | @starts rec stopped prev _ w₁ _ m₀ m₁ m₂ hn hr hm₀ hstops hstarts =>
    have hget := named_mem hn
    have hhalt := halt_of_stops hget hstops
    have hseen : seen (m₀ ++ (m₁ ++ m₂)) = (seen m₁).append (seen m₂) := seen_starts hm₀
    obtain ⟨hne, -, -, hfound₂⟩ := starts_seen hstarts
    have hnamed : ∀ rec', w.named ref = some rec' → rec' = rec := fun rec' hn' => Option.some.inj (hn'.symm.trans hn)
    refine ⟨?_, ?_, ?_⟩
    · intro rec' hn' hno
      obtain rfl := hnamed rec' hn'
      by_contra hstatus
      obtain ⟨-, -, hagents, -⟩ := hp.refuses (.inr hno)
      rw [← List.append_assoc, noBackend_append hne] at hno
      cases hstarts with
      | unselected hc =>
        have hboth := hagents rec'.id
        rw [hhalt.get, hget, Option.some.injEq] at hboth
        exact hstatus (hboth ▸ hhalt.status)
      | unopened hm hlast | unclocked pane hw hm hms hlast | bound hpane hprev hwrote hm hms hlast =>
        exact absurd hno hlast
    · intro rec' hn' hopened hstatus
      obtain rfl := hnamed rec' hn'
      obtain ⟨left, hleft, -, hpane, -⟩ := hp.unopened hopened rec' hn
      obtain ⟨rfl, rfl, rfl, rfl⟩ := hhalt.already hstatus
      have hsame : w'.agents = w₁.agents := by
        rw [hseen, Seen.append, hhalt.opened, List.nil_append] at hopened
        cases hstarts with
        | unselected hc => cases hopened
        | unopened => rfl
        | unclocked pane hw hm =>
          rw [hm] at hopened
          cases List.mem_singleton.mp hopened
        | bound hpane hprev hwrote hm =>
          rw [hm] at hopened
          cases List.mem_singleton.mp hopened
      rw [World.named, hsame, hget] at hleft
      cases hleft
      exact hpane
    · intro rec' hn' key ms hopened hclock hms
      obtain rfl := hnamed rec' hn'
      rw [hseen, Seen.append, hhalt.opened, List.nil_append] at hopened
      rw [hseen, Seen.append, hhalt.clocks, List.nil_append] at hclock
      cases hstarts with
      | unselected hc => cases hopened
      | unopened hm =>
        rw [hm] at hopened
        cases List.mem_singleton.mp hopened
      | unclocked pane hw hm hms' =>
        rw [hm] at hclock
        cases List.mem_singleton.mp hclock
        exact absurd hms hms'
      | @bound _ _ res pane ms hpane hprev hwrote hm =>
        rw [hm] at hopened
        cases List.mem_singleton.mp hopened
        obtain ⟨-, hresolves, hleft⟩ := hp.returns res rfl rec' hn
        rw [hhalt.bound_panes hwrote, hpane, if_pos rfl, Option.some.injEq] at hresolves
        refine ⟨hresolves, fun hstatus q hq hne' hsan => ?_⟩
        rw [leaving_prepend hm₀, leaving_append hfound₂, ← (hhalt.halted hstatus).2] at hq
        refine hleft q (hprev.trans hq) (fun heq => hne' (heq.trans hpane)) ?_
        rw [hhalt.bound_panes hwrote, if_pos hsan, hresolves]

end

section
variable (w w' : World) (ctx : Ctx) (ref : String) (fresh : Bool) (cs : List Choice) (r : Except HubError RestartResult)

theorem restart_recovers_iff (hrun : run handle (restartUnit ctx ref fresh) cs w = some (r, w')) :
    Recovers w ctx ref r w' (trace handle (restartUnit ctx ref fresh) cs w) ↔
      Prepared w ctx ref (trace handle (restartUnit ctx ref fresh) cs w) := by
  obtain ⟨hcourse, hdirs, hbriefs⟩ := (traces_restart.and (traces_wp restart_furnished)) cs r w' hrun
  exact ⟨prepared_of_recovers hcourse, recovers_of_prepared hcourse hdirs hbriefs⟩

end

def webUnit : AgentRecord :=
  { id := "a1", handle := "web", harness := some "claude", cwd := "/w",
    pane := some { mux := .tmux, id := "%1" }, status := .active
    createdAt := 0, lastSeen := 0 }

def webHub : World :=
  { agents := Filed.put .empty webUnit (by decide), panes := (∅ : Table String String).insert "_1" "a1"
    live := [(.tmux, "%1")], dirs := ["/w"] }

def webEnds : List Choice := [{}, {}, {}, {}, {}, {}, {}]

def webOpens : List Choice := [{ mux := .tmux }, { text := some "%2" }, {}, {}, {}]

theorem restart_webHub : ∃ res w', run handle (restartUnit shell "a1" false)
    (webEnds ++ webOpens) webHub = some (.ok res, w') ∧
    Recovers webHub shell "a1" (.ok res) w'
    (trace handle (restartUnit shell "a1" false) (webEnds ++ webOpens) webHub) := by
  have hends : ((run handle (restartUnit shell "a1" false) (webEnds ++ webOpens) webHub).any
      fun p => p.1.toBool) = true := by
    decide +kernel
  obtain ⟨⟨r, w'⟩, hrun, hok⟩ := (Option.any_eq_true _ _).mp hends
  have hrecovers := (restart_recovers_iff webHub w' shell "a1" false _ r hrun).mpr
  have hseen : seen (trace handle (restartUnit shell "a1" false) (webEnds ++ webOpens) webHub) =
      { Seen.none with torn := [(.tmux, "%1")], listed := [(.tmux, [])], opened := [some "%2"], clocks := [0] } := rfl
  have hnamed : ∀ rec, webHub.named "a1" = some rec → rec = webUnit := by
    intro rec hn
    have hget : webHub.agents.get "a1" = some webUnit := Filed.get_put_self .empty webUnit (by decide)
    rw [World.named, hget] at hn
    cases hn
    rfl
  cases r with
  | error e => cases hok
  | ok res =>
    refine ⟨res, w', hrun,
      hrecovers ⟨fun rec hn hno => ?_, fun rec hn hopened => ?_, fun rec hn pane ms hopened _ _ => ?_⟩⟩
    · obtain ⟨c, hlast, -⟩ := hno
      cases hlast
    · rw [hseen] at hopened
      cases List.mem_singleton.mp hopened
    · obtain rfl := hnamed rec hn
      rw [hseen] at hopened
      cases List.mem_singleton.mp hopened
      refine ⟨by decide +kernel, fun _ prev hprev _ => ?_⟩
      rw [leaving] at hprev
      cases hprev
      decide

/-- No multiplexer opens sessions here, and the session of the unit has ended when the restart refuses. -/
theorem restart_tears_down : ∃ e w',
    run handle (restartUnit shell "a1" false) (webEnds ++ [{ mux := .none }]) webHub = some (.error e, w') ∧
      ¬Recovers webHub shell "a1" (.error e) w'
        (trace handle (restartUnit shell "a1" false) (webEnds ++ [{ mux := .none }]) webHub) := by
  have hends : ((run handle (restartUnit shell "a1" false) (webEnds ++ [{ mux := .none }]) webHub).any
      fun p => !p.1.toBool) = true := by
    decide +kernel
  obtain ⟨⟨r, w'⟩, hrun, herror⟩ := (Option.any_eq_true _ _).mp hends
  cases r with
  | ok res => cases herror
  | error e =>
    refine ⟨e, w', hrun, fun hrecovers => ?_⟩
    have hno : NoBackend (trace handle (restartUnit shell "a1" false) (webEnds ++ [{ mux := .none }]) webHub) :=
      ⟨{}, rfl, rfl⟩
    have htorn : (seen (trace handle (restartUnit shell "a1" false) (webEnds ++ [{ mux := .none }]) webHub)).torn =
        [(.tmux, "%1")] := rfl
    rw [(hrecovers.refuses (.inr hno)).2.1] at htorn
    cases htorn

end Cyberlegion
