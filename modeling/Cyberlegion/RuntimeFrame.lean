import Cyberlegion.VerbSpec

/-!
# Whose pane a runtime verb hits

Stop, restart, rebind and close act on the pane a unit's record bears, and never ask
the index whose it is by now. For each of them: the calls it makes spare the panes
of other running units exactly when the recorded pane is not one of them, or the
verb refuses first.
-/

namespace Cyberlegion

open Effects Runs

/-! ## Reading the hub -/

/-- The pane a record bears is by now another running unit's. -/
def World.strays (w : World) (rec : AgentRecord) : Bool :=
  rec.pane.any fun pane => pane.id ≠ "" ∧ w.taken rec.id pane.id

/-- The call tears down and unbinds no pane that is another running unit's. -/
def Spares (id : String) (op : Call) (w : World) : Prop :=
  match op with
  | .teardown _ pane | .removePaneIndex pane => w.taken id pane = false
  | _ => True

instance (id : String) (op : Call) (w : World) : Decidable (Spares id op w) := by
  unfold Spares
  split <;> infer_instance

theorem spares_of_not_hitsPane {id : String} (op : Call) (w : World) (h : ¬op.hitsPane) : Spares id op w := by
  cases op with
  | teardown _ _ | removePaneIndex _ => exact absurd trivial h
  | _ => trivial

/-- The program spares the panes of the running units other than `id`. -/
abbrev SparesOthers {α : Type} (id : String) (p : HubM α) (w : World) : Prop :=
  wp handle (fun _ _ => True) (Spares id) p (fun _ _ => True) w

section
variable {ctx : Ctx} {w w' : World} {rec : AgentRecord} {id ref pane : String}

theorem taken_congr (hpanes : w'.panes = w.panes) (hagents : ∀ x, x ≠ id → w'.agents.get x = w.agents.get x) :
    w'.taken id pane = w.taken id pane := by
  have hres : w'.resolvePaneId pane = w.resolvePaneId pane := by
    rw [World.resolvePaneId, World.paneText, hpanes]; rfl
  unfold World.taken
  rw [hres]
  cases w.resolvePaneId pane with
  | none => rfl
  | some other =>
    by_cases ho : other = id
    · simp [ho]
    · simp only [hagents other ho]

theorem taken_put {h : safeId rec.id} (hrec : rec.id = id) :
    ({ w with agents := w.agents.put rec h } : World).taken id pane = w.taken id pane :=
  taken_congr rfl fun _ hx => Filed.get_put_ne w.agents rec h (by rw [hrec]; exact hx)

theorem taken_erase : ({ w with agents := w.agents.erase id } : World).taken id pane = w.taken id pane :=
  taken_congr rfl fun _ hx => Filed.get_erase_ne hx

/-- A pane found in the index under a unit's id is nobody else's. -/
theorem taken_of_found (hw : Tidy w) {key : String} (h : w.paneText key = some id) : w.taken id key = false := by
  have hkey : sanitizePane key = key := by
    refine hw key fun hnone => ?_
    rw [World.paneText, hnone] at h
    cases h
  have hres : w.resolvePaneId key = some id := by rw [World.resolvePaneId, hkey, h]
  simp only [World.taken, hres, ne_eq, not_true_eq_false, false_and, decide_false]

theorem spares_named {α : Type} {f : AgentRecord → HubM α} (h : w.named ref = some rec) :
    SparesOthers id (resolveAgent ref >>= f) w ↔ SparesOthers id (f rec) w :=
  (resolveAgent_answers spares_of_not_hitsPane h).bind

theorem spares_refuse {α : Type} {cond : Prop} [Decidable cond] {e : HubError} {f : Unit → HubM α} :
    SparesOthers id (refuse cond e >>= f) w ↔ (¬cond → SparesOthers id (f ()) w) := by
  unfold refuse
  by_cases h : cond
  · rw [if_pos h]
    exact ⟨fun _ hn => absurd h hn, fun _ => trivial⟩
  · rw [if_neg h]
    exact ⟨fun hp _ => hp, fun hp => hp h⟩

theorem spares_notSelf {α : Type} {verb : String} {f : Unit → HubM α} :
    SparesOthers id (assertNotSelf ctx rec verb >>= f) w ↔ (w.selfId ctx ≠ some rec.id → SparesOthers id (f ()) w) := by
  unfold assertNotSelf
  rw [bind_assoc]
  exact (resolveSelfId_answers spares_of_not_hitsPane).bind.trans spares_refuse

/-! ## Programs that hit no pane -/

theorem spares_then {α β : Type} {p : HubM α} {f : α → HubM β} (hf : ∀ a, (f a).Only fun op => ¬op.hitsPane) :
    SparesOthers id (p >>= f) w ↔ SparesOthers id p w :=
  wp_then hf spares_of_not_hitsPane

theorem spares_return {α β : Type} {p : HubM α} {g : α → β} :
    SparesOthers id (do return g (← p)) w ↔ SparesOthers id p w :=
  spares_then fun _ => Prog.only_ret _

/-! ## Stop and restart -/

theorem putAgent_keeps {old : Option String} (hrec : rec.id = id) (h : ∀ o, old = some o → w.taken id o = false) :
    wp handle (fun _ _ => True) (Spares id) (Store.putAgent rec)
      (fun _ w' => ∀ o, old = some o → w'.taken id o = false) w := by
  unfold Store.putAgent
  split
  · next hsafe =>
    refine ⟨trivial, fun c r w' _ hr o ho => ?_⟩
    simp only [handle, hsafe, dif_pos] at hr
    cases hr
    exact (taken_put hrec).trans (h o ho)
  · exact h

theorem markStopped_spares {pane : Option String} (h : ∀ p, pane = some p → w.taken rec.id p = false) :
    SparesOthers rec.id (markStopped rec pane) w := by
  unfold markStopped
  refine (wp_bind _ _).mpr (wp_mono (putAgent_keeps rfl h) fun r w' hr => ?_)
  cases r with
  | error e => trivial
  | ok u =>
    cases pane with
    | none => trivial
    | some p => exact ⟨hr p rfl, fun _ _ _ _ _ => trivial⟩

theorem endPane_spares {adapter : Option StorableMux} (hfree : w.taken rec.id pane = false) :
    SparesOthers rec.id (endPane rec pane adapter) w := by
  have hmark : ∀ w' : World, w'.taken rec.id pane = false → ∀ verified, SparesOthers rec.id (do
      return { agent := ← markStopped rec (some pane), pane := some pane, verified } : HubM Stopped) w' := by
    intro w' hw' verified
    refine spares_return.mpr (markStopped_spares fun p hp => ?_)
    cases hp; exact hw'
  cases adapter with
  | none => exact hmark w hfree false
  | some mux =>
    refine ⟨hfree, fun c r w1 _ hr => ⟨trivial, fun c' r' w2 _ hr' => ?_⟩⟩
    have h2 : w2 = w1 := by
      simp only [handle] at hr'
      split at hr'
      · cases hr'; rfl
      · cases hr'
    subst h2
    refine spares_refuse.mpr fun _ => hmark _ ?_ _
    cases hr
    rw [← hfree]
    refine taken_congr ?_ fun x _ => ?_
    · split <;> rfl
    · split <;> rfl

theorem strays_iff : w.strays rec = true ↔ ∃ pane, rec.pane = some pane ∧ pane.id ≠ "" ∧
    w.taken rec.id pane.id = true := by
  simp only [World.strays, Option.any_eq_true, decide_eq_true_eq]

theorem leaves_free (hw : Tidy w) {key : String} (hkey : w.leaves rec key) (hne : key ≠ "")
    (hstray : w.strays rec = false) : w.taken rec.id key = false := by
  unfold World.leaves at hkey
  cases hp : rec.pane with
  | none =>
    rw [hp] at hkey
    exact taken_of_found hw hkey
  | some q =>
    rw [hp] at hkey
    subst hkey
    refine Bool.eq_false_iff.mpr fun htaken => ?_
    rw [strays_iff.mpr ⟨q, hp, hne, htaken⟩] at hstray
    cases hstray

/-- Ending a runtime spares the others exactly when the recorded pane is not one of theirs. -/
theorem stopRuntime_spares (hw : Tidy w) : SparesOthers rec.id (stopRuntime rec) w ↔ w.strays rec = false := by
  constructor
  · refine fun h => Bool.eq_false_iff.mpr fun hstray => ?_
    obtain ⟨q, hq, hne, htaken⟩ := strays_iff.mp hstray
    have hg : given (some q.id) = some q.id := given_eq_some.mpr ⟨rfl, hne⟩
    unfold stopRuntime runtimePane at h
    rw [hq] at h
    rw [pure_bind] at h
    rw [hg] at h
    change SparesOthers rec.id (paneAdapter rec >>= endPane rec q.id) w at h
    unfold paneAdapter at h
    rw [hq] at h
    have hfree : w.taken rec.id q.id = false := h.1
    rw [htaken] at hfree; cases hfree
  · intro hstray
    refine (wp_bind _ _).mpr (wp_mono (runtimePane_spec fun w => spares_of_not_hitsPane _ w not_false) ?_)
    rintro r w' ⟨rfl, pane, rfl, hleaves, -⟩
    dsimp only
    cases hg : given pane with
    | none => exact spares_return.mpr (markStopped_spares fun p hp => by cases hp)
    | some key =>
      obtain ⟨rfl, hne⟩ := given_eq_some.mp hg
      refine (wp_bind _ _).mpr (wp_mono (paneAdapter_spec spares_of_not_hitsPane) ?_)
      rintro r w'' ⟨rfl, adapter, rfl, -⟩
      exact endPane_spares (leaves_free hw (hleaves key rfl) hne hstray)

/-! ## The verbs -/

theorem stop_spares (hw : Tidy w) (hn : w.named ref = some rec) : SparesOthers rec.id (stopUnit ctx ref) w ↔
    (rec.kind.hasRuntime = true → w.selfId ctx ≠ some rec.id → rec.status ≠ .stopped → w.strays rec = false) := by
  unfold stopUnit assertHasRuntime
  rw [spares_named hn, spares_refuse, not_not, spares_notSelf]
  refine imp_congr_right fun _ => imp_congr_right fun _ => ?_
  split
  · next hstopped => exact ⟨fun _ h => absurd hstopped h, fun _ => trivial⟩
  · next hstopped =>
    rw [spares_return, stopRuntime_spares hw]
    exact ⟨fun h _ => h, fun h => h hstopped⟩

theorem only_startStopped {previous : Option String} {fresh : Bool} :
    (startStopped ctx rec previous fresh).Only fun op => ¬op.hitsPane := by
  unfold startStopped
  refine (quiet_openStopped.mono fun _ h => h.2).bind fun opened => (only_nowIso (by exact id)).bind fun _ => ?_
  exact (only_putAgent (by exact id)).bind fun _ => (only_perform id).bind fun _ => Prog.only_ret _

theorem restart_spares {fresh : Bool} (hw : Tidy w) (hn : w.named ref = some rec) :
    SparesOthers rec.id (restartUnit ctx ref fresh) w ↔
      (rec.kind.hasRuntime = true → w.selfId ctx ≠ some rec.id → rec.harness.getD "" ≠ "" →
        inLaunchMap (rec.harness.getD "") = true → rec.cwd ∈ w.dirs → rec.status ≠ .stopped →
        w.strays rec = false) := by
  unfold restartUnit assertRestarts assertHasRuntime
  rw [spares_named hn, bind_assoc, spares_refuse, not_not]
  refine imp_congr_right fun _ => ?_
  rw [bind_assoc, spares_notSelf]
  refine imp_congr_right fun _ => ?_
  rw [bind_assoc, spares_refuse, not_or, not_not, and_imp]
  refine imp_congr_right fun _ => imp_congr_right fun _ => ?_
  have hexists : Answers handle (Spares rec.id) (perform (.existsSync rec.cwd)) w (.ok (decide (rec.cwd ∈ w.dirs))) :=
    answers_call trivial (fun _ => rfl) (answers_ret _)
  rw [bind_assoc]
  refine hexists.bind.trans (spares_refuse.trans ?_)
  rw [not_not, decide_eq_true_eq]
  refine imp_congr_right fun _ => (spares_then fun _ => only_startStopped).trans ?_
  unfold stopFirst
  split
  · next hstopped => exact ⟨fun _ h => absurd hstopped h, fun _ => trivial⟩
  · next hstopped =>
    rw [spares_return, stopRuntime_spares hw]
    exact ⟨fun h _ => h, fun h => h hstopped⟩

theorem spares_unheld {α : Type} {f : Unit → HubM α} : SparesOthers id (assertUnheld rec pane >>= f) w ↔
    (w.taken rec.id pane = false → SparesOthers id (f ()) w) := by
  obtain ⟨holder, hanswer, htaken⟩ := holderOf_answers (w := w) (spares_of_not_hitsPane)
  unfold assertUnheld
  rw [bind_assoc]
  refine hanswer.bind.trans ?_
  cases holder with
  | none => exact ⟨fun h _ => h, fun h => h htaken.symm⟩
  | some holder =>
    refine ⟨fun _ h => ?_, fun _ => trivial⟩
    rw [h] at htaken; cases htaken

theorem may_now : May handle nowIso w (.ok 0) w := by
  refine may_call (c := {}) rfl ?_
  show May handle (iso 0) w (.ok 0) w
  exact may_ret 0

theorem spares_now {α : Type} {f : Int → HubM α} (h : ∀ t, SparesOthers id (f t) w) :
    SparesOthers id (nowIso >>= f) w := by
  refine ⟨trivial, fun c r w' _ hr => ?_⟩
  cases hr
  show SparesOthers id (iso c.ms >>= f) w
  unfold iso
  split
  · exact h c.ms
  · trivial

theorem may_putAgent (h : safeId rec.id) :
    May handle (Store.putAgent rec) w (.ok ()) { w with agents := w.agents.put rec h } := by
  unfold Store.putAgent
  rw [if_pos h]
  refine may_call (c := {}) (t := { w with agents := w.agents.put rec h }) ?_ (may_ret ())
  simp only [handle, h, dif_pos]

/-- Binding the pane spares the others exactly when the old pane is not one of theirs. -/
theorem bindPane_spares {cur : CurrentPane} {old : Option String} (hsafe : safeId rec.id) :
    SparesOthers rec.id (bindPane rec cur old) w ↔ ∀ o, old = some o → w.taken rec.id o = false := by
  constructor
  · rintro h o rfl
    have hput := wp_of_may h may_now
    have hremove := wp_of_may hput (may_putAgent (by exact hsafe))
    have hfree : World.taken _ rec.id o = false := hremove.1
    rwa [taken_put (by rfl)] at hfree
  · refine fun h => spares_now fun t => (wp_bind _ _).mpr (wp_mono (putAgent_keeps rfl h) fun r w' hr => ?_)
    cases r with
    | error e => trivial
    | ok u =>
      cases old with
      | none => exact ⟨trivial, fun _ _ _ _ _ => trivial⟩
      | some o => exact ⟨hr o rfl, fun _ _ _ _ _ => ⟨trivial, fun _ _ _ _ _ => trivial⟩⟩

/-- While the session may still be running, an unforced rebind goes on only if the
old pane's multiplexer can answer a list without it. -/
theorem mayEnd_notRunning {q : Pane} (hruntime : rec.kind.hasRuntime = true) (hq : rec.pane = some q) (hne : q.id ≠ "")
    (hmiss : rec.status.running = true → w.mayMiss q) {old : Option String} :
    May handle (assertNotRunning rec old) w (.ok ()) w := by
  have hprobe : ∃ liveness, May handle (probeLiveness rec) w (.ok liveness) w ∧ liveness ≠ .live ∧
      liveness ≠ .unknown := by
    unfold probeLiveness
    rw [if_neg (not_not.mpr hruntime)]
    by_cases hstopped : rec.status = .stopped
    · rw [if_pos hstopped]
      exact ⟨_, may_ret _, (fun h => by cases h), (fun h => by cases h)⟩
    by_cases hexited : rec.status = .exited
    · rw [if_neg hstopped, if_pos hexited]
      exact ⟨_, may_ret _, (fun h => by cases h), (fun h => by cases h)⟩
    obtain ⟨list, hlist, hlists, hno⟩ := hmiss (decide_eq_true ⟨hstopped, hexited⟩)
    rw [if_neg hstopped, if_neg hexited]
    refine ⟨.gone, ?_, (fun h => by cases h), (fun h => by cases h)⟩
    unfold runtimePane paneAdapter
    have hg : given (some q.id) = some q.id := given_eq_some.mpr ⟨rfl, hne⟩
    rw [hq]
    rw [pure_bind]
    rw [hg]
    refine may_call (c := { list }) (a := list) (t := w) ?_ ?_
    · simp only [handle, hlists, or_true, if_true]
    · show May handle (if _ then _ else if _ then _ else _) w _ w
      rw [if_neg hlist, if_neg]
      · exact may_ret _
      · intro hany
        obtain ⟨p, hp, hid⟩ := List.any_eq_true.mp hany
        exact hno p hp (of_decide_eq_true hid)
  obtain ⟨liveness, hmay, hlive, hunknown⟩ := hprobe
  refine hmay.bind ?_
  unfold refuse
  rw [if_neg]
  · exact may_ret ()
  · rintro ⟨-, h | h⟩
    · exact hlive h
    · exact hunknown h

theorem spares_notRunning {old : Option String} (hw : Tidy w) (hruntime : rec.kind.hasRuntime = true)
    {f : Unit → HubM AgentRecord}
    (hf : (old.isSome = true → rec.status.running = true → ∀ q, rec.pane = some q → w.mayMiss q) →
      SparesOthers id (f ()) w) : SparesOthers id (assertNotRunning rec old >>= f) w := by
  unfold assertNotRunning
  rw [bind_assoc]
  refine (wp_bind _ _).mpr (wp_mono (probeLiveness_spec spares_of_not_hitsPane) ?_)
  rintro r w' ⟨rfl, liveness, rfl, hgone⟩
  refine spares_refuse.mpr fun hpass => hf fun hold hrunning => ?_
  refine hgone (fun h => ?_) (fun h => ?_) hruntime hrunning
  · exact hpass ⟨hold, .inl h⟩
  · exact hpass ⟨hold, .inr h⟩

theorem rebindTo_spares {cur : CurrentPane} {old : Option String} (hw : Tidy w) (hsafe : safeId rec.id)
    (hruntime : rec.kind.hasRuntime = true)
    (hold : w.taken rec.id cur.pane = false →
      (rec.status.running = true → ∀ q, rec.pane = some q → w.mayMiss q) →
      ∀ o, old = some o → w.taken rec.id o = false) : SparesOthers rec.id (rebindTo rec cur old) w := by
  obtain ⟨b, hanswer, -⟩ := alreadyBound_answers (w := w) (spares_of_not_hitsPane)
  unfold rebindTo
  refine hanswer.bind.mpr ?_
  cases b with
  | true => trivial
  | false =>
    refine spares_unheld.mpr fun hfree => spares_notRunning hw hruntime fun hmiss => ?_
    refine (bindPane_spares hsafe).mpr fun o ho => hold hfree (hmiss ?_) o ho
    rw [ho]; rfl

theorem rebindTo_unbinds {cur : CurrentPane} {q : Pane} (hsafe : safeId rec.id)
    (hruntime : rec.kind.hasRuntime = true) (hq : rec.pane = some q) (hgiven : q.id ≠ "") (hne : q.id ≠ cur.pane)
    (hfree : w.taken rec.id cur.pane = false) (hmiss : rec.status.running = true → w.mayMiss q)
    (h : SparesOthers rec.id (rebindTo rec cur (some q.id)) w) : w.taken rec.id q.id = false := by
  obtain ⟨b, hanswer, hbound⟩ := alreadyBound_answers (w := w) (spares_of_not_hitsPane)
  unfold rebindTo at h
  have h := hanswer.bind.mp h
  cases b with
  | true =>
    obtain ⟨q', hq', hid⟩ := hbound rfl
    cases hq.symm.trans hq'
    exact absurd hid hne
  | false =>
    have hpass := spares_unheld.mp h hfree
    have hbind := wp_of_may hpass (mayEnd_notRunning hruntime hq hgiven hmiss)
    exact (bindPane_spares hsafe).mp hbind q.id rfl

theorem rebind_spares (hw : Tidy w) (hn : w.named ref = some rec) : SparesOthers rec.id (rebindUnit ctx ref) w ↔
    (rec.kind.hasRuntime = true → ∀ cur, storablePane ctx.env = some cur → w.taken rec.id cur.pane = false →
      ∀ q, rec.pane = some q → q.id ≠ cur.pane → (rec.status.running = true → w.mayMiss q) →
      w.strays rec = false) := by
  have hsafe := Filed.valid_of_get (named_mem hn)
  unfold rebindUnit assertHasRuntime
  rw [spares_named hn, spares_refuse, not_not]
  refine imp_congr_right fun hruntime => ?_
  cases hcur : storablePane ctx.env with
  | none => exact ⟨fun _ _ h => (Option.some_ne_none _ h.symm).elim, fun _ => trivial⟩
  | some cur =>
    constructor
    · intro h cur' hcur' hfree q hq hne hmiss
      cases hcur'
      refine Bool.eq_false_iff.mpr fun hstray => ?_
      obtain ⟨q', hq', hgiven, htaken⟩ := strays_iff.mp hstray
      cases hq.symm.trans hq'
      have hold : (given (some q.id)).filter (· ≠ cur.pane) = some q.id := by
        rw [given_eq_some.mpr ⟨rfl, hgiven⟩, Option.filter_some, if_pos (by simpa using hne)]
      unfold runtimePane at h
      rw [hq] at h
      change SparesOthers rec.id (rebindTo rec cur ((given (some q.id)).filter (· ≠ cur.pane))) w at h
      rw [hold] at h
      rw [rebindTo_unbinds hsafe hruntime hq hgiven hne hfree hmiss h] at htaken
      cases htaken
    · intro h
      refine (wp_bind _ _).mpr (wp_mono (runtimePane_spec fun w => spares_of_not_hitsPane _ w not_false) ?_)
      rintro r w' ⟨rfl, pane, rfl, hleaves, hrec, -⟩
      refine rebindTo_spares hw hsafe hruntime fun hfree hmiss o ho => ?_
      obtain ⟨hgiven, hne⟩ := Option.filter_eq_some_iff.mp ho
      obtain ⟨rfl, hempty⟩ := given_eq_some.mp hgiven
      refine leaves_free hw (hleaves o rfl) hempty ?_
      cases hq : rec.pane with
      | none => simp only [World.strays, hq, Option.any_none]
      | some q =>
        cases hrec q hq
        exact h cur rfl hfree q hq (of_decide_eq_true hne) fun hrunning => hmiss hrunning q hq

/-! ## Close -/

theorem spares_quiet {α β : Type} {p : HubM α} {f : α → HubM β} (hp : p.Only Call.quiet)
    (hf : ∀ a w', Same w w' → SparesOthers id (f a) w') : SparesOthers id (p >>= f) w := by
  refine (wp_bind _ _).mpr (wp_mono (wp_only (I := fun w' => Same w w') hp ?_ ?_ Same.rfl) fun r w' hw' => ?_)
  · intro op c w₁ r w₂ hop hw₁ hr
    obtain ⟨hagents, hpanes, hmail⟩ := handle_registry hop.1 hr
    exact hw₁.trans ⟨hagents, hpanes, hmail⟩
  · exact fun op w hop _ => spares_of_not_hitsPane op w hop.2
  · cases r with
    | ok a => exact hf a w' hw'
    | error e => trivial

theorem reap_spares {old : Option String} (h : ∀ o, old = some o → w.taken id o = false) :
    SparesOthers id (reap id old) w := by
  refine ⟨trivial, fun c r w' _ hr => ?_⟩
  cases hr
  cases old with
  | none => exact ⟨trivial, fun _ _ _ _ _ => ⟨trivial, fun _ _ _ _ _ => trivial⟩⟩
  | some o =>
    refine ⟨?_, fun _ _ _ _ _ => ⟨trivial, fun _ _ _ _ _ => ⟨trivial, fun _ _ _ _ _ => trivial⟩⟩⟩
    exact taken_erase.trans (h o rfl)

theorem closeEnd_spares {old : Option String} {res : DecommissionResult}
    (h : ∀ o, old = some o → w.taken id o = false) :
    SparesOthers id (do teardownPane old; reap id old; return res) w := by
  have hreap : ∀ w', w'.agents = w.agents → w'.panes = w.panes →
      SparesOthers id (do reap id old; return res) w' := by
    intro w' hagents hpanes
    refine spares_return.mpr (reap_spares fun o ho => ?_)
    rw [taken_congr hpanes fun x _ => by rw [hagents]]
    exact h o ho
  unfold teardownPane
  cases old with
  | none => exact hreap w rfl rfl
  | some o =>
    refine ⟨trivial, fun c r w₁ _ hr => ?_⟩
    cases hr
    simp only [Prog.bind]
    cases c.mux.storable with
    | none => exact hreap w rfl rfl
    | some mux =>
      refine ⟨h o rfl, fun c r w₁ _ hr => ?_⟩
      cases hr
      refine hreap _ ?_ ?_
      · split <;> rfl
      · split <;> rfl

theorem exists_not_primary : ∃ root, isPrimary ctx rec (some root) = false := by
  have htop : path.resolve ctx.cwd "/" = "/" := by
    have habs : path.isAbsolute "/" = true := by decide
    simp only [path.resolve, habs, if_true]
    decide +kernel
  have hother : path.resolve ctx.cwd "/x" = "/x" := by
    have habs : path.isAbsolute "/x" = true := by decide
    simp only [path.resolve, habs, if_true]
    decide +kernel
  cases hroot : given (rec.worktree.map (·.root)) with
  | none => exact ⟨"/", by simp only [isPrimary, hroot, Option.any_none]⟩
  | some root =>
    by_cases h : path.resolve ctx.cwd root = "/"
    · refine ⟨"/x", ?_⟩
      have hg : given (some "/x") = some "/x" := given_eq_some.mpr ⟨rfl, by decide⟩
      simp only [isPrimary, hroot, hg, Option.any_some, hother, h, decide_eq_false_iff_not]
      decide
    · refine ⟨"/", ?_⟩
      have hg : given (some "/") = some "/" := given_eq_some.mpr ⟨rfl, by decide⟩
      simp only [isPrimary, hroot, hg, Option.any_some, htop, h, decide_false]

theorem mayPrimary (h : w.refusesClose ctx rec = false) : ∃ primaryRoot,
    May handle (unitPrimaryRoot rec ((rec.worktree.map fun worktree => decide (worktree.root ∈ w.dirs)).getD false)) w
      (.ok primaryRoot) w ∧ isPrimary ctx rec primaryRoot = false := by
  unfold unitPrimaryRoot
  cases hwt : rec.worktree with
  | none => exact ⟨none, may_ret _, by simp [isPrimary, hwt, given]⟩
  | some worktree =>
    simp only [Option.map_some, Option.getD_some, decide_eq_true_eq]
    by_cases hin : worktree.root ∈ w.dirs
    · rw [if_pos hin]
      obtain ⟨root, hroot⟩ := exists_not_primary
      exact ⟨some root, may_call (c := { text := some root }) rfl (may_ret _), hroot⟩
    · rw [if_neg hin]
      refine ⟨worktree.primaryRoot, may_ret _, Bool.eq_false_iff.mpr fun hprimary => ?_⟩
      simp only [World.refusesClose, hwt, Option.any_some, decide_eq_false_iff_not, not_or, hin, hprimary,
        not_false_eq_true, and_self, decide_true, not_true_eq_false, and_false] at h

theorem mayClose {input : DecommissionInput} {primaryRoot : Option String} {removes : Bool}
    (hprimary : isPrimary ctx rec primaryRoot = false) :
    May handle (assertCloses ctx input rec primaryRoot removes) w (.ok ()) w := by
  have hdirty : ∀ root, May handle (isDirty root) w (.ok false) w := fun root =>
    may_call (c := {}) rfl (may_ret _)
  unfold assertCloses refuse
  rw [hprimary, if_neg Bool.false_ne_true]
  refine May.bind (may_ret ()) (May.bind (a := false) (t := w) ?_ ?_)
  · split
    · exact hdirty _
    · exact may_ret _
  · rw [if_neg Bool.false_ne_true]
    exact may_ret ()

theorem mayPruneGone {present : Bool} {primaryRoot : Option String} :
    May handle (pruneGone rec present primaryRoot) w (.ok ()) w := by
  unfold pruneGone
  split
  · next primary _ _ =>
    split
    · exact may_ret ()
    · refine may_call (c := {}) rfl ?_
      cases decide (primary ∈ w.dirs) with
      | true => exact may_call (c := {}) rfl (may_ret ())
      | false => exact may_ret ()
  · exact may_ret ()

theorem mayRelease : ∃ released, May handle (releaseLease rec) w (.ok released) w := by
  unfold releaseLease
  split
  · split
    · exact ⟨true, may_call (c := {}) rfl (may_ret true)⟩
    · exact ⟨false, may_ret false⟩
  · exact ⟨false, may_ret false⟩

theorem mayRemove {primaryRoot : Option String} {removes : Bool} : ∃ w', w'.agents = w.agents ∧ w'.panes = w.panes ∧
    May handle (removeWorktree rec primaryRoot removes) w (.ok ()) w' := by
  unfold removeWorktree
  split
  · next worktree _ =>
    exact ⟨{ w with dirs := w.dirs.filter (· ≠ worktree.root) }, rfl, rfl, may_call (c := {}) rfl (may_ret ())⟩
  · exact ⟨w, rfl, rfl, may_ret ()⟩

theorem close_spares {input : DecommissionInput} (hw : Tidy w) (hget : w.agents.get input.id = some rec) :
    SparesOthers rec.id (decommission ctx input) w ↔ (w.refusesClose ctx rec = false → w.strays rec = false) := by
  have hid : rec.id = input.id := Filed.key_of_get hget
  have hgetAgent : Answers handle (Spares rec.id) (Store.getAgent input.id) w (.ok (some rec)) :=
    answers_call trivial (fun _ => by rw [handle, hget]) (answers_ret _)
  have hquiet : ∀ op w, op.reads = true → Spares rec.id op w := fun op w h =>
    spares_of_not_hitsPane op w (quiet_of_reads op h).2
  have hexists : Answers handle (Spares rec.id) (existsRoot rec) w _ := existsRoot_answers hquiet
  unfold decommission
  refine hgetAgent.bind.trans (spares_refuse.trans ?_)
  constructor
  · intro h hpass
    refine Bool.eq_false_iff.mpr fun hstray => ?_
    obtain ⟨q, hq, hgiven, htaken⟩ := strays_iff.mp hstray
    have hkind : rec.kind ≠ .service := by
      intro hkind
      simp [World.refusesClose, hkind] at hpass
    obtain ⟨primaryRoot, hprimary, hnot⟩ := mayPrimary hpass
    have h := wp_of_may (hexists.bind.mp (h hkind)) hprimary
    have h := wp_of_may h (mayClose hnot)
    unfold closePane at h
    rw [hq] at h
    have h := (answers_ret (some q.id)).bind.mp h
    rw [given_eq_some.mpr ⟨rfl, hgiven⟩] at h
    have h := wp_of_may h mayPruneGone
    obtain ⟨released, hreleased⟩ := mayRelease (w := w)
    have h := wp_of_may h hreleased
    obtain ⟨w', hagents, hpanes, hremoved⟩ := mayRemove
    have h := wp_of_may h hremoved
    have hfree : w'.taken rec.id q.id = false := (h.2 { mux := .tmux } _ w' trivial rfl).1
    rw [taken_congr hpanes fun x _ => by rw [hagents], htaken] at hfree
    cases hfree
  · intro h hkind
    refine hexists.bind.mpr ?_
    cases hpass : w.refusesClose ctx rec with
    | true =>
      obtain ⟨worktree, hwt, hgone⟩ := (Option.any_eq_true _ _).mp
        ((of_decide_eq_true hpass).resolve_left hkind)
      obtain ⟨hgone, hprimary⟩ := of_decide_eq_true hgone
      have hvalue : (rec.worktree.map fun worktree => decide (worktree.root ∈ w.dirs)).getD false = false := by
        rw [hwt]
        exact decide_eq_false hgone
      have hroot : Answers handle (Spares rec.id) (unitPrimaryRoot rec false) w (.ok worktree.primaryRoot) := by
        unfold unitPrimaryRoot
        rw [hwt]
        exact answers_ret _
      rw [hvalue]
      refine hroot.bind.mpr ?_
      unfold assertCloses
      rw [bind_assoc]
      exact spares_refuse.mpr fun hn => absurd hprimary hn
    | false =>
      refine spares_quiet (reads_unitPrimaryRoot.mono quiet_of_reads) fun primaryRoot w₁ h₁ => ?_
      refine spares_quiet (reads_assertCloses.mono quiet_of_reads) fun _ w₂ h₂ => ?_
      refine (wp_bind _ _).mpr (wp_mono (runtimePane_spec fun w => spares_of_not_hitsPane _ w not_false) ?_)
      rintro r w₃ ⟨rfl, pane, rfl, hleaves, -⟩
      refine spares_quiet (reads_pruneGone.mono quiet_of_reads) fun _ w₄ h₄ => ?_
      refine spares_quiet (reads_releaseLease.mono quiet_of_reads) fun released w₅ h₅ => ?_
      refine spares_quiet quiet_removeWorktree fun _ w₆ h₆ => ?_
      rw [← hid]
      refine closeEnd_spares fun o ho => ?_
      obtain ⟨rfl, hgiven⟩ := given_eq_some.mp ho
      have hsame := h₁.trans h₂
      rw [(h₄.trans (h₅.trans h₆)).taken, hsame.taken]
      refine leaves_free hw ?_ hgiven (h hpass)
      have hleaves := hleaves o rfl
      rwa [hsame.leaves] at hleaves

/-! ## Every reachable state -/

/-- In every reachable state a runtime verb on a unit spares the panes of the other
running units if and only if the pane the unit's record bears is not by now one of
theirs, or the verb refuses before it gets to it. -/
theorem runtime_verb_spares_iff (live : List (StorableMux × String)) (dirs : List String) (es : List HubEvent)
    (s : HubRun) (h : exec hubStep (newHub live dirs) es = some s) (c : Command) (rec : AgentRecord)
    (ht : c.target s.state = some rec) :
    SparesOthers rec.id c.prog s.state ↔ ¬(GetsToPane s.state c rec ∧ s.state.strays rec = true) := by
  have hw := tidy_run h
  rw [not_and, Bool.not_eq_true]
  obtain ⟨ctx, verb⟩ := c
  cases verb with
  | stop ref =>
    refine spares_return.trans ((stop_spares hw ht).trans ?_)
    simp only [GetsToPane, and_imp]
  | restart ref fresh =>
    refine spares_return.trans ((restart_spares hw ht).trans ?_)
    simp only [GetsToPane, and_imp]
  | rebind ref =>
    refine spares_return.trans ((rebind_spares hw ht).trans ?_)
    simp only [GetsToPane, and_imp, forall_exists_index]
    refine imp_congr_right fun _ => ⟨fun h cur q hcur hfree hq hne hmiss => h cur hcur hfree q hq hne hmiss,
      fun h cur hcur hfree q hq hne hmiss => h cur q hcur hfree hq hne hmiss⟩
  | close input => exact spares_return.trans (close_spares hw ht)
  | spawn | register | reconcile | prune | touch | recordConversation => cases ht

end

def shell : Ctx := { env := { currentPane := some (.tmux, "%0") } }

def spawnAt (id pane : String) : HubEvent :=
  .call ⟨shell, .spawn { harness := some "claude", brief := some "work", cwd := some "/w" }⟩
    [{}, { mux := .tmux }, { text := some id }, { text := some "/p" }, {}, { text := some pane }, {}, {}, {}, {}, {}]

theorem runtime_verb_spares_own : ∃ s rec, exec hubStep (newHub [(.tmux, "%0")] ["/w"]) [spawnAt "a1" "%1"] = some s ∧
    Command.target ⟨shell, .stop "a1"⟩ s.state = some rec ∧
    SparesOthers rec.id (Command.prog ⟨shell, .stop "a1"⟩) s.state := by
  have hstate : ((exec hubStep (newHub [(.tmux, "%0")] ["/w"]) [spawnAt "a1" "%1"]).bind fun s =>
      (Command.target ⟨shell, .stop "a1"⟩ s.state).map fun rec => s.state.strays rec) = some false := by
    decide +kernel
  obtain ⟨s, hs, hrec⟩ := Option.bind_eq_some_iff.mp hstate
  obtain ⟨rec, hrec, hstray⟩ := Option.map_eq_some_iff.mp hrec
  refine ⟨s, rec, hs, hrec, (runtime_verb_spares_iff _ _ _ s hs _ rec hrec).mpr fun h => ?_⟩
  rw [hstray] at h
  cases h.2

/-- A unit that died in `%1` is recorded exited there; the server gives `%1` to the
next unit spawned; stopping the first then hits the second. -/
theorem runtime_verb_hits_other : ∃ s rec, exec hubStep (newHub [(.tmux, "%0")] ["/w"])
      [spawnAt "a1" "%1", .other (.paneEnds .tmux "%1"),
        .call ⟨shell, .prune⟩ [{}, { list := [{ mux := .tmux, id := "%0" }] }, {}, {}, {}],
          spawnAt "b2" "%1"] = some s ∧
    Command.target ⟨shell, .stop "a1"⟩ s.state = some rec ∧
    ¬SparesOthers rec.id (Command.prog ⟨shell, .stop "a1"⟩) s.state := by
  have hstate : ((exec hubStep (newHub [(.tmux, "%0")] ["/w"])
      [spawnAt "a1" "%1", .other (.paneEnds .tmux "%1"),
        .call ⟨shell, .prune⟩ [{}, { list := [{ mux := .tmux, id := "%0" }] }, {}, {}, {}], spawnAt "b2" "%1"]).bind
      fun s => (Command.target ⟨shell, .stop "a1"⟩ s.state).map fun rec =>
        meets handle (Spares rec.id) (Command.prog ⟨shell, .stop "a1"⟩) [{}, {}, {}] s.state) = some false := by
    decide +kernel
  obtain ⟨s, hs, hrec⟩ := Option.bind_eq_some_iff.mp hstate
  obtain ⟨rec, hrec, hmeets⟩ := Option.map_eq_some_iff.mp hrec
  refine ⟨s, rec, hs, hrec, fun h => ?_⟩
  rw [wp_meets h] at hmeets
  cases hmeets

end Cyberlegion
