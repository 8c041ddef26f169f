import Cyberlegion.VerbSpec
import Cyberlegion.Lib.Traced

/-!
# How a restart goes

A restart refuses, or stops the unit's session and opens a new one. `seen` is what a run
shows of it: the panes torn down, what the backends listed, opened and found, and the clock.
-/

namespace Cyberlegion

open Effects

abbrev Calls := List (Call × Choice)

/-! ## What a run shows -/

structure Seen where
  torn : List (StorableMux × String)
  listed : List (StorableMux × List LivePane)
  opened : List (Option String)
  clocks : List Int
  found : List (Option String)

def Seen.none : Seen := ⟨[], [], [], [], []⟩

def Seen.append (s t : Seen) : Seen :=
  ⟨s.torn ++ t.torn, s.listed ++ t.listed, s.opened ++ t.opened, s.clocks ++ t.clocks, s.found ++ t.found⟩

def seenOf : Call × Choice → Seen
  | (.teardown mux pane, _) => { Seen.none with torn := [(mux, pane)] }
  | (.listPanes mux, c) => { Seen.none with listed := [(mux, c.list)] }
  | (.openSession _ _ _ _, c) => { Seen.none with opened := [c.text] }
  | (.now, c) => { Seen.none with clocks := [c.ms] }
  | (.findPaneByAgentId _, c) => { Seen.none with found := [c.text] }
  | _ => .none

def seen : Calls → Seen
  | [] => .none
  | x :: m => (seenOf x).append (seen m)

/-- The calls that a refusal needs. -/
def Call.refuses : Call → Bool
  | .getAgent _ | .listAgents | .resolvePaneId _ | .existsSync _ => true
  | _ => false

def Asking (m : Calls) : Prop := ∀ x ∈ m, x.1.refuses = true

/-- The last call asks for a multiplexer, and finds none that a session can be opened in. -/
def NoBackend (m : Calls) : Prop := ∃ c, m.getLast? = some (.probeMultiplexer, c) ∧ c.mux.storable = none

section
variable {m m' : Calls} {s : Seen}

theorem Seen.none_append : Seen.none.append s = s := rfl

theorem Seen.append_none : s.append .none = s := by
  simp [Seen.append, Seen.none]

theorem seen_append (m m' : Calls) : seen (m ++ m') = (seen m).append (seen m') := by
  induction m with
  | nil => rfl
  | cons x m ih =>
    rw [List.cons_append, seen, seen, ih]
    simp [Seen.append]

theorem seen_asking (h : Asking m) : seen m = .none := by
  induction m with
  | nil => rfl
  | cons x m ih =>
    obtain ⟨hx, hm⟩ := List.forall_mem_cons.mp h
    rw [seen, ih hm, Seen.append_none]
    obtain ⟨op, c⟩ := x
    cases op <;> first | rfl | cases hx

theorem asking_hasBackend (h : Asking m) : ¬NoBackend m := by
  rintro ⟨c, hlast, -⟩
  have hx := h _ (List.mem_of_getLast? hlast)
  cases hx

theorem noBackend_append (h : m' ≠ []) : NoBackend (m ++ m') ↔ NoBackend m' := by
  rw [NoBackend, NoBackend, List.getLast?_append_of_ne_nil _ h]

end

/-! ## The refusals -/

/-- What a restart asks of the unit and its caller before anything is torn down. -/
structure Restarts (w : World) (ctx : Ctx) (rec : AgentRecord) : Prop where
  runtime : rec.kind.hasRuntime = true
  notSelf : w.selfId ctx ≠ some rec.id
  harness : rec.harness.getD "" ≠ "" ∧ inLaunchMap (rec.harness.getD "") = true
  cwd : rec.cwd ∈ w.dirs

def admitted (ctx : Ctx) (ref : String) : HubM AgentRecord := do
  let rec_ ← resolveAgent ref
  assertRestarts ctx rec_ ref
  return rec_

section
variable {w : World} {ctx : Ctx} {rec : AgentRecord} {ref : String}

theorem restartUnit_eq (ctx : Ctx) (ref : String) (fresh : Bool) : restartUnit ctx ref fresh =
    admitted ctx ref >>= fun rec => stopFirst rec >>= fun p => startStopped ctx p.1 p.2 fresh := by
  simp only [restartUnit, admitted, bind_assoc, pure_bind]

theorem refuses_assertRestarts : (assertRestarts ctx rec ref).Only (·.refuses = true) := by
  have hself : (resolveSelfId ctx).Only (·.refuses = true) := by
    unfold resolveSelfId
    split
    · exact ⟨rfl, fun _ => trivial⟩
    · trivial
  unfold assertRestarts assertHasRuntime assertNotSelf
  refine only_refuse.bind fun _ => ?_
  refine Prog.Only.bind (hself.bind fun _ => only_refuse) fun _ => ?_
  refine only_refuse.bind fun _ => ?_
  exact Prog.Only.bind ⟨rfl, fun _ => trivial⟩ fun _ => only_refuse

theorem refuses_resolveAgent : (resolveAgent ref).Only (·.refuses = true) := by
  unfold resolveAgent
  refine Prog.Only.bind ⟨rfl, fun _ => trivial⟩ fun rec => ?_
  cases rec with
  | some rec => trivial
  | none =>
    refine Prog.Only.bind ⟨rfl, fun _ => trivial⟩ fun _ => ?_
    exact only_resolveAmong.mono fun _ => False.elim

theorem refuses_admitted : (admitted ctx ref).Only (·.refuses = true) :=
  refuses_resolveAgent.bind fun _ => refuses_assertRestarts.bind fun _ => trivial

/-- How the refusals end: with the unit, or with what it lacks. -/
def Admits (w : World) (ctx : Ctx) (ref : String) (r : Except HubError AgentRecord) (w' : World) : Prop :=
  w' = w ∧ match r with
    | .ok rec => w.named ref = some rec ∧ Restarts w ctx rec
    | .error _ => ∀ rec, w.named ref = some rec → ¬Restarts w ctx rec

theorem ends_assertRestarts (hn : w.named ref = some rec) :
    wp handle (fun _ _ => True) (fun _ _ => True) (assertRestarts ctx rec ref >>= fun _ => pure rec)
    (Admits w ctx ref) w := by
  have hother : ∀ {e}, ¬Restarts w ctx rec → Admits w ctx ref (.error e) w := by
    intro e h
    refine ⟨rfl, fun rec' hn' => ?_⟩
    rw [hn] at hn'
    cases hn'
    exact h
  unfold assertRestarts assertHasRuntime assertNotSelf
  simp only [bind_assoc]
  refine ends_refuse (fun h => hother fun hr => h hr.runtime) fun hruntime => ?_
  refine (resolveSelfId_answers fun _ _ _ => trivial).bind_of
    (ends_refuse (fun h => hother fun hr => hr.notSelf h) fun hself => ?_)
  refine ends_refuse (fun h => hother fun hr => h.elim hr.harness.1 fun h => h hr.harness.2) fun hharness => ?_
  refine ends_read (fun _ => rfl) ?_
  refine ends_refuse (fun h => hother fun hr => h (decide_eq_true hr.cwd)) fun hcwd => ?_
  rw [not_or, not_not] at hharness
  exact ⟨rfl, hn, not_not.mp hruntime, hself, hharness, of_decide_eq_true (not_not.mp hcwd)⟩

theorem ends_admitted : wp handle (fun _ _ => True) (fun _ _ => True) (admitted ctx ref) (Admits w ctx ref) w := by
  unfold admitted
  cases hn : w.named ref with
  | none =>
    refine ends_named (fun rec hn' => ?_) fun e => ⟨rfl, fun rec hn' => ?_⟩
    · rw [hn] at hn'
      cases hn'
    · rw [hn] at hn'
      cases hn'
  | some rec => exact (resolveAgent_answers (fun _ _ _ => trivial) hn).bind_of (ends_assertRestarts hn)

theorem traces_admitted : Traces handle (admitted ctx ref) w fun r w' m => Admits w ctx ref r w' ∧ Asking m :=
  (traces_wp ends_admitted).and refuses_admitted.traces

end

/-! ## The stop -/

/-- The pane of the unit's session, as the stop finds it. -/
def leaving (rec : AgentRecord) (m : Calls) : Option String :=
  given (match rec.pane with
    | some pane => some pane.id
    | none => (seen m).found.head?.join)

/-- How the stop step of a restart ends. -/
inductive StopsFirst (w : World) (rec : AgentRecord) :
    Except HubError (AgentRecord × Option String) → World → Calls → Prop
  | already (h : rec.status = .stopped) : StopsFirst w rec (.ok (rec, none)) w []
  | still (mux : StorableMux) {e : HubError} {w' : World} {m : Calls} {pane : String} {list : List LivePane}
      (h : rec.status ≠ .stopped) (hw : Same w w') (hm : seen m =
        { Seen.none with torn := [(mux, pane)], listed := [(mux, list)], found := (seen m).found })
      (hlist : list.any (·.id = pane) = true) (hlast : ¬NoBackend m) (hne : m ≠ []) : StopsFirst w rec (.error e) w' m
  | stopped {w' : World} {m : Calls} {old : Option String} (h : rec.status ≠ .stopped) (hleaves : leaving rec m = old)
      (hwrote : Wrote w rec.id (some rec.halted) old none w')
      (hopened : (seen m).opened = []) (hclocks : (seen m).clocks = [])
      (hgone : ∀ mux pane list, (mux, pane) ∈ (seen m).torn → (mux, list) ∈ (seen m).listed →
        list.any (·.id = pane) = false) :
      StopsFirst w rec (.ok (rec.halted, old)) w' m

section
variable {w w' : World} {rec : AgentRecord}

theorem leaving_append {m m' : Calls} (h : (seen m').found = []) : leaving rec (m ++ m') = leaving rec m := by
  unfold leaving
  rw [seen_append, Seen.append, h, List.append_nil]

theorem leaving_prepend {m m' : Calls} (h : seen m = .none) : leaving rec (m ++ m') = leaving rec m' := by
  unfold leaving
  rw [seen_append, h, Seen.none_append]

variable (rec) in
theorem traces_putAgent {f : Unit → HubM α} {Q : Except HubError α → World → Calls → Prop} (hsafe : safeId rec.id)
    (hok : ∀ c, Traces handle (f ()) { w with agents := w.agents.put rec hsafe }
      fun r w' m => Q r w' ((.putAgent rec, c) :: m)) :
    Traces handle (Store.putAgent rec >>= f) w Q := by
  unfold Store.putAgent
  rw [if_pos hsafe]
  refine traces_call.mpr fun c a t hop => ?_
  simp only [handle, hsafe, dif_pos] at hop
  cases hop
  exact hok c

theorem traces_markStopped {old : Option String} (hsafe : safeId rec.id) :
    Traces handle (markStopped rec old) w fun r w' m =>
    r = .ok rec.halted ∧ Wrote w rec.id (some rec.halted) old none w' ∧ seen m = .none := by
  unfold markStopped
  refine traces_putAgent rec.halted hsafe fun c => ?_
  have hhalted : safeId rec.halted.id := hsafe
  have hput : Wrote w rec.id (some rec.halted) none none { w with agents := w.agents.put rec.halted hsafe } :=
    wrote_put hhalted
  cases old with
  | none => exact traces_ret.mpr ⟨rfl, hput, rfl⟩
  | some pane =>
    refine traces_call.mpr fun c a t hop => ?_
    cases hop
    exact traces_ret.mpr ⟨rfl, hput.unbind, rfl⟩

theorem findPane_text {id : String} {c : Choice} {r : Option String}
    (h : handle (.findPaneByAgentId id) c w = some (r, w')) :
    r = c.text ∧ w' = w := by
  simp only [handle] at h
  split at h
  · next key htext =>
    split at h
    · cases h
      exact ⟨htext.symm, rfl⟩
    · cases h
  · next htext =>
    split at h
    · cases h
    · cases h
      exact ⟨htext.symm, rfl⟩

/-- The pane of the unit's session, found where its record or the index has it. -/
def Finds (rec : AgentRecord) (pane : Option String) (m : Calls) : Prop :=
  match rec.pane with
  | some q => pane = some q.id ∧ seen m = .none
  | none => seen m = { Seen.none with found := [pane] }

theorem traces_runtimePane : Traces handle (runtimePane rec) w fun r w' m => w' = w ∧ ∃ pane, r = .ok pane ∧
    Finds rec pane m := by
  unfold runtimePane Finds
  cases rec.pane with
  | some q => exact traces_ret.mpr ⟨rfl, _, rfl, rfl, rfl⟩
  | none =>
    refine traces_call.mpr fun c a t hop => ?_
    obtain ⟨rfl, rfl⟩ := findPane_text hop
    exact traces_ret.mpr ⟨rfl, _, rfl, rfl⟩

theorem Finds.leaving_eq {pane : Option String} {m : Calls} (h : Finds rec pane m) : given pane = leaving rec m := by
  unfold Finds at h
  unfold leaving
  cases hq : rec.pane with
  | some q =>
    rw [hq] at h
    rw [h.1]
  | none =>
    rw [hq] at h
    simp only at h ⊢
    rw [h]
    rfl

theorem Finds.seen_eq {pane : Option String} {m : Calls} (h : Finds rec pane m) :
    seen m = { Seen.none with found := (seen m).found } := by
  unfold Finds at h
  cases hq : rec.pane with
  | some q =>
    rw [hq] at h
    rw [h.2, Seen.none]
  | none =>
    rw [hq] at h
    simp only at h
    rw [h]

theorem traces_paneAdapter : Traces handle (paneAdapter rec) w fun r w' m => w' = w ∧ ∃ adapter, r = .ok adapter ∧
    seen m = .none := by
  unfold paneAdapter
  cases rec.pane with
  | some pane => exact traces_ret.mpr ⟨rfl, _, rfl, rfl⟩
  | none =>
    refine traces_call.mpr fun c a t hop => ?_
    cases hop
    exact traces_ret.mpr ⟨rfl, _, rfl, rfl⟩

/-- How the end of the unit's pane goes. -/
inductive EndsPane (w : World) (rec : AgentRecord) (pane : String) : Except HubError Stopped → World → Calls → Prop
  | still (mux : StorableMux) {e : HubError} {w' : World} {m : Calls} {list : List LivePane} (hw : Same w w')
      (hm : seen m = { Seen.none with torn := [(mux, pane)], listed := [(mux, list)] })
      (hlist : list.any (·.id = pane) = true) (hlast : ¬NoBackend m) (hne : m ≠ []) :
      EndsPane w rec pane (.error e) w' m
  | stopped {w' : World} {m : Calls} {res : Stopped} (hagent : res.agent = rec.halted) (hpane : res.pane = some pane)
      (hwrote : Wrote w rec.id (some rec.halted) (some pane) none w')
      (hm : seen m = { Seen.none with torn := (seen m).torn, listed := (seen m).listed })
      (hgone : ∀ mux pane list, (mux, pane) ∈ (seen m).torn → (mux, list) ∈ (seen m).listed →
        list.any (·.id = pane) = false) :
      EndsPane w rec pane (.ok res) w' m

theorem traces_endPane {pane : String} (hsafe : safeId rec.id) (adapter : Option StorableMux) :
    Traces handle (endPane rec pane adapter) w (EndsPane w rec pane) := by
  cases adapter with
  | none =>
    refine (traces_markStopped hsafe).seq (fun agent w' m h => ?_) fun e w' m h => ?_
    · obtain ⟨hagent, hwrote, hm⟩ := h
      cases hagent
      refine traces_ret.mpr ?_
      rw [List.append_nil]
      refine .stopped rfl rfl hwrote (by rw [hm]) fun mux pane list htorn => ?_
      rw [hm] at htorn
      cases htorn
    · cases h.1
  | some mux =>
    refine traces_call.mpr fun c a t hop => ?_
    have htear : Same w t := by
      simp only [handle] at hop
      cases hop
      split <;> exact ⟨rfl, rfl, rfl⟩
    refine traces_call.mpr fun c' list t' hlist => ?_
    obtain rfl := handle_reads rfl hlist
    obtain rfl : c'.list = list := by
      simp only [handle] at hlist
      split at hlist
      · cases hlist; rfl
      · cases hlist
    show Traces handle (refuse (c'.list.any (·.id = pane)) _ >>= fun _ => _) _ _
    unfold refuse
    by_cases hany : c'.list.any (·.id = pane) = true
    · rw [if_pos hany]
      exact traces_throw.mpr (.still mux htear rfl hany (by rintro ⟨_, h, -⟩; cases h) (List.cons_ne_nil _ _))
    · rw [if_neg hany]
      refine (traces_markStopped hsafe).seq (fun agent w' m h => ?_) fun e w' m h => ?_
      · obtain ⟨hagent, hwrote, hm⟩ := h
        cases hagent
        refine traces_ret.mpr ?_
        have hseen : seen ((Call.teardown mux pane, c) :: (Call.listPanes mux, c') :: (m ++ [])) =
            { Seen.none with torn := [(mux, pane)], listed := [(mux, c'.list)] } := by
          rw [List.append_nil, seen, seen, hm]
          rfl
        refine .stopped rfl rfl (htear.wrote hwrote) ?_ ?_
        · rw [hseen]
        · intro mux' pane' list' htorn hlisted
          rw [hseen] at htorn hlisted
          cases List.mem_singleton.mp htorn
          cases List.mem_singleton.mp hlisted
          exact Bool.eq_false_iff.mpr hany
      · cases h.1

theorem traces_stopFirst (hsafe : safeId rec.id) : Traces handle (stopFirst rec) w (StopsFirst w rec) := by
  unfold stopFirst
  by_cases hstatus : rec.status = .stopped
  · rw [if_pos hstatus]
    exact traces_ret.mpr (.already hstatus)
  rw [if_neg hstatus]
  unfold stopRuntime
  rw [bind_assoc]
  refine traces_runtimePane.seq (fun pane w' m h => ?_) fun e w' m h => ?_
  · obtain ⟨rfl, pane, hpane, hfinds⟩ := h
    cases hpane
    have hleaving := hfinds.leaving_eq
    have hm := hfinds.seen_eq
    cases hg : given pane with
    | none =>
      simp only [bind_assoc]
      refine (traces_markStopped hsafe).seq (fun agent w'' m' h => ?_) fun e w'' m' h => ?_
      · obtain ⟨hagent, hwrote, hm'⟩ := h
        cases hagent
        refine traces_ret.mpr ?_
        have hseen : seen (m ++ (m' ++ [])) = seen m := by rw [List.append_nil, seen_append, hm', Seen.append_none]
        have hleaves : leaving rec (m ++ (m' ++ [])) = none := by
          rw [leaving_append (by rw [List.append_nil, hm']; rfl), ← hleaving, hg]
        refine .stopped hstatus hleaves hwrote ?_ ?_ fun mux pane list htorn => ?_
        · rw [hseen, hm]; rfl
        · rw [hseen, hm]; rfl
        · rw [hseen, hm] at htorn
          cases htorn
      · cases h.1
    | some key =>
      simp only [bind_assoc]
      refine traces_paneAdapter.seq (fun adapter w'' m' h => ?_) fun e w'' m' h => ?_
      · obtain ⟨rfl, adapter, hadapter, hm'⟩ := h
        cases hadapter
        refine (traces_endPane hsafe adapter).seq (fun res w'' m'' h => ?_) fun e w'' m'' h => ?_
        · cases h with
          | stopped hagent hpane hwrote hm'' hgone =>
            refine traces_ret.mpr ?_
            rw [hagent, hpane, List.append_nil]
            have hseen : seen (m ++ (m' ++ m'')) = (seen m).append (seen m'') := by
              rw [seen_append, seen_append, hm', Seen.none_append]
            have hleaves : leaving rec (m ++ (m' ++ m'')) = some key := by
              rw [leaving_append (by rw [seen_append, hm', Seen.none_append, hm'']; rfl), ← hleaving, hg]
            refine .stopped hstatus hleaves hwrote ?_ ?_ fun mux pane list htorn hlisted => ?_
            · rw [hseen, hm, hm'']; rfl
            · rw [hseen, hm, hm'']; rfl
            · rw [hseen, hm] at htorn hlisted
              exact hgone mux pane list htorn hlisted
        · cases h with
          | still mux hw hm'' hlist hlast hne =>
            have hseen : seen (m ++ (m' ++ m'')) = (seen m).append (seen m'') := by
              rw [seen_append, seen_append, hm', Seen.none_append]
            refine .still mux hstatus hw ?_ hlist ?_ ?_
            · rw [hseen, hm, hm'']; rfl
            · rw [← List.append_assoc, noBackend_append hne]
              exact hlast
            · simp [hne]
      · obtain ⟨-, adapter, hadapter, -⟩ := h
        cases hadapter
  · obtain ⟨-, pane, hpane, -⟩ := h
    cases hpane

end

/-! ## The open -/

/-- How the open step of a restart goes: the pane it opens, if it does. -/
def Opening (w : World) (opened : Option String) (w' : World) (m : Calls) : Prop :=
  match opened with
  | none => w' = w ∧ ((∃ c, c.mux.storable = none ∧ m = [(.probeMultiplexer, c)]) ∨
      seen m = { Seen.none with opened := [none] } ∧ ¬NoBackend m)
  | some pane => Same w w' ∧ seen m = { Seen.none with opened := [some pane] }

def validTime (ms : Int) : Prop := ms.natAbs ≤ 8640000000000000

/-- How the open, save and index steps of a restart end. -/
inductive StartsAgain (w : World) (rec : AgentRecord) (prev : Option String) :
    Except HubError RestartResult → World → Calls → Prop
  | unselected {e : HubError} {c : Choice} (hc : c.mux.storable = none) :
      StartsAgain w rec prev (.error e) w [(.probeMultiplexer, c)]
  | unopened {e : HubError} {m : Calls} (hm : seen m = { Seen.none with opened := [none] }) (hlast : ¬NoBackend m) :
      StartsAgain w rec prev (.error e) w m
  | unclocked (pane : String) {e : HubError} {w' : World} {m : Calls} {ms : Int} (hw : Same w w')
      (hm : seen m = { Seen.none with opened := [some pane], clocks := [ms] }) (hms : ¬validTime ms)
      (hlast : ¬NoBackend m) :
      StartsAgain w rec prev (.error e) w' m
  | bound {w' : World} {m : Calls} {res : RestartResult} {pane : Pane} {ms : Int} (hpane : res.pane = pane.id)
      (hprev : res.previousPane = prev) (hwrote : Wrote w rec.id (some (rec.bound pane ms)) none (some pane.id) w')
      (hm : seen m = { Seen.none with opened := [some pane.id], clocks := [ms] }) (hms : validTime ms)
      (hlast : ¬NoBackend m) : StartsAgain w rec prev (.ok res) w' m

section
variable {w w' : World} {ctx : Ctx} {rec : AgentRecord}

theorem traces_selectSessionAdapter : Traces handle selectSessionAdapter w fun r w' m =>
    w' = w ∧ ∃ c, m = [(.probeMultiplexer, c)] ∧ match r with
      | .ok mux => c.mux.storable = some mux
      | .error _ => c.mux.storable = none := by
  refine traces_call.mpr fun c a t hop => ?_
  cases hop
  cases hmux : c.mux with
  | tmux | herdr => exact traces_ret.mpr ⟨rfl, c, rfl, by rw [hmux]; rfl⟩
  | wezterm | zellij | screen | none => exact traces_throw.mpr ⟨rfl, c, rfl, by rw [hmux]; rfl⟩

theorem traces_openSession {mux : StorableMux} {cwd : String} {launch : LaunchLine} {place : Placement} :
    Traces handle (openSession mux cwd launch place) w fun r w' m => ∃ c, m = [(.openSession mux cwd launch place, c)] ∧
      match r with
      | .ok pane => Same w w' ∧ c.text = some pane
      | .error _ => w' = w ∧ c.text = none := by
  refine traces_call.mpr fun c a t hop => ?_
  simp only [handle] at hop
  cases htext : c.text with
  | none =>
    rw [htext] at hop
    cases hop
    exact traces_throw.mpr ⟨c, rfl, rfl, htext⟩
  | some pane =>
    rw [htext] at hop
    simp only at hop
    split at hop
    · cases hop
    · cases hop
      exact traces_ret.mpr ⟨c, rfl, ⟨rfl, rfl, rfl⟩, htext⟩

theorem traces_readBrief {cond : Prop} [Decidable cond] {id : String} :
    Traces handle (if cond then perform (.readBrief id) else pure none : HubM (Option String)) w fun r w' m =>
      w' = w ∧ (∃ brief, r = .ok brief) ∧ seen m = .none := by
  by_cases h : cond
  · rw [if_pos h]
    refine traces_call.mpr fun c a t hop => ?_
    cases hop
    exact traces_ret.mpr ⟨rfl, ⟨_, rfl⟩, rfl⟩
  · rw [if_neg h]
    exact traces_ret.mpr ⟨rfl, ⟨_, rfl⟩, rfl⟩

theorem traces_openAgain {command : String} {resume : Option String} :
    Traces handle (openAgain ctx rec command resume) w fun r w' m => Opening w (r.toOption.map (·.2)) w' m := by
  unfold openAgain
  refine traces_selectSessionAdapter.seq (fun mux w₁ m h => ?_) fun e w₁ m h => ?_
  · obtain ⟨rfl, c, rfl, hc⟩ := h
    refine traces_readBrief.seq (fun _ w₁ m h => ?_) fun e w₁ m h => ?_
    · obtain ⟨rfl, -, hm⟩ := h
      refine traces_openSession.seq (fun pane w₂ m' h => ?_) fun e w₂ m' h => ?_
      · obtain ⟨c', rfl, hw, htext⟩ := h
        refine traces_ret.mpr ⟨hw, ?_⟩
        rw [List.singleton_append, seen, seen_append, hm]
        simp [seen, seenOf, Seen.append, Seen.none, htext]
      · obtain ⟨c', rfl, rfl, htext⟩ := h
        refine ⟨rfl, .inr ⟨?_, ?_⟩⟩
        · rw [List.singleton_append, seen, seen_append, hm]
          simp [seen, seenOf, Seen.append, Seen.none, htext]
        · rw [← List.append_assoc, noBackend_append (List.cons_ne_nil _ _)]
          rintro ⟨_, hlast, -⟩
          cases hlast
    · obtain ⟨-, ⟨brief, hbrief⟩, -⟩ := h
      cases hbrief
  · obtain ⟨rfl, c, rfl, hc⟩ := h
    exact ⟨rfl, .inl ⟨c, hc, rfl⟩⟩

theorem traces_openStopped {harness : String} {fresh : Bool} :
    Traces handle (openStopped ctx rec harness fresh) w fun r w' m => Opening w (r.toOption.map (·.2.1)) w' m := by
  unfold openStopped
  simp only
  rw [traces_bind, ← bind_pure_comp]
  refine traces_tryCatch.mpr (traces_openAgain.seq (fun opened w₁ m h => ?_) fun e w₁ m h => ?_)
  · refine traces_ret.mpr (traces_ret.mpr ?_)
    simp only [List.append_nil]
    exact h
  · refine traces_ret.mpr (traces_throw.mpr ?_)
    simp only [List.append_nil]
    exact h

theorem traces_nowIso : Traces handle nowIso w fun r w' m => w' = w ∧ ∃ c, m = [(.now, c)] ∧
    match r with
    | .ok ms => ms = c.ms ∧ validTime ms
    | .error _ => ¬validTime c.ms := by
  refine traces_call.mpr fun c a t hop => ?_
  cases hop
  show Traces handle (iso c.ms) _ _
  unfold iso
  by_cases hms : c.ms.natAbs ≤ 8640000000000000
  · rw [if_pos hms]
    exact traces_ret.mpr ⟨rfl, c, rfl, rfl, hms⟩
  · rw [if_neg hms]
    exact traces_throw.mpr ⟨rfl, c, rfl, hms⟩

theorem traces_startStopped {prev : Option String} {fresh : Bool} (hsafe : safeId rec.id) :
    Traces handle (startStopped ctx rec prev fresh) w (StartsAgain w rec prev) := by
  unfold startStopped
  refine traces_openStopped.seq (fun opened w₁ m h => ?_) fun e w₁ m h => ?_
  · obtain ⟨mux, pane, resumed⟩ := opened
    obtain ⟨hw, hm⟩ := h
    refine traces_nowIso.seq (fun ms w₂ m' h => ?_) fun e w₂ m' h => ?_
    · obtain ⟨rfl, c, rfl, rfl, hms⟩ := h
      let bound := rec.bound { mux, id := pane } c.ms
      refine traces_putAgent bound hsafe fun c' => ?_
      have hbound : safeId bound.id := hsafe
      have hput : Wrote w rec.id (some bound) none none { w₂ with agents := w₂.agents.put bound hsafe } :=
        hw.wrote (wrote_put hbound)
      refine traces_call.mpr fun c'' a t hop => ?_
      cases hop
      refine traces_ret.mpr (.bound rfl rfl hput.bind ?_ hms ?_)
      · rw [seen_append, hm]; rfl
      · rw [← List.append_assoc, noBackend_append (List.cons_ne_nil _ _)]
        rintro ⟨_, hlast, -⟩
        cases hlast
    · obtain ⟨rfl, c, rfl, hms⟩ := h
      refine .unclocked pane hw ?_ hms ?_
      · rw [seen_append, hm]; rfl
      · rw [noBackend_append (List.cons_ne_nil _ _)]
        rintro ⟨_, hlast, -⟩
        cases hlast
  · obtain ⟨rfl, ⟨c, hc, rfl⟩ | ⟨hm, hlast⟩⟩ := h
    · exact .unselected hc
    · exact .unopened hm hlast

end

end Cyberlegion
