import Cyberlegion.Operations

/-!
# What a unit remembers

The launch a unit was spawned with and the conversation its hook last recorded: each
verb writes the whole record from the one it read, and of the verbs that keep a unit
only `register` builds a new one without these two.
-/

namespace Cyberlegion

open Effects Runs

/-- Nobody registers as the unit, closes it, or registers a standing owner under its id. -/
def KeepsUnit (id : String) (w : World) (o : Operation) (_ : List (Call × Choice)) : Prop :=
  match o with
  | .verb ⟨ctx, .register _⟩ => w.selfId ctx ≠ some id
  | .verb ⟨_, .close input⟩ => input.id ≠ id
  | .registerStanding _ input => standingId input.handle ≠ id
  | _ => True

def OpEntry.records (e : OpEntry) (id : String) : Option String :=
  match e.call with
  | .verb ⟨ctx, .recordConversation session⟩ =>
    (e.before.converses ctx session).bind fun found => if found.1.id = id then some found.2 else none
  | _ => none

def recorded (id : String) (log : List OpEntry) : Option String :=
  log.foldl (fun last e => (e.records id).or last) none

def Remembers (launch conversation : Option String) (stored : Option AgentRecord) : Prop :=
  ∃ rec, stored = some rec ∧ rec.launch = launch ∧ rec.conversation = conversation

/-- The line of a session that a call opens. -/
def Call.line : Call → Option LaunchLine
  | .openSession _ _ line _ => some line
  | .createInWorkspace _ line => some line
  | _ => none

def lines (tr : List (Call × Choice)) : List LaunchLine := tr.filterMap (·.1.line)

/-- The command that resumes the conversation, if its launch and its harness can. -/
def resumes (rec : AgentRecord) (launch : String) : Option String :=
  (given rec.conversation).bind (resumeLaunch (rec.harness.getD "") launch)

section
variable {A : Call → Choice → Prop} {w w' : World} {o : Operation} {id : String} {old new : Option AgentRecord}
variable {launch conversation : Option String} {tr : List (Call × Choice)}

/-! ## One operation -/

theorem change_remembers (hget : w.agents.get id ≠ none) (hmeet : KeepsUnit id w o tr)
    (ho : ∀ ctx session, o ≠ .verb ⟨ctx, .recordConversation session⟩) (h : Change A w o id old new)
    (hold : Remembers launch conversation old) : Remembers launch conversation new := by
  obtain ⟨rec, rfl, hlaunch, hconversation⟩ := hold
  cases h with
  | seen rec t => exact ⟨_, rfl, hlaunch, hconversation⟩
  | converses ctx session rec c h => exact absurd h (ho ctx session)
  | exits rec hprunable => exact ⟨_, rfl, hlaunch, hconversation⟩
  | registers ctx input old rec' h hwho hrec =>
    subst h
    unfold Registers at hwho
    cases hself : w.selfId ctx with
    | none => rw [hself] at hwho; exact absurd hwho.1 hget
    | some self => rw [hself] at hwho; exact absurd (hself.trans (congrArg some hwho.symm)) hmeet
  | halts rec hruntime => exact ⟨_, rfl, hlaunch, hconversation⟩
  | binds rec pane t hruntime => exact ⟨_, rfl, hlaunch, hconversation⟩
  | reaps ctx input rec h hid hkind =>
    subst h
    exact absurd hid hmeet
  | refreshes ctx input old rec' h hid hrec =>
    subst h
    exact absurd hid.symm hmeet
  | presents rec presence h hkind => exact ⟨_, rfl, hlaunch, hconversation⟩

theorem converses_remembers {ctx : Ctx} {session : Option String} (h : Converses w ctx session w')
    (hold : Remembers launch conversation (w.agents.get id)) :
    Remembers launch ((((w.converses ctx session).bind fun found => if found.1.id = id then some found.2 else none)).or
      conversation) (w'.agents.get id) := by
  obtain ⟨rec, hget, hlaunch, hconversation⟩ := hold
  unfold Converses at h
  split at h
  · next hnone => rw [hnone, h.agents]; exact ⟨rec, hget, hlaunch, hconversation⟩
  next found c hfound =>
  rw [hfound, Option.bind_some]
  obtain ⟨hstored, h⟩ := h
  by_cases hid : found.id = id
  · rw [if_pos hid, Option.some_or]
    rw [hid, hget] at hstored
    cases hstored
    rcases h with ⟨hsame, h⟩ | h
    · rw [h.agents]
      exact ⟨rec, hget, hlaunch, hsame⟩
    · rw [h.agents, if_pos hid.symm]
      exact ⟨_, rfl, hlaunch, rfl⟩
  · rw [if_neg hid, Option.none_or]
    rcases h with ⟨-, h⟩ | h
    · rw [h.agents]
      exact ⟨rec, hget, hlaunch, hconversation⟩
    · rw [h.agents, if_neg (Ne.symm hid)]
      exact ⟨rec, hget, hlaunch, hconversation⟩

theorem run_remembers {cs : List Choice} {r : Except HubError (Option AgentRecord)}
    (hmeet : KeepsUnit id w o (trace handle o.prog cs w)) (h : run handle o.prog cs w = some (r, w'))
    (hold : Remembers launch conversation (w.agents.get id)) :
    Remembers launch ((OpEntry.records ⟨o, trace handle o.prog cs w, r, w, w'⟩ id).or conversation)
    (w'.agents.get id) := by
  have hget : w.agents.get id ≠ none := by
    obtain ⟨rec, hget, -⟩ := hold
    rw [hget]; exact Option.some_ne_none rec
  by_cases ho : ∃ ctx session, o = .verb ⟨ctx, .recordConversation session⟩
  · obtain ⟨ctx, session, rfl⟩ := ho
    refine converses_remembers ?_ hold
    have hends : Ends (fun _ _ => True) (Operation.prog (.verb ⟨ctx, .recordConversation session⟩))
        (fun _ w' => Converses w ctx session w') w := ends_returned recordConversation_converses
    exact wp_run hends (fun _ _ => trivial) h
  · have hnone : OpEntry.records ⟨o, trace handle o.prog cs w, r, w, w'⟩ id = none := by
      unfold OpEntry.records
      split
      · next ctx session heq => exact absurd ⟨ctx, session, heq⟩ ho
      · rfl
    rw [hnone, Option.none_or]
    refine star_inv (moves_run h id).agents (fun old new hchange hold => ?_) hold
    exact change_remembers hget hmeet (fun ctx session heq => ho ⟨ctx, session, heq⟩) hchange hold

end

/-! ## What a restart launches -/

section
variable {α β : Type} {A : Call → Choice → Prop} {w : World} {s : World × List (Call × Choice)} {ctx : Ctx}
variable {rec : AgentRecord} {ref : String} {pane : Option String}

theorem lines_snoc {tr : List (Call × Choice)} {op : Call} {c : Choice} :
    lines (tr ++ [(op, c)]) = lines tr ++ op.line.toList := by
  rw [lines, List.filterMap_append]
  cases hline : op.line with
  | none => rw [List.filterMap_cons_none (by exact hline)]; rfl
  | some line => rw [List.filterMap_cons_some (by exact hline)]; rfl

theorem lineless_of_reads (op : Call) (h : op.reads = true) : op.line = none := by
  cases op with
  | openSession | createInWorkspace => cases h
  | _ => rfl

theorem lineless_perform {op : Call} (h : op.line = none) : (perform op).Only (·.line = none) := only_perform h

theorem lineless_asks {p : HubM α} (h : p.Only (·.asks)) : p.Only (·.line = none) :=
  h.mono fun op hop => lineless_of_reads op (reads_of_asks op hop)

theorem lineless_putAgent : (Store.putAgent rec).Only (·.line = none) := only_putAgent rfl

theorem lineless_markStopped : (markStopped rec pane).Only (·.line = none) := by
  unfold markStopped
  refine lineless_putAgent.bind fun _ => ?_
  cases pane with
  | none => trivial
  | some pane => exact ⟨rfl, fun _ => trivial⟩

theorem lineless_stopRuntime : (stopRuntime rec).Only (·.line = none) := by
  have hmark : ∀ pane verified, (do return { agent := ← markStopped rec pane, pane, verified } : HubM Stopped).Only
      (·.line = none) := fun pane verified => lineless_markStopped.bind fun _ => trivial
  have hpane : (runtimePane rec).Only (·.line = none) := by
    unfold runtimePane
    split
    · trivial
    · exact ⟨rfl, fun _ => trivial⟩
  have hadapter : (paneAdapter rec).Only (·.line = none) := by
    unfold paneAdapter
    split
    · trivial
    · exact ⟨rfl, fun _ => trivial⟩
  unfold stopRuntime
  refine hpane.bind fun found => ?_
  cases given found with
  | none => exact hmark none false
  | some pane =>
    refine hadapter.bind fun adapter => ?_
    cases adapter with
    | none => exact hmark (some pane) false
    | some mux => exact ⟨rfl, fun _ => ⟨rfl, fun _ => only_refuse.bind fun _ => hmark _ _⟩⟩

theorem lines_bind {p : HubM α} {f : α → HubM β} {Q : Except HubError α → World → Prop}
    {R : Except HubError β → World × List (Call × Choice) → Prop} (hp : p.Only (·.line = none)) (hq : Ends A p Q s.1)
    (hok : ∀ a t, Q (.ok a) t.1 → lines t.2 = lines s.2 → wp (logged handle) A (fun _ _ => True) (f a) R t)
    (herr : ∀ e t, R (.error e) t) : wp (logged handle) A (fun _ _ => True) (p >>= f) R s := by
  have hlines : wp (logged handle) A (fun _ _ => True) p (fun _ t => lines t.2 = lines s.2) s := by
    refine wp_only (I := fun t : World × List (Call × Choice) => lines t.2 = lines s.2) hp
      (fun op c t r t' hop ht hr => ?_) (fun _ _ _ _ => trivial) rfl
    obtain ⟨w', -, rfl⟩ := logged_cases hr
    rw [lines_snoc, hop, Option.toList_none, List.append_nil]
    exact ht
  refine (wp_bind p f).mpr (wp_mono (wp_weaken (wp_and (wp_lift hq) hlines) fun _ _ _ => trivial) fun r t h => ?_)
  cases r with
  | ok a => exact hok a t h.1 h.2
  | error e => exact herr e t

theorem ends_any {p : HubM α} : Ends A p (fun _ _ => True) w :=
  wp_only (I := fun _ => True) p.only_true (fun _ _ _ _ _ _ _ _ => trivial) (fun _ _ _ _ => trivial) trivial

theorem lines_then {p : HubM α} {f : α → HubM β} {R : Except HubError β → World × List (Call × Choice) → Prop}
    (hp : p.Only (·.line = none))
    (hok : ∀ a t, lines t.2 = lines s.2 → wp (logged handle) A (fun _ _ => True) (f a) R t)
    (herr : ∀ e t, R (.error e) t) : wp (logged handle) A (fun _ _ => True) (p >>= f) R s :=
  lines_bind hp ends_any (fun a t _ ht => hok a t ht) herr

/-- The line that opening the stopped unit's session again types. -/
def againLine (ctx : Ctx) (rec : AgentRecord) (command : String) (resume : Option String) : LaunchLine :=
  composeLaunchLine ctx rec.id (resume.getD command) true (resume.map fun _ => command)

/-- Where the part answers, it has opened one session, with that line. -/
def OpensOne (line : LaunchLine) (l : List LaunchLine) (r : Except HubError α)
    (t : World × List (Call × Choice)) : Prop :=
  ∀ a, r = .ok a → lines t.2 = l ++ [line]

theorem openAgain_lines {command : String} {resume : Option String} :
    wp (logged handle) A (fun _ _ => True) (openAgain ctx rec command resume)
      (OpensOne (againLine ctx rec command resume) (lines s.2)) s := by
  have hbrief : ∀ place : Placement, (if place = .workspace then perform (.readBrief rec.id) else pure none).Only
      (·.line = none) := by
    intro place
    split
    · exact ⟨rfl, fun _ => trivial⟩
    · trivial
  have hselect : selectSessionAdapter.Only (·.line = none) :=
    asks_selectSessionAdapter.mono fun op h => lineless_of_reads op (reads_of_asks op h)
  refine lines_then hselect (fun mux t ht => ?_) fun e t a h => by cases h
  refine lines_then (hbrief _) (fun brief t' ht' => ?_) fun e t a h => by cases h
  refine ⟨trivial, fun c r t'' _ hr => ?_⟩
  obtain ⟨w', -, rfl⟩ := logged_cases hr
  cases r with
  | none => exact fun a h => by cases h
  | some pane =>
    refine fun a _ => ?_
    rw [lines_snoc, ht', ht]
    rfl

theorem openStopped_lines {launch : String} (hlaunch : rec.launch = some launch) :
    wp (logged handle) A (fun _ _ => True) (openStopped ctx rec (rec.harness.getD "") false)
      (OpensOne (againLine ctx rec launch (resumes rec launch)) (lines s.2)) s := by
  unfold openStopped
  refine (wp_bind _ _).mpr ((wp_tryCatch _ _).mpr ?_)
  rw [← bind_pure_comp, hlaunch]
  refine (wp_bind _ _).mpr (wp_mono openAgain_lines fun r t ht => ?_)
  cases r with
  | error e => exact fun a h => by cases h
  | ok opened => exact fun a _ => ht opened rfl

theorem startStopped_lines {launch : String} {previous : Option String} (hlaunch : rec.launch = some launch) :
    wp (logged handle) A (fun _ _ => True) (startStopped ctx rec previous false)
      (OpensOne (againLine ctx rec launch (resumes rec launch)) (lines s.2)) s := by
  unfold startStopped
  refine (wp_bind _ _).mpr (wp_mono (openStopped_lines hlaunch) fun r t ht => ?_)
  cases r with
  | error e => exact fun a h => by cases h
  | ok opened =>
    have ht := ht opened rfl
    refine lines_then (only_nowIso rfl) (fun now t₁ h₁ => ?_) fun e t a h => by cases h
    refine lines_then lineless_putAgent (fun _ t₂ h₂ => ?_) fun e t a h => by cases h
    refine lines_then (only_perform rfl) (fun _ t₃ h₃ => ?_) fun e t a h => by cases h
    intro a _
    rw [h₃, h₂, h₁, ht]

/-- A restart that answers has opened one session: with the unit's launch, resuming the
unit's conversation where that launch and the harness can. -/
theorem restart_lines {launch : String} (hn : s.1.named ref = some rec) (hlaunch : rec.launch = some launch) :
    wp (logged handle) A (fun _ _ => True) (restartUnit ctx ref false)
      (OpensOne (againLine ctx rec launch (resumes rec launch)) (lines s.2)) s := by
  have hresolve : (resolveAgent ref).Only (·.line = none) := by
    unfold resolveAgent
    refine (lineless_perform rfl).bind fun found => ?_
    cases found with
    | some rec => trivial
    | none => exact (lineless_perform rfl).bind fun agents => only_resolveAmong.mono fun _ h => h.elim
  have hrefusals : (assertRestarts ctx rec ref).Only (·.line = none) := by
    unfold assertRestarts assertHasRuntime assertNotSelf
    refine only_refuse.bind fun _ => ((lineless_asks asks_resolveSelfId).bind fun _ => only_refuse).bind fun _ => ?_
    exact only_refuse.bind fun _ => (lineless_perform rfl).bind fun _ => only_refuse
  have hstop : (stopFirst rec).Only (·.line = none) := by
    unfold stopFirst
    split
    · trivial
    · exact lineless_stopRuntime.bind fun _ => trivial
  have hstopped : ∀ w, Ends A (stopFirst rec) (fun r _ => ∀ stopped, r = .ok stopped → stopped.1 = rec ∨
      stopped.1 = rec.halted) w := by
    intro w
    unfold stopFirst
    split
    · exact fun stopped h => by cases h; exact .inl rfl
    · refine ends_bind stopRuntime_writes (fun res w' h => ?_) fun e w' _ stopped h => by cases h
      rcases h with ⟨-, e, h⟩ | ⟨res', old, hres, hagent, -⟩
      · cases h
      · cases hres
        exact fun stopped h => by cases h; exact .inr hagent
  have hfound : Ends A (resolveAgent ref) (fun r _ => r = .ok rec) s.1 :=
    wp_narrow ((resolveAgent_answers (fun _ _ _ => trivial) hn _).mpr rfl) fun _ _ _ => trivial
  unfold restartUnit
  refine lines_bind hresolve hfound (fun found t hfound ht => ?_) fun e t a h => by cases h
  cases hfound
  refine lines_then hrefusals (fun _ t₁ h₁ => ?_) fun e t a h => by cases h
  refine lines_bind hstop (hstopped _) (fun stopped t₂ h h₂ => ?_) fun e t a h => by cases h
  obtain ⟨stopped, previous⟩ := stopped
  rw [← ht, ← h₁, ← h₂]
  rcases h _ rfl with h | h
  · have h : stopped = rec := h
    subst h
    exact startStopped_lines hlaunch
  · have h : stopped = rec.halted := h
    subst h
    exact startStopped_lines hlaunch

end

/-! ## Every run -/

/-- The unit is registered with its launch and the conversation last recorded, and a
restart that is not fresh opens one session with these. -/
def KeepsLaunch (input : SpawnInput) (id : String) (s : OpRun) : Prop :=
  ∃ rec, s.state.agents.get id = some rec ∧ rec.launch = input.launch ∧ rec.conversation = recorded id s.log ∧
    ∀ launch ctx ref cs res w', input.launch = some launch → s.state.named ref = some rec →
      run handle (restartUnit ctx ref false) cs s.state = some (.ok res, w') →
      lines (trace handle (restartUnit ctx ref false) cs s.state) =
        [againLine ctx rec launch ((given (recorded id s.log)).bind (resumeLaunch (rec.harness.getD "") launch))]

theorem recorded_snoc {id : String} {log : List OpEntry} {e : OpEntry} :
    recorded id (log ++ [e]) = (e.records id).or (recorded id log) := by
  rw [recorded, List.foldl_append]
  rfl

theorem Remembers.keepsLaunch {input : SpawnInput} {id : String} {s : OpRun}
    (h : Remembers input.launch (recorded id s.log) (s.state.agents.get id)) : KeepsLaunch input id s := by
  obtain ⟨rec, hget, hlaunch, hconversation⟩ := h
  refine ⟨rec, hget, hlaunch, hconversation, fun launch ctx ref cs res w' hinput hn hr => ?_⟩
  have hlines : wp (logged handle) (fun _ _ => True) _ (restartUnit ctx ref false) _ (s.state, []) :=
    restart_lines hn (hlaunch.trans hinput)
  have hend := wp_logged_run hlines (fun _ _ => trivial) hr res rfl
  rw [← hconversation]
  exact hend

/-- A unit keeps its launch and its conversation through every run in which nobody
registers as it. -/
theorem unit_keeps_launch (w w' : World) (ctx : Ctx) (input : SpawnInput) (cs : List Choice) (res : SpawnResult)
    (es : List OpEvent) (t : OpRun) (hspawn : run handle (spawn ctx input) cs w = some (.ok res, w'))
    (hmeet : AllSteps opStep (CallsMeet (KeepsUnit res.agent.id) handle Operation.prog) ⟨w', []⟩ es)
    (ht : exec opStep ⟨w', []⟩ es = some t) : KeepsLaunch input res.agent.id t := by
  refine Remembers.keepsLaunch (exec_inv_of (s := (⟨w', []⟩ : OpRun))
    (I := fun u : OpRun => Remembers input.launch (recorded res.agent.id u.log) (u.state.agents.get res.agent.id))
    ?_ ?_ hmeet ht)
  · intro u ev u' hu hcall hstep
    rcases opStep_cases hstep with ⟨hlog, hsame⟩ | ⟨o, os, r, rfl, hlog, hr⟩
    · rw [hlog, hsame.agents]; exact hu
    · rw [hlog, recorded_snoc]
      exact run_remembers hcall hr hu
  · have hwrites : SpawnWrites (fun _ _ => True) w ctx input (.ok res) w' :=
      wp_run spawn_writes (fun _ _ => trivial) hspawn
    rcases hwrites with ⟨-, e, h⟩ | ⟨res', pane, h, -, -, hrec, hwrote⟩
    · cases h
    · cases h
      refine ⟨res.agent, ?_, hrec.launch, hrec.conversation⟩
      rw [hwrote.agents, if_pos rfl]

def spawnA1 : SpawnInput := { harness := some "claude", brief := some "work", cwd := some "/w" }

def answersA1 : List Choice :=
  [{}, { mux := .tmux }, { text := some "a1" }, { text := some "/p" }, {}, { text := some "%1" }, {}, {}, {}, {}, {}]

def callerIn (pane : String) : Ctx := { env := { currentPane := some (.tmux, pane), CLAUDECODE := "1" } }

def hookRecords : OpEvent := .call (.verb ⟨callerIn "%1", .recordConversation (some "c1")⟩) [{}, {}, {}]

def unitRefreshes : OpEvent := .call (.verb ⟨callerIn "%1", .register {}⟩) [{}, {}, {}, {}, {}, {}, {}, {}]

theorem unit_keeps_recorded : ∃ res w' t, run handle (spawn (callerIn "%0") spawnA1) answersA1 { dirs := ["/w"] } =
      some (.ok res, w') ∧
    exec opStep ⟨w', []⟩ [hookRecords] = some t ∧ KeepsLaunch spawnA1 res.agent.id t := by
  have hstate : ((run handle (spawn (callerIn "%0") spawnA1) answersA1 { dirs := ["/w"] }).bind fun p =>
      p.1.toOption.bind fun _ =>
        exec opStep ⟨p.2, []⟩ [hookRecords]).isSome := by
    decide +kernel
  obtain ⟨t, ht⟩ := Option.isSome_iff_exists.mp hstate
  obtain ⟨⟨r, w'⟩, hspawn, ht⟩ := Option.bind_eq_some_iff.mp ht
  obtain ⟨res, hres, ht⟩ := Option.bind_eq_some_iff.mp ht
  cases r with
  | error e => cases hres
  | ok a =>
    cases hres
    have hmeet : AllSteps opStep (CallsMeet (KeepsUnit res.agent.id) handle Operation.prog) ⟨w', []⟩ [hookRecords] :=
      ⟨trivial, fun _ _ => trivial⟩
    exact ⟨res, w', t, hspawn, ht, unit_keeps_launch _ w' _ _ _ res _ t hspawn hmeet ht⟩

theorem refresh_drops_launch : ∃ res w' t, run handle (spawn (callerIn "%0") spawnA1) answersA1 { dirs := ["/w"] } =
      some (.ok res, w') ∧
    exec opStep ⟨w', []⟩ [unitRefreshes] = some t ∧ ¬KeepsLaunch spawnA1 res.agent.id t := by
  have hstate : ((run handle (spawn (callerIn "%0") spawnA1) answersA1 { dirs := ["/w"] }).bind fun p =>
      p.1.toOption.bind fun res =>
        (exec opStep ⟨p.2, []⟩ [unitRefreshes]).map fun t =>
          (t.state.agents.get res.agent.id).map (·.launch)) = some (some none) := by
    decide +kernel
  obtain ⟨⟨r, w'⟩, hspawn, ht⟩ := Option.bind_eq_some_iff.mp hstate
  obtain ⟨res, hres, ht⟩ := Option.bind_eq_some_iff.mp ht
  obtain ⟨t, ht, hlaunch⟩ := Option.map_eq_some_iff.mp ht
  cases r with
  | error e => cases hres
  | ok a =>
    cases hres
    refine ⟨res, w', t, hspawn, ht, fun ⟨rec, hget, hkept, _⟩ => ?_⟩
    rw [hget, Option.map_some, hkept] at hlaunch
    cases hlaunch

end Cyberlegion
