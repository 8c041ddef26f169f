import Mathlib.Logic.Relation
import Cyberlegion.VerbSpec

/-!
# What the verbs that keep the registry do

Last-seen and the conversation, reconcile and prune, spawn and register: how each
ends, and what it writes.
-/

namespace Cyberlegion

open Effects Runs

/-! ## Last-seen, reconcile and prune -/

/-- A touch writes nothing, or when the caller was last seen. -/
def Touches (w w' : World) : Prop :=
  Same w w' ∨ ∃ rec lastSeen, w.agents.get rec.id = some rec ∧ Wrote w rec.id (some { rec with lastSeen }) none none w'

def World.self (w : World) (ctx : Ctx) : Option AgentRecord := (w.selfId ctx).bind w.agents.get

/-- The conversation that the hook has to record, with the record of the caller. -/
def World.converses (w : World) (ctx : Ctx) (session : Option String) : Option (AgentRecord × String) :=
  (w.self ctx).bind fun rec => if rec.kind.hasRuntime then (given session).map (rec, ·) else none

/-- The hook records the conversation of the caller, if there is one and it is not recorded yet. -/
def Converses (w : World) (ctx : Ctx) (session : Option String) (w' : World) : Prop :=
  match w.converses ctx session with
  | none => Same w w'
  | some (rec, id) => w.agents.get rec.id = some rec ∧
    (rec.conversation = some id ∧ Same w w' ∨ Wrote w rec.id (some { rec with conversation := some id }) none none w')

/-- One step of a reconcile or a prune: a stored record is marked exited, or a pane the
index names no record for is adopted. -/
inductive Sweep (w w' : World) : Prop
  | same (h : Same w w')
  | exits {rec : AgentRecord} (hget : w.agents.get rec.id = some rec) (hprunable : isPrunable rec = true)
      (h : Wrote w rec.id (some { rec with status := .exited }) none none w')
  | adopts {rec : AgentRecord} {id pane : String} (hid : rec.id = id) (hnew : w.agents.get id = none)
      (hkind : rec.kind = .session) (htrim : jsTrim id = id) (hpane : rec.pane.map (·.id) = some pane)
      (hworktree : rec.worktree = none)
      (hunbound : ∀ other, w.resolvePaneId pane = some other → w.agents.get other = none)
      (h : Wrote w id (some rec) none (some pane) w')

abbrev Sweeps : World → World → Prop := Relation.ReflTransGen Sweep

section
variable {β : Type} {A : Call → Choice → Prop} {w w' : World} {ctx : Ctx} {recs : List AgentRecord}

theorem touch_touches : Ends A (touch ctx) (fun _ w' => Touches w w') w := by
  unfold touch
  refine (resolveSelfId_answers fun _ _ _ => trivial).bind_of ?_
  cases w.selfId ctx with
  | none => exact .inl Same.rfl
  | some id =>
    show Ends A (if id ≠ "" then bumpLastSeen id else pure ()) _ w
    split
    · unfold bumpLastSeen
      refine ends_getAgent ?_
      cases hget : w.agents.get id with
      | none => exact .inl Same.rfl
      | some rec =>
        refine ends_nowIso (fun t => wp_mono putAgent_writes fun r w' h => ?_) fun e => .inl Same.rfl
        rw [← Filed.key_of_get hget] at hget
        exact h.imp_right fun h => ⟨rec, t, hget, h⟩
    · exact .inl Same.rfl

theorem recordConversation_converses {session : Option String} :
    Ends A (recordConversation ctx session) (fun _ w' => Converses w ctx session w') w := by
  have hnone : ∀ {w' : World}, w.converses ctx session = none → Same w w' → Converses w ctx session w' := by
    intro w' hnone hsame
    rw [Converses, hnone]
    exact hsame
  unfold recordConversation
  cases hsession : given session with
  | none =>
    refine hnone ?_ Same.rfl
    rw [World.converses, hsession]
    cases w.self ctx with
    | none => rfl
    | some rec => exact ite_self none
  | some id =>
    refine (resolveSelfId_answers fun _ _ _ => trivial).bind_of ?_
    cases hself : w.selfId ctx with
    | none =>
      refine hnone ?_ Same.rfl
      rw [World.converses, World.self, hself]
      rfl
    | some meId =>
      have hrec : w.self ctx = w.agents.get meId := by rw [World.self, hself, Option.bind_some]
      cases hgiven : given (some meId) with
      | none =>
        -- no record is filed under an empty id
        have hempty : meId = "" := by_contra fun hne => by rw [given_eq_some.mpr ⟨rfl, hne⟩] at hgiven; cases hgiven
        refine hnone ?_ Same.rfl
        rw [World.converses, hrec]
        cases hget : w.agents.get meId with
        | none => rfl
        | some rec =>
          have hsafe := Filed.valid_of_get hget
          rw [Filed.key_of_get hget, hempty] at hsafe
          cases hsafe
      | some meId' =>
        obtain ⟨hme, -⟩ := given_eq_some.mp hgiven
        cases hme
        refine ends_getAgent ?_
        cases hget : w.agents.get meId with
        | none =>
          refine hnone ?_ Same.rfl
          rw [World.converses, hrec, hget]
          rfl
        | some rec =>
          have hfiled := Filed.key_of_get hget
          have hsafe := Filed.valid_of_get hget
          have hconv : w.converses ctx session = if rec.kind.hasRuntime then some (rec, id) else none := by
            rw [World.converses, hrec, hget, Option.bind_some, hsession, Option.map_some]
          rw [← hfiled] at hget
          show Ends A (if _ then _ else _) _ w
          by_cases hruntime : rec.kind.hasRuntime = true
          · rw [if_pos hruntime] at hconv
            by_cases hsame : rec.conversation = some id
            · rw [if_pos (.inr hsame)]
              show Converses w ctx session w
              rw [Converses, hconv]
              exact ⟨hget, .inl ⟨hsame, Same.rfl⟩⟩
            · rw [if_neg (by rw [not_or, not_not]; exact ⟨hruntime, hsame⟩)]
              unfold Store.putAgent
              rw [if_pos hsafe]
              refine wp_perform.mpr ⟨trivial, fun c r w' _ hr => ?_⟩
              simp only [handle, dif_pos hsafe] at hr
              cases hr
              rw [Converses, hconv]
              exact ⟨hget, .inr (@wrote_put _ { rec with conversation := some id } hsafe)⟩
          · rw [if_neg hruntime] at hconv
            rw [if_pos (.inl hruntime)]
            exact hnone hconv Same.rfl

def Listed (w : World) (recs : List AgentRecord) : Prop :=
  recs.Pairwise (fun rec rec' => rec.id ≠ rec'.id) ∧ ∀ rec ∈ recs, w.agents.get rec.id = some rec

theorem listed_list : Listed w (Registry.list w.agents) := ⟨Registry.list_pairwise, fun _ h => Registry.mem_list.mp h⟩

theorem Listed.same (h : Listed w recs) (hsame : Same w w') : Listed w' recs :=
  ⟨h.1, fun rec hrec => by rw [hsame.agents]; exact h.2 rec hrec⟩

theorem Listed.tail {rec : AgentRecord} (h : Listed w (rec :: recs)) : Listed w recs :=
  ⟨(List.pairwise_cons.mp h.1).2, fun rec hrec => h.2 rec (List.mem_cons_of_mem _ hrec)⟩

theorem ends_markExited {rec : AgentRecord} (h : Listed w (rec :: recs)) (hprunable : isPrunable rec = true)
    {f : AgentRecord → HubM β} {Q : Except HubError β → World → Prop}
    (hok : ∀ w', Sweep w w' → Listed w' recs → Ends A (f { rec with status := .exited }) Q w')
    (herr : ∀ e, Q (.error e) w) : Ends A (markExited rec >>= f) Q w := by
  unfold markExited
  rw [bind_assoc]
  refine ends_putAgent (fun w' hw' => ?_) herr
  have hhead := h.2 rec List.mem_cons_self
  refine hok w' (.exits hhead hprunable hw') ⟨h.tail.1, fun rec' hrec' => ?_⟩
  rw [hw'.agents, if_neg ((List.pairwise_cons.mp h.1).1 rec' hrec').symm]
  exact h.tail.2 rec' hrec'

theorem cull_sweeps {mux : StorableMux} {panes : List LivePane} (h : Listed w recs) :
    Ends A (cull mux panes recs) (fun _ w' => Sweeps w w') w := by
  induction recs generalizing w with
  | nil => exact .refl
  | cons rec recs ih =>
    unfold cull
    split
    · next hcull =>
      refine ends_markExited h hcull.1 (fun w' hw' hrest => ?_) fun e => .refl
      refine (wp_bind _ _).mpr (wp_mono (ih hrest) fun r w'' hr => ?_)
      cases r <;> exact .head hw' hr
    · exact ih h.tail

theorem returns_paneGone {pane : Pane} {lists : PaneLists} : Returns A (paneGone pane lists) fun _ => True := by
  unfold paneGone
  refine returns_bind (P := fun _ => True) (returns_perform rfl fun _ _ _ _ _ _ => trivial) fun b _ => ?_
  cases b with
  | true => exact returns_ret trivial
  | false =>
    cases lists pane.mux with
    | some panes => exact returns_ret trivial
    | none =>
      refine returns_bind (P := fun _ => True) (returns_perform rfl fun _ _ _ _ _ _ => trivial) fun panes _ => ?_
      exact returns_ret trivial

theorem judge_sweeps {now : Int} {lists : PaneLists} (h : Listed w recs) :
    Ends A (judge now lists recs) (fun _ w' => Sweeps w w') w := by
  induction recs generalizing w lists with
  | nil => exact .refl
  | cons rec recs ih =>
    unfold judge
    split
    · next hprunable =>
      refine ends_returns (P := fun _ => True) ?_ (fun ⟨dead, lists'⟩ w₁ h₁ _ => ?_) fun e w₁ h₁ =>
        Relation.ReflTransGen.single (.same h₁)
      · split
        · exact returns_paneGone
        · exact returns_ret trivial
      · show Ends A (if dead = true then _ else _) _ w₁
        split
        · refine ends_markExited (h.same h₁) hprunable (fun w' hw' hrest => ?_)
            fun e => Relation.ReflTransGen.single (.same h₁)
          refine (wp_bind _ _).mpr (wp_mono (ih hrest) fun r w'' hr => ?_)
          cases r <;> exact .head (.same h₁) (.head hw' hr)
        · exact wp_mono (ih (h.tail.same h₁)) fun r w' hr => .head (.same h₁) hr
    · exact ih h.tail

theorem ends_randomId {f : String → HubM β} {Q : Except HubError β → World → Prop}
    (h : ∀ id, w.agents.get id = none → jsTrim id = id → Ends A (f id) Q w) : Ends A (perform .randomId >>= f) Q w := by
  refine ends_call fun c id w' _ hr => ?_
  simp only [handle] at hr
  split at hr
  · split at hr
    · next hid => cases hr; exact h _ hid.1 hid.2.1
    · cases hr
  · cases hr

theorem adopt_sweeps {agents : List AgentRecord} {panes : List LivePane} :
    Ends A (adopt agents panes) (fun _ w' => Sweeps w w') w := by
  induction panes generalizing w with
  | nil => exact .refl
  | cons pane panes ih =>
    unfold adopt
    cases harnessFromAgent pane.harness with
    | none => exact ih
    | some harness =>
      refine ends_read (fun _ => rfl) ?_
      refine (wp_bind _ _).mpr
        (wp_mono (Q := fun r w' => w' = w ∧ r = .ok ((w.resolvePaneId pane.id).bind w.agents.get))
        ?_ ?_)
      · cases w.resolvePaneId pane.id with
        | none => exact ⟨rfl, rfl⟩
        | some id => exact wp_perform.mpr ⟨trivial, fun c r w' _ hr => by cases hr; exact ⟨rfl, rfl⟩⟩
      rintro r w' ⟨rfl, rfl⟩
      show Ends A (if _ then _ else _) _ w'
      split
      · exact ih
      · next hfree =>
        refine ends_randomId fun id hnew htrim => ends_nowIso (fun t => ?_) fun e => .refl
        refine ends_putAgent (fun w₁ h₁ => ends_bindPane h₁ fun w₂ h₂ => ?_) fun e => .refl
        have hsweep : Sweep w' w₂ := by
          refine .adopts ?_ hnew ?_ htrim ?_ ?_ (fun other hother => ?_) h₂
          · rfl
          · rfl
          · rfl
          · rfl
          · rw [not_or, hother, Option.bind_some, Option.not_isSome_iff_eq_none] at hfree
            exact hfree.1
        refine (wp_bind _ _).mpr (wp_mono ih fun r w'' hr => ?_)
        cases r <;> exact .head hsweep hr

theorem reconcile_sweeps {adopts : Bool} : Ends A (reconcile ctx adopts) (fun _ w' => Sweeps w w') w := by
  unfold reconcile
  cases storablePane ctx.env with
  | none => exact .refl
  | some cur =>
    refine ends_call fun c panes w₁ _ hr => ?_
    obtain ⟨rfl, -⟩ := listPanes_cases hr
    split
    · exact .refl
    · refine ends_read (fun _ => rfl) ?_
      refine ends_bind (R := fun _ w' => Sweeps w₁ w') (cull_sweeps listed_list) (fun changed w₂ h₂ => ?_)
        fun e w₂ h₂ => h₂
      split
      · refine ends_read (fun _ => rfl) ?_
        refine ends_bind (R := fun _ w' => Sweeps w₁ w') ?_ (fun _ w₃ h₃ => h₃) fun e w₃ h₃ => h₃
        exact wp_mono adopt_sweeps fun r w₃ h₃ => h₂.trans h₃
      · exact h₂

theorem prune_sweeps : Ends A (prune ctx) (fun _ w' => Sweeps w w') w := by
  unfold prune
  refine ends_call fun c now w₁ _ hr => ?_
  cases hr
  refine ends_bind (R := fun _ w' => Sweeps w w') reconcile_sweeps (fun changed w₂ h₂ => ?_) fun e w₂ h₂ => h₂
  refine ends_read (fun _ => rfl) ?_
  refine ends_bind (R := fun _ w' => Sweeps w w') ?_ (fun _ w₃ h₃ => h₃) fun e w₃ h₃ => h₃
  exact wp_mono (judge_sweeps listed_list) fun r w₃ h₃ => h₂.trans h₃
end

/-! ## Spawn and register -/

/-- The directory a new worktree was made in. -/
def creates : Call → Choice → Option String
  | .createWorktree dir, c => if c.ok then some dir else none
  | .createInWorkspace dir _, c => c.text.map fun _ => dir
  | _, _ => none

def Creates (A : Call → Choice → Prop) (dir : String) : Prop := ∃ op c, A op c ∧ creates op c = some dir

section
variable {A : Call → Choice → Prop} {w w' : World} {ctx : Ctx} {input : SpawnInput} {rec : AgentRecord}

/-- A worktree without a lease is one this spawn made, at the path it was given. -/
def OwnWorktree (A : Call → Choice → Prop) (ctx : Ctx) (input : SpawnInput) (worktree : Worktree) : Prop :=
  worktree.lease = none → ∃ dir, given input.worktreePath = some dir ∧ Creates A dir ∧
    worktree.root = path.resolve ctx.cwd dir

theorem createWorktree_makes {atomic : Bool} {launch : LaunchLine} {primaryRoot dir : String} :
    Returns A (createWorktree ctx atomic launch primaryRoot dir) fun opened =>
      Creates A dir ∧ ∀ pane, opened = some pane → Opens A pane := by
  unfold createWorktree
  cases atomic with
  | true =>
    refine returns_bind (P := fun r => ∀ made, r = some made → Creates A dir ∧ Opens A made.2)
      (returns_perform rfl ?_) fun r hr => ?_
    · intro c r w w' hc h made hmade
      subst hmade
      simp only [handle] at h
      split at h
      · cases h
      · next htext =>
        split at h
        · cases h
        · cases h
          exact ⟨⟨_, c, hc, by rw [creates, htext]; rfl⟩, _, c, hc, htext⟩
    · cases r with
      | none => exact returns_throw
      | some made =>
        obtain ⟨hmade, hopens⟩ := hr made rfl
        refine returns_bind (P := fun _ => True) ?_
          fun _ _ => returns_ret ⟨hmade, fun pane h => by cases h; exact hopens⟩
        exact returns_refuse fun _ => trivial
  | false =>
    refine returns_bind (P := fun r => r = true → Creates A dir) (returns_perform rfl ?_) fun r hr => ?_
    · intro c r w w' hc h hok
      cases h
      exact ⟨_, c, hc, if_pos hok⟩
    · cases r with
      | true => exact returns_ret ⟨hr rfl, fun _ h => by cases h⟩
      | false => exact returns_throw

theorem acquireWorktree_makes {atomic : Bool} {launch : LaunchLine} {id branch primaryRoot : String} :
    Returns A (acquireWorktree ctx input atomic launch id branch primaryRoot) fun made =>
      OwnWorktree A ctx input made.worktree ∧ ∀ pane, made.opened = some pane → Opens A pane := by
  unfold acquireWorktree
  cases hpath : given input.worktreePath with
  | some dir =>
    refine returns_bind createWorktree_makes fun opened hopened => returns_ret ⟨fun _ => ?_, hopened.2⟩
    exact ⟨dir, hpath, hopened.1, rfl⟩
  | none =>
    refine returns_bind (P := fun _ => True) (returns_perform rfl fun _ _ _ _ _ _ => trivial) fun slot _ => ?_
    cases slot with
    | none => exact returns_throw
    | some slot =>
      refine returns_bind (P := fun opened => ∀ pane, opened = some pane → Opens A pane) ?_ fun opened hopened =>
        returns_ret ⟨nofun, hopened⟩
      split
      · exact returns_ret fun _ h => by cases h
      · exact returns_mono createWorktree_makes fun _ h => h.2

theorem asks_resolveSpawnBase {primaryRoot : String} {base : Option String} :
    (resolveSpawnBase primaryRoot base).Only (·.asks) := by
  have hgit : ∀ args, (perform (.exec "git" (["-C", primaryRoot] ++ args))).Only (·.asks) := fun args =>
    asks_perform rfl
  unfold resolveSpawnBase
  cases given base with
  | some base => trivial
  | none =>
    refine (hgit _).bind fun origin => ?_
    cases origin with
    | none => trivial
    | some _ =>
      refine (hgit _).bind fun fetched => ?_
      cases fetched with
      | none => trivial
      | some _ =>
        refine (hgit _).bind fun head => ?_
        cases given head <;> trivial

theorem openInWorktree_makes {mux : StorableMux} {launch : LaunchLine} {id : String} {primaryRoot : Option String} :
    Returns A (openInWorktree ctx input mux launch id primaryRoot) fun opened =>
      Opens A opened.pane ∧ ∀ worktree, opened.worktree = some worktree → OwnWorktree A ctx input worktree := by
  unfold openInWorktree
  cases primaryRoot with
  | none => exact returns_throw
  | some primaryRoot =>
    refine returns_bind (P := fun _ => True) ?_ fun _ _ => ?_
    · cases given input.worktreePath with
      | none => exact returns_ret trivial
      | some dir => exact returns_refuse fun _ => trivial
    refine returns_bind (returns_asks asks_resolveSpawnBase) fun base _ => ?_
    refine returns_bind acquireWorktree_makes fun made hmade => ?_
    refine returns_bind (P := fun _ => True) (returns_refuse fun _ => trivial) fun _ _ => ?_
    refine returns_bind (P := fun _ => True) (returns_perform rfl fun _ _ _ _ _ _ => trivial) fun _ _ => ?_
    refine returns_bind (P := Opens A) ?_
      fun pane hpane => returns_ret ⟨hpane, fun worktree h => by cases h; exact hmade.1⟩
    cases hopened : made.opened with
    | some pane => exact returns_ret (hmade.2 pane hopened)
    | none => exact openSession_opens

theorem openInCwd_opens {mux : StorableMux} {launch : LaunchLine} {dir : String} {primaryRoot : Option String} :
    Returns A (openInCwd ctx input mux launch dir primaryRoot) fun opened =>
      Opens A opened.pane ∧ opened.worktree = none := by
  unfold openInCwd
  refine returns_bind (P := fun _ => True) (returns_perform rfl fun _ _ _ _ _ _ => trivial) fun b _ => ?_
  cases b with
  | false => exact returns_throw
  | true =>
    refine returns_bind (P := fun _ => True) ?_ fun _ _ => ?_
    · cases primaryRoot with
      | none => exact returns_ret trivial
      | some root => exact returns_refuse fun _ => trivial
    · exact returns_bind openSession_opens fun pane hpane => returns_ret ⟨hpane, rfl⟩

/-- `input.command ?? LAUNCH_MAP[harness]` -/
def SpawnInput.launch (input : SpawnInput) : Option String := input.command.or (launchOf (input.harness.getD ""))

/-- The record of a new unit. -/
structure Enlists (A : Call → Choice → Prop) (ctx : Ctx) (input : SpawnInput) (rec : AgentRecord)
    (pane : Pane) : Prop where
  opens : Opens A pane.id
  pane : rec.pane = some pane
  kind : rec.kind = .session
  launch : rec.launch = input.launch
  conversation : rec.conversation = none
  worktree : rec.worktree = none ∨ given input.cwd = none ∧
    ∀ worktree, rec.worktree = some worktree → OwnWorktree A ctx input worktree

/-- A spawn writes nothing, or the record of the new unit and the index entry of its pane. -/
def SpawnWrites (A : Call → Choice → Prop) (w : World) (ctx : Ctx) (input : SpawnInput)
    (r : Except HubError SpawnResult)
    (w' : World) : Prop :=
  (Same w w' ∧ ∃ e, r = .error e) ∨ ∃ res pane, r = .ok res ∧ w.agents.get res.agent.id = none ∧
    jsTrim res.agent.id = res.agent.id ∧
    Enlists A ctx input res.agent pane ∧ Wrote w res.agent.id (some res.agent) none (some pane.id) w'

theorem asks_spawnPrimaryRoot : (spawnPrimaryRoot input).Only (·.asks) := by
  unfold spawnPrimaryRoot
  split
  · exact asks_perform rfl
  · split
    · refine (asks_perform rfl).bind fun root => ?_
      cases root <;> trivial
    · refine (asks_perform rfl).bind fun root => ?_
      cases root <;> trivial

theorem asks_resolveSelfId : (resolveSelfId ctx).Only (·.asks) := by
  unfold resolveSelfId
  split
  · exact asks_perform rfl
  · trivial

theorem asks_spawnedBy : (spawnedBy ctx).Only (·.asks) := by
  refine asks_resolveSelfId.bind fun self => ?_
  cases given self with
  | none => trivial
  | some _ => exact asks_resolveSelfId

theorem asks_assertSpawns : (assertSpawns input).Only (·.asks) :=
  only_refuse.bind fun _ => only_refuse.bind fun _ => only_refuse.bind fun _ => trivial

theorem assertSpawns_harness : Returns A (assertSpawns input) fun task => task.1 = input.harness.getD "" :=
  returns_bind (P := fun _ => True) (returns_refuse fun _ => trivial) fun _ _ =>
    returns_bind (P := fun _ => True) (returns_refuse fun _ => trivial) fun _ _ =>
      returns_bind (P := fun _ => True) (returns_refuse fun _ => trivial) fun _ _ => returns_ret rfl

theorem enlist_writes {mux : StorableMux} {id harness brief : String} {opened : Opened} :
    Ends A (enlist ctx input mux id harness brief opened)
    (fun r w' => (Same w w' ∧ ∃ e, r = .error e) ∨ ∃ res pane, r = .ok res ∧
      res.agent.id = id ∧ res.agent.pane = some pane ∧ pane.id = opened.pane ∧ res.agent.worktree = opened.worktree ∧
      res.agent.kind = .session ∧ res.agent.launch = input.command.or (launchOf harness) ∧
      res.agent.conversation = none ∧
      Wrote w id (some res.agent) none (some opened.pane) w') w := by
  unfold enlist
  refine ends_nowIso (fun t => ?_) fun e => .inl ⟨Same.rfl, e, rfl⟩
  refine ends_returns (returns_asks asks_spawnedBy) (fun parent w₁ h₁ _ => ?_) fun e w₁ h₁ => .inl ⟨h₁, e, rfl⟩
  refine ends_putAgent (fun w₂ h₂ => ends_bindPane h₂ fun w₃ h₃ => ends_call fun c r w₄ _ hr => ?_)
    fun e => .inl ⟨h₁, e, rfl⟩
  cases hr
  exact .inr ⟨_, _, rfl, rfl, rfl, rfl, rfl, rfl, rfl, rfl, h₁.wrote (h₃.same ⟨rfl, rfl, rfl⟩)⟩

theorem spawn_writes : Ends A (spawn ctx input) (SpawnWrites A w ctx input) w := by
  unfold spawn
  refine ends_returns (P := fun _ => True) (returns_perform rfl fun _ _ _ _ _ _ => trivial) (fun _ w₁ h₁ _ => ?_)
    fun e w₁ h₁ => .inl ⟨h₁, e, rfl⟩
  refine ends_returns (returns_asks asks_selectSessionAdapter) (fun mux w₂ h₂ _ => ?_)
    fun e w₂ h₂ => .inl ⟨h₁.trans h₂, e, rfl⟩
  have h₁₂ := h₁.trans h₂
  refine ends_returns assertSpawns_harness (fun task w₃ h₃ htask => ?_)
    fun e w₃ h₃ => .inl ⟨h₁₂.trans h₃, e, rfl⟩
  have h₁₃ := h₁₂.trans h₃
  refine ends_randomId fun id hnew htrim => ?_
  refine ends_returns (returns_asks asks_spawnPrimaryRoot) (fun root w₄ h₄ _ => ?_)
    fun e w₄ h₄ => .inl ⟨h₁₃.trans h₄, e, rfl⟩
  have h₁₄ := h₁₃.trans h₄
  refine ends_returns (P := fun opened => Opens A opened.pane ∧ (opened.worktree = none ∨ given input.cwd = none ∧
    ∀ worktree, opened.worktree = some worktree → OwnWorktree A ctx input worktree)) ?_
      (fun opened w₅ h₅ hopened => ?_)
    fun e w₅ h₅ => .inl ⟨h₁₄.trans h₅, e, rfl⟩
  · split
    · exact returns_mono openInCwd_opens fun _ h => ⟨h.1, .inl h.2⟩
    · next hcwd => exact returns_mono openInWorktree_makes fun _ h => ⟨h.1, .inr ⟨hcwd, h.2⟩⟩
  · refine wp_mono enlist_writes fun r w₆ h₆ => ?_
    have h₁₅ := h₁₄.trans h₅
    rcases h₆ with ⟨h₆, herr⟩ | ⟨res, pane, hr, hid, hpane, hkey, hworktree, hkind, hlaunch,
      hconversation, hwrote⟩
    · exact .inl ⟨h₁₅.trans h₆, herr⟩
    · refine .inr ⟨res, pane, hr, ?_, ?_, ⟨?_, hpane, hkind, ?_, hconversation, ?_⟩, ?_⟩
      · rw [hid, ← h₁₃.agents]; exact hnew
      · rw [hid]; exact htrim
      · rw [hkey]; exact hopened.1
      · rw [hlaunch, htask]; rfl
      · rw [hworktree]; exact hopened.2
      · rw [hid, hkey]; exact h₁₅.wrote hwrote

end

section
variable {A : Call → Choice → Prop} {w w' : World} {ctx : Ctx} {input : RegisterInput} {rec : AgentRecord}

theorem reads_detectHarness {explicit : Option String} : (detectHarness ctx explicit).Only (·.reads) := by
  have hnone : (detectHarness ctx none).Only (·.reads) := by
    unfold detectHarness
    simp only
    split
    · trivial
    split
    · trivial
    split
    · trivial
    split
    · exact (reads_perform rfl).bind fun _ => Prog.only_ret _
    · trivial
  cases explicit with
  | none => exact hnone
  | some h =>
    unfold detectHarness
    simp only
    split
    · split <;> trivial
    · exact hnone

theorem gitWorktree_root : Returns A gitWorktree fun r => ∀ wt, r = some wt → wt.lease = none ∧ ∃ c,
    A (.exec "git" ["rev-parse", "--show-toplevel"]) c ∧ c.text = some wt.root ∧ wt.root ≠ "" := by
  unfold gitWorktree
  refine returns_bind (P := fun r => ∀ root, r = some root →
    ∃ c, A (.exec "git" ["rev-parse", "--show-toplevel"]) c ∧ c.text = some root)
    (returns_perform rfl ?_) fun r hr => ?_
  · intro c r w w' hc h root hroot
    cases h
    exact ⟨c, hc, hroot⟩
  split
  · exact returns_ret fun _ h => by cases h
  · exact returns_ret fun _ h => by cases h
  · next root hne =>
    refine returns_bind (P := fun _ => True) (returns_perform rfl fun _ _ _ _ _ _ => trivial) fun branch _ => ?_
    refine returns_bind (P := fun _ => True) (returns_perform rfl fun _ _ _ _ _ _ => trivial) fun primary _ => ?_
    refine returns_ret fun wt h => ?_
    cases h
    obtain ⟨c, hc, htext⟩ := hr root rfl
    exact ⟨rfl, c, hc, htext, hne⟩

/-- A worktree record keeps its root and its lease through a refresh. -/
theorem keptWorktree_keeps {wt : Worktree} :
    Returns A (keptWorktree wt) fun kept => kept.root = wt.root ∧ kept.lease = wt.lease := by
  unfold keptWorktree
  split
  · exact returns_ret ⟨rfl, rfl⟩
  · refine returns_bind gitWorktree_root fun here _ => ?_
    split
    · split
      · exact returns_ret ⟨rfl, rfl⟩
      · exact returns_ret ⟨rfl, rfl⟩
    · exact returns_ret ⟨rfl, rfl⟩

/-- The worktree a registration records: the stored one, or the checkout git finds for the
caller's directory. -/
def RegistersWorktree (A : Call → Choice → Prop) (stored : Option Worktree) (worktree : Worktree) : Prop :=
  match stored with
  | some wt => worktree.root = wt.root ∧ worktree.lease = wt.lease
  | none => worktree.lease = none ∧ ∃ c, A (.exec "git" ["rev-parse", "--show-toplevel"]) c ∧
      c.text = some worktree.root

/-- The id the caller registers under: the one it resolves to, or a new one. -/
def Registers (w : World) (ctx : Ctx) (id : String) : Prop :=
  match w.selfId ctx with
  | some self => id = self
  | none => w.agents.get id = none ∧ jsTrim id = id

/-- The record of a registration; its launch and its conversation are not kept. -/
structure Registered (A : Call → Choice → Prop) (w : World) (ctx : Ctx) (rec : AgentRecord) : Prop where
  pane : rec.pane.map (fun q => (⟨q.mux, q.id⟩ : CurrentPane)) = storablePane ctx.env
  status : rec.status = .active
  kind : rec.kind = .session
  launch : rec.launch = none
  conversation : rec.conversation = none
  worktree : ∀ worktree, rec.worktree = some worktree → RegistersWorktree A ((w.self ctx).bind (·.worktree)) worktree

/-- A registration writes nothing, or the caller's record and the index entry of its pane. -/
def RegisterWrites (A : Call → Choice → Prop) (w : World) (ctx : Ctx) (w' : World) : Prop :=
  Same w w' ∨ ∃ id rec, Registers w ctx id ∧ rec.id = id ∧ Registered A w ctx rec ∧
    Wrote w id (some rec) none (rec.pane.map (·.id)) w'

theorem paneLocator_locates {cur : CurrentPane} {env : Env} :
    Returns A (paneLocator cur env) fun pane => (⟨pane.mux, pane.id⟩ : CurrentPane) = cur := by
  unfold paneLocator
  split
  · next h =>
    refine returns_bind (P := fun _ => True) (returns_perform rfl fun _ _ _ _ _ _ => trivial) fun _ _ => returns_ret ?_
    rw [← h]
  · next h =>
    refine returns_ret ?_
    rw [← h]

theorem register_writes : Ends A (register ctx input) (fun _ w' => RegisterWrites A w ctx w') w := by
  unfold register
  refine ends_returns (P := fun _ => True) (returns_perform rfl fun _ _ _ _ _ _ => trivial) (fun _ w₁ h₁ _ => ?_)
    fun e w₁ h₁ => .inl h₁
  refine ends_returns (returns_reads reads_detectHarness) (fun harness w₂ h₂ _ => ?_)
    fun e w₂ h₂ => .inl (h₁.trans h₂)
  have h₁₂ := h₁.trans h₂
  cases harness with
  | none => exact .inl h₁₂
  | some harness =>
    have hself : w₂.selfId ctx = w.selfId ctx := h₁₂.selfId
    refine (resolveSelfId_answers fun _ _ _ => trivial).bind_of ?_
    rw [hself]
    refine (wp_bind _ _).mpr (wp_mono (Q := fun r w' => w' = w₂ ∧ r = .ok (w.self ctx)) ?_ ?_)
    · unfold World.self
      cases w.selfId ctx with
      | none => exact ⟨rfl, rfl⟩
      | some id =>
        refine wp_perform.mpr ⟨trivial, fun c r w' _ hr => ?_⟩
        cases hr
        exact ⟨rfl, by rw [Option.bind_some, h₁₂.agents]⟩
    rintro r w' ⟨rfl, rfl⟩
    refine (wp_bind _ _).mpr (wp_mono (Q := fun r w'' => w'' = w' ∧ ∃ id, r = .ok id ∧ Registers w ctx id) ?_ ?_)
    · cases hid : w.selfId ctx with
      | none =>
        have hnone : w.self ctx = none := by rw [World.self, hid]; rfl
        rw [hnone]
        refine ends_randomId fun id hnew htrim => ⟨rfl, id, rfl, ?_⟩
        rw [Registers, hid]
        exact ⟨by rw [← h₁₂.agents]; exact hnew, htrim⟩
      | some id =>
        have hget : w.self ctx = w.agents.get id := by rw [World.self, hid]; rfl
        cases hrec : w.self ctx with
        | none => exact ⟨rfl, id, rfl, by rw [Registers, hid]⟩
        | some rec =>
          rw [hget] at hrec
          exact ⟨rfl, rec.id, rfl, by rw [Registers, hid]; exact Filed.key_of_get hrec⟩
    rintro r w'' ⟨rfl, id, rfl, hwho⟩
    refine ends_nowIso (fun t => ?_) fun e => .inl h₁₂
    refine ends_returns (P := fun r => ∀ worktree, r = some worktree →
      RegistersWorktree A ((w.self ctx).bind (·.worktree)) worktree) ?_ (fun worktree w₃ h₃ hworktree => ?_)
      fun e w₃ h₃ => .inl (h₁₂.trans h₃)
    · cases (w.self ctx).bind (·.worktree) with
      | none =>
        refine returns_mono gitWorktree_root fun r hr wt hwt => ?_
        obtain ⟨hlease, c, hc, htext, -⟩ := hr wt hwt
        exact ⟨hlease, c, hc, htext⟩
      | some wt =>
        show Returns A (some <$> keptWorktree wt) _
        rw [← bind_pure_comp]
        exact returns_bind keptWorktree_keeps fun kept hkept => returns_ret fun _ h => by cases h; exact hkept
    have h₁₃ := h₁₂.trans h₃
    refine ends_returns (P := fun pane => pane.map (fun q => (⟨q.mux, q.id⟩ : CurrentPane)) = storablePane ctx.env) ?_
      (fun pane w₄ h₄ hpane => ?_) fun e w₄ h₄ => .inl (h₁₃.trans h₄)
    · cases storablePane ctx.env with
      | none => exact returns_ret rfl
      | some cur =>
        show Returns A (some <$> paneLocator cur ctx.env) _
        rw [← bind_pure_comp]
        exact returns_bind paneLocator_locates fun q hq => returns_ret (congrArg some hq)
    have h₁₄ := h₁₃.trans h₄
    refine ends_putAgent (fun w₅ h₅ => ?_) fun e => .inl h₁₄
    have hend : ∀ rec w₆, Wrote w₄ id (some rec) none (pane.map (·.id)) w₆ → rec.id = id → rec.pane = pane →
        rec.status = .active → rec.kind = .session → rec.launch = none → rec.conversation = none →
        rec.worktree = worktree → RegisterWrites A w ctx w₆ := by
      intro rec w₆ h₆ hid hp hstatus hkind hlaunch hconversation hwt
      rw [← hwt] at hworktree
      rw [← hp] at hpane h₆
      exact .inr ⟨id, rec, hwho, hid, ⟨hpane, hstatus, hkind, hlaunch, hconversation, hworktree⟩, h₁₄.wrote h₆⟩
    cases hcur : storablePane ctx.env with
    | none =>
      rw [hcur, Option.map_eq_none_iff] at hpane
      subst hpane
      exact hend _ w₅ h₅ rfl rfl rfl rfl rfl rfl rfl
    | some cur =>
      rw [hcur] at hpane
      obtain ⟨q, rfl, rfl⟩ := Option.map_eq_some_iff.mp hpane
      exact ends_bindPane h₅ fun w₆ h₆ => hend _ w₆ h₆ rfl rfl rfl rfl rfl rfl rfl

end

end Cyberlegion
