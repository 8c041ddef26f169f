import Cyberlegion.RegistrySpec
import Cyberlegion.RuntimeFrame

/-!
# What a spawn leaves behind when it fails

A spawn that throws may have taken a worktree lease and opened a session. Once its
record is saved a close can give them back; before that nothing does.
-/

namespace Cyberlegion

open Effects

abbrev Trace := List (Call × Choice)

def session : Call → Choice → Option Pane
  | .openSession mux _ _ _, c => c.text.map fun id => { mux, id }
  | .createInWorkspace _ _, c => c.text.map fun id => { mux := .herdr, id }
  | _, _ => none

/-- The worktree that `create` makes: both ways of it throw rather than return without one. -/
def Made (ctx : Ctx) (tr : Trace) (primaryRoot dir : String) : Prop :=
  (∃ c, (Call.createWorktree dir, c) ∈ tr ∧ c.ok = true) ∨ ∃ launch c,
  (Call.createInWorkspace dir launch, c) ∈ tr ∧
    c.text.isSome = true ∧ path.resolve ctx.cwd c.root ≠ path.resolve ctx.cwd primaryRoot

/-- `libraryLeases.acquire` returned the lease, of an idle worktree or of the one made in the slot. -/
def Leased (ctx : Ctx) (tr : Trace) (lease : WorktreeLease) : Prop :=
  ∃ primaryRoot c slot, (Call.acquireWorktree primaryRoot lease.holder, c) ∈ tr ∧ c.slot = some slot ∧
    slot.leaseId = lease.leaseId ∧ (slot.reused = true ∨ Made ctx tr primaryRoot slot.worktree)

/-- The lease is granted and not given back. -/
def Held (ctx : Ctx) (tr : Trace) (lease : WorktreeLease) : Prop :=
  Leased ctx tr lease ∧ ∀ root c, (Call.releaseWorktree root lease, c) ∈ tr → c.ok = false

def Started (tr : Trace) (pane : Pane) : Prop := ∃ x ∈ tr, session x.1 x.2 = some pane

def World.namesLease (w : World) (lease : WorktreeLease) : Prop :=
  ∃ rec worktree, w.agents.get rec.id = some rec ∧ rec.worktree = some worktree ∧ worktree.lease = some lease

def World.namesPane (w : World) (pane : Pane) : Prop := ∃ rec, w.agents.get rec.id = some rec ∧ rec.pane = some pane

/-- Every lease still held and every session still running is on a record. -/
def LeaksNothing (ctx : Ctx) (tr : Trace) (w' : World) : Prop :=
  (∀ lease, Held ctx tr lease → w'.namesLease lease) ∧
    ∀ pane, Started tr pane → (pane.mux, pane.id) ∈ w'.live → w'.namesPane pane

/-- Nothing was granted that the registry did not name before. -/
def GrantsNothing (w : World) (ctx : Ctx) (tr : Trace) : Prop :=
  (∀ lease, Leased ctx tr lease → w.namesLease lease) ∧ ∀ pane, Started tr pane → w.namesPane pane

def Saved (tr : Trace) : Prop := ∃ rec c, (Call.putAgent rec, c) ∈ tr

/-- The writes to disk that throw when the disk refuses them. -/
def Call.mayThrow : Call → Bool
  | .ensureMarker _ | .putAgent _ | .putPaneIndex _ _ | .writeBrief _ _ => true
  | _ => false

/-- What is left of a program that ends in an exception here. -/
def throwsHere {α : Type} : HubM α → Bool
  | .throw _ => true
  | .call op _ => op.mayThrow
  | .ret _ => false

/-! ## Before the record is saved -/

/-- Nothing is saved or given back, and what was granted is `lease` and `pane` at most. -/
structure Spent (w : World) (lease : Option WorktreeLease) (pane : Option Pane) (s : World × Trace) : Prop where
  agents : s.1.agents = w.agents
  unsaved : ∀ x ∈ s.2, ∀ rec, x.1 ≠ .putAgent rec
  unreleased : ∀ x ∈ s.2, ∀ root lease, x.1 ≠ .releaseWorktree root lease
  live : ∀ x ∈ s.2, ∀ q, session x.1 x.2 = some q → (q.mux, q.id) ∈ s.1.live
  slots : ∀ x ∈ s.2, ∀ primaryRoot holder, x.1 = .acquireWorktree primaryRoot holder →
    ∀ slot, x.2.slot = some slot →
    lease = some { leaseId := slot.leaseId, holder }
  sessions : ∀ x ∈ s.2, ∀ q, session x.1 x.2 = some q → pane = some q

/-- The record is saved and bears all that was granted. -/
structure Recorded (s : World × Trace) (rec : AgentRecord) : Prop where
  saved : ∃ c, (Call.putAgent rec, c) ∈ s.2
  stored : s.1.agents.get rec.id = some rec
  slots : ∀ x ∈ s.2, ∀ primaryRoot holder, x.1 = .acquireWorktree primaryRoot holder →
    ∀ slot, x.2.slot = some slot →
    rec.worktree.bind (·.lease) = some { leaseId := slot.leaseId, holder }
  sessions : ∀ x ∈ s.2, ∀ q, session x.1 x.2 = some q → rec.pane = some q

/-- Where a spawn stands. -/
def Stands (w : World) (s : World × Trace) : Prop := (∃ lease pane, Spent w lease pane s) ∨ ∃ rec, Recorded s rec

/-- The calls that grant nothing and save nothing. -/
def Call.plain : Call → Bool
  | .createWorktree _ => true
  | op => op.asks

section
variable {w : World} {s s' : World × Trace} {lease : Option WorktreeLease} {pane : Option Pane} {ctx : Ctx}

theorem Spent.leaks_iff (h : Spent w lease pane s) : LeaksNothing ctx s.2 s.1 ↔ GrantsNothing w ctx s.2 := by
  have hlease : ∀ lease, s.1.namesLease lease ↔ w.namesLease lease := fun lease => by
    simp only [World.namesLease, h.agents]
  have hpane : ∀ pane, s.1.namesPane pane ↔ w.namesPane pane := fun pane => by
    simp only [World.namesPane, h.agents]
  constructor
  · rintro ⟨hleases, hsessions⟩
    refine ⟨fun lease hl => (hlease lease).mp (hleases lease ⟨hl, fun root c hc => ?_⟩), fun q hq => ?_⟩
    · exact absurd rfl (h.unreleased _ hc root lease)
    · obtain ⟨x, hx, hopens⟩ := hq
      exact (hpane q).mp (hsessions q ⟨x, hx, hopens⟩ (h.live x hx q hopens))
  · rintro ⟨hleases, hsessions⟩
    exact ⟨fun lease hl => (hlease lease).mpr (hleases lease hl.1), fun q hq _ => (hpane q).mpr (hsessions q hq)⟩

theorem Recorded.leaks {rec : AgentRecord} (h : Recorded s rec) : LeaksNothing ctx s.2 s.1 := by
  refine ⟨fun lease ⟨hleased, _⟩ => ?_, fun q ⟨x, hx, hq⟩ _ => ⟨rec, h.stored, h.sessions x hx q hq⟩⟩
  obtain ⟨primaryRoot, c, slot, hc, hslot, hid, -⟩ := hleased
  obtain ⟨worktree, hworktree, hlease⟩ :=
    Option.bind_eq_some_iff.mp (h.slots _ hc primaryRoot lease.holder rfl slot hslot)
  refine ⟨rec, worktree, h.stored, hworktree, ?_⟩
  rw [hlease, hid]

theorem Spent.not_saved (h : Spent w lease pane s) : ¬Saved s.2 :=
  fun ⟨rec, _, hc⟩ => absurd rfl (h.unsaved _ hc rec)

end

/-! ## The calls of a spawn -/

/-- The program stands right at each of its calls, and ends in `Q` or in an exception
where it stands right. -/
def Ledger {α : Type} (w : World) (p : HubM α) (Q : α → World × Trace → Prop) (s : World × Trace) : Prop :=
  wp (logged handle) (fun _ _ => True) (fun _ s' => Stands w s') p (fun r s' =>
    match r with
    | .ok a => Q a s'
    | .error _ => Stands w s') s

section
variable {α β : Type} {w : World} {s : World × Trace} {lease lease' : Option WorktreeLease} {pane pane' : Option Pane}
  {ctx : Ctx} {input : SpawnInput} {op : Call} {c : Choice}

theorem Spent.stands (h : Spent w lease pane s) : Stands w s := .inl ⟨lease, pane, h⟩

theorem Spent.add {w' : World} (h : Spent w lease pane s) (hagents : w'.agents = s.1.agents)
    (hlive : ∀ q ∈ s.1.live, q ∈ w'.live) (hput : ∀ rec, op ≠ .putAgent rec)
    (hrelease : ∀ root l, op ≠ .releaseWorktree root l)
    (hslot : ∀ primaryRoot holder, op = .acquireWorktree primaryRoot holder → ∀ slot, c.slot = some slot →
      lease' = some { leaseId := slot.leaseId, holder })
    (hsession : ∀ q, session op c = some q → pane' = some q ∧ (q.mux, q.id) ∈ w'.live)
    (hlease : ∀ l, lease = some l → lease' = some l) (hpane : ∀ q, pane = some q → pane' = some q) :
    Spent w lease' pane' (w', s.2 ++ [(op, c)]) := by
  have hmem : ∀ x ∈ s.2 ++ [(op, c)], x ∈ s.2 ∨ x = (op, c) := fun x hx =>
    (List.mem_append.mp hx).imp_right List.mem_singleton.mp
  refine ⟨hagents.trans h.agents, fun x hx rec => ?_, fun x hx root l => ?_, fun x hx q hq => ?_,
    fun x hx primaryRoot holder hop slot hs => ?_, fun x hx q hq => ?_⟩
  · rcases hmem x hx with hx | rfl
    · exact h.unsaved x hx rec
    · exact hput rec
  · rcases hmem x hx with hx | rfl
    · exact h.unreleased x hx root l
    · exact hrelease root l
  · rcases hmem x hx with hx | rfl
    · exact hlive _ (h.live x hx q hq)
    · exact (hsession q hq).2
  · rcases hmem x hx with hx | rfl
    · exact hlease _ (h.slots x hx primaryRoot holder hop slot hs)
    · exact hslot primaryRoot holder hop slot hs
  · rcases hmem x hx with hx | rfl
    · exact hpane _ (h.sessions x hx q hq)
    · exact (hsession q hq).1

theorem Spent.plain {r : op.Res} {s' : World × Trace} (h : Spent w lease pane s) (hop : op.plain = true)
    (hr : logged handle op c s = some (r, s')) : Spent w lease pane s' := by
  obtain ⟨w', hdo, rfl⟩ := logged_cases hr
  have hsame : w'.agents = s.1.agents ∧ w'.live = s.1.live := by
    unfold Call.plain at hop
    split at hop
    · cases hdo
      split <;> exact ⟨rfl, rfl⟩
    · rw [handle_reads (reads_of_asks _ hop) hdo]
      exact ⟨rfl, rfl⟩
  refine h.add hsame.1 (fun q hq => hsame.2 ▸ hq) ?_ ?_ ?_ ?_ (fun _ hl => hl) fun _ hq => hq
  · rintro rec rfl
    cases hop
  · rintro root l rfl
    cases hop
  · rintro primaryRoot holder rfl
    cases hop
  · intro q hq
    cases op <;> first | cases hq | cases hop

theorem ledger_bind {p : HubM α} {f : α → HubM β} {R : α → World × Trace → Prop}
    {Q : β → World × Trace → Prop}
    (hp : Ledger w p R s) (hf : ∀ a s', R a s' → Ledger w (f a) Q s') : Ledger w (p >>= f) Q s := by
  refine (wp_bind p f).mpr (wp_mono hp fun r s' h => ?_)
  cases r with
  | ok a => exact hf a s' h
  | error e => exact h

theorem ledger_ret {a : α} {Q : α → World × Trace → Prop} (h : Q a s) : Ledger w (pure a) Q s := h

theorem ledger_plain {p : HubM α} (hp : p.Only (·.plain)) (h : Spent w lease pane s) :
    Ledger w p (fun _ s' => Spent w lease pane s') s := by
  refine wp_mono (wp_only hp (I := Spent w lease pane) (fun op c s₁ r s₂ hop hs hr => hs.plain hop hr)
    (fun _ _ _ hs => hs.stands) h) fun r s' hs => ?_
  cases r with
  | ok a => exact hs
  | error e => exact hs.stands

theorem plain_of_asks (op : Call) (h : op.asks = true) : op.plain = true := by
  unfold Call.plain
  split
  · rfl
  · exact h

theorem ledger_asks {p : HubM α} (hp : p.Only (·.asks)) (h : Spent w lease pane s) :
    Ledger w p (fun _ s' => Spent w lease pane s') s := ledger_plain (hp.mono plain_of_asks) h

theorem asks_distinct {dir primaryRoot : String} : (assertDistinctFromPrimary ctx dir primaryRoot).Only (·.asks) :=
  only_refuse

theorem Spent.opens {w' : World} (h : Spent w lease none s)
    (hop : (∃ mux cwd launch place, op = .openSession mux cwd launch place) ∨ ∃ dir launch,
      op = .createInWorkspace dir launch)
    (hagents : w'.agents = s.1.agents) (hlive : ∀ q ∈ s.1.live, q ∈ w'.live)
    (hnew : ∀ q, session op c = some q → (q.mux, q.id) ∈ w'.live) :
    Spent w lease (session op c) (w', s.2 ++ [(op, c)]) := by
  refine h.add hagents hlive (fun rec heq => ?_) (fun root l heq => ?_) (fun root holder heq => ?_)
    (fun q hq => ⟨hq, hnew q hq⟩) (fun _ hl => hl) fun _ hq => by cases hq
  all_goals
    subst heq
    rcases hop with ⟨mux, cwd, launch, place, hop⟩ | ⟨dir, launch, hop⟩ <;> cases hop

theorem ledger_openSession {mux : StorableMux} {cwd : String} {launch : LaunchLine} {place : Placement}
    (h : Spent w lease none s) :
    Ledger w (openSession mux cwd launch place) (fun id s' => Spent w lease (some { mux, id }) s') s := by
  refine ⟨h.stands, fun c r s' _ hr => ?_⟩
  obtain ⟨w', hdo, rfl⟩ := logged_cases hr
  simp only [handle] at hdo
  split at hdo
  · next htext =>
    cases hdo
    refine Spent.stands (h.opens (c := c) (.inl ⟨mux, cwd, launch, place, rfl⟩) rfl (fun _ hq => hq) fun q hq => ?_)
    rw [session, htext] at hq
    cases hq
  · next id htext =>
    split at hdo
    · cases hdo
    · cases hdo
      have hs : Spent w lease (session (.openSession mux cwd launch place) c) (s.1.opened mux id launch, _) := h.opens
        (.inl ⟨mux, cwd, launch, place, rfl⟩) rfl (fun _ hq => List.mem_cons_of_mem _ hq)
        fun q hq => by rw [session, htext] at hq; cases hq; exact List.mem_cons_self
      rw [session, htext] at hs
      exact hs

theorem ledger_createWorktree {atomic : Bool} {launch : LaunchLine} {primaryRoot dir : String}
    (h : Spent w lease none s) : Ledger w (createWorktree ctx atomic launch primaryRoot dir) (fun opened s' =>
      (opened.isSome = true → atomic = true) ∧ Spent w lease (opened.map fun id => { mux := .herdr, id }) s') s := by
  unfold createWorktree
  cases atomic with
  | true =>
    refine ⟨h.stands, fun c r s' _ hr => ?_⟩
    obtain ⟨w', hdo, rfl⟩ := logged_cases hr
    simp only [handle] at hdo
    split at hdo
    · next htext =>
      cases hdo
      refine Spent.stands (h.opens (c := c) (.inr ⟨dir, launch, rfl⟩) rfl (fun _ hq => hq) fun q hq => ?_)
      rw [session, htext] at hq
      cases hq
    · next id htext =>
      split at hdo
      · cases hdo
      · cases hdo
        have hs : Spent w lease (session (.createInWorkspace dir launch) c)
            ({ s.1.opened .herdr id launch with dirs := c.root :: s.1.dirs }, _) :=
              h.opens (.inr ⟨dir, launch, rfl⟩) rfl
          (fun _ hq => List.mem_cons_of_mem _ hq)
          fun q hq => by rw [session, htext] at hq; cases hq; exact List.mem_cons_self
        rw [session, htext] at hs
        show Ledger w (assertDistinctFromPrimary ctx c.root primaryRoot >>= fun _ => pure (some id)) _ _
        exact ledger_bind (ledger_asks asks_distinct hs) fun _ _ hs => ⟨fun _ => rfl, hs⟩
  | false =>
    refine ledger_bind (ledger_plain (only_perform rfl) h) fun made s' hs => ?_
    cases made with
    | true => exact ⟨fun hsome => (by cases hsome), hs⟩
    | false => exact hs.stands

theorem ledger_acquireWorktree {atomic : Bool} {launch : LaunchLine} {id branch primaryRoot : String}
    (h : Spent w none none s) : Ledger w (acquireWorktree ctx input atomic launch id branch primaryRoot) (fun made s' =>
      (made.opened.isSome = true → atomic = true) ∧
      Spent w made.worktree.lease (made.opened.map fun id => { mux := .herdr, id }) s') s := by
  unfold acquireWorktree
  cases given input.worktreePath with
  | some dir => exact ledger_bind (ledger_createWorktree h) fun opened s' hs => ledger_ret hs
  | none =>
    refine ledger_bind (R := fun slot s' =>
      Spent w (slot.map fun slot => { leaseId := slot.leaseId, holder := "cyberlegion:" ++ id }) none s')
        ?_ fun slot s₁ h₁ => ?_
    · refine ⟨h.stands, fun c r s' _ hr => ?_⟩
      obtain ⟨w', hdo, rfl⟩ := logged_cases hr
      cases hdo
      refine h.add rfl (fun _ hq => hq) (fun rec hop => by cases hop) (fun root l hop => by cases hop)
        (fun root holder hop slot hs => ?_) (fun q hq => by cases hq) (fun l hl => by cases hl) fun q hq => by cases hq
      cases hop
      rw [hs, Option.map_some]
    · cases slot with
      | none => exact h₁.stands
      | some slot =>
        refine ledger_bind (R := fun opened s' => (opened.isSome = true → atomic = true) ∧ Spent w
          (some { leaseId := slot.leaseId, holder := "cyberlegion:" ++ id })
            (opened.map fun id => { mux := .herdr, id }) s')
          ?_ fun opened s' hs => ledger_ret hs
        split
        · exact ⟨fun hsome => (by cases hsome), h₁⟩
        · exact ledger_createWorktree h₁

theorem ledger_openInWorktree {mux : StorableMux} {launch : LaunchLine} {id : String} {primaryRoot : Option String}
    (h : Spent w none none s) : Ledger w (openInWorktree ctx input mux launch id primaryRoot) (fun opened s' =>
      Spent w (opened.worktree.bind (·.lease)) (some { mux, id := opened.pane }) s') s := by
  unfold openInWorktree
  cases primaryRoot with
  | none => exact h.stands
  | some primaryRoot =>
    refine ledger_bind (R := fun _ s' => Spent w none none s') ?_ fun _ s₁ h₁ => ?_
    · cases given input.worktreePath with
      | none => exact h
      | some dir => exact ledger_asks asks_distinct h
    refine ledger_bind (ledger_asks asks_resolveSpawnBase h₁) fun base s₂ h₂ => ?_
    refine ledger_bind (ledger_acquireWorktree h₂) fun made s₃ ⟨hatomic, h₃⟩ => ?_
    refine ledger_bind (ledger_asks asks_distinct h₃) fun _ s₄ h₄ => ?_
    refine ledger_bind (ledger_plain (only_perform rfl) h₄) fun _ s₅ h₅ => ?_
    refine ledger_bind (R := fun pane s' => Spent w made.worktree.lease (some { mux, id := pane }) s') ?_
      fun pane s₆ h₆ => ledger_ret h₆
    cases hopened : made.opened with
    | some pane =>
      -- only an atomic create has opened the session, and it is herdr's
      have hmux : mux = .herdr := (of_decide_eq_true (hatomic (by rw [hopened]; rfl))).2
      rw [hopened] at h₅
      rw [hmux]
      exact h₅
    | none =>
      rw [hopened] at h₅
      exact ledger_openSession h₅

theorem ledger_openInCwd {mux : StorableMux} {launch : LaunchLine} {dir : String} {primaryRoot : Option String}
    (h : Spent w none none s) : Ledger w (openInCwd ctx input mux launch dir primaryRoot) (fun opened s' =>
      Spent w (opened.worktree.bind (·.lease)) (some { mux, id := opened.pane }) s') s := by
  unfold openInCwd
  refine ledger_bind (ledger_asks (asks_perform rfl) h) fun present s₁ h₁ => ?_
  cases present with
  | false => exact h₁.stands
  | true =>
    refine ledger_bind (R := fun _ s' => Spent w none none s') ?_ fun _ s₂ h₂ => ?_
    · cases primaryRoot with
      | none => exact h₁
      | some root => exact ledger_asks asks_distinct h₁
    · exact ledger_bind (ledger_openSession h₂) fun pane s₃ h₃ => ledger_ret h₃

/-! ## Saving the record -/

theorem Recorded.add {rec : AgentRecord} {w' : World} (h : Recorded s rec) (hagents : w'.agents = s.1.agents)
    (hslot : ∀ primaryRoot holder, op ≠ .acquireWorktree primaryRoot holder) (hsession : session op c = none) :
    Recorded (w', s.2 ++ [(op, c)]) rec := by
  have hmem : ∀ x ∈ s.2 ++ [(op, c)], x ∈ s.2 ∨ x = (op, c) := fun x hx =>
    (List.mem_append.mp hx).imp_right List.mem_singleton.mp
  obtain ⟨saved, hsaved⟩ := h.saved
  refine ⟨⟨saved, List.mem_append_left _ hsaved⟩, hagents ▸ h.stored, fun x hx root holder hop slot hs =>
    ?_, fun x hx q hq => ?_⟩
  · rcases hmem x hx with hx | rfl
    · exact h.slots x hx root holder hop slot hs
    · exact absurd hop (hslot root holder)
  · rcases hmem x hx with hx | rfl
    · exact h.sessions x hx q hq
    · rw [hsession] at hq
      cases hq

theorem ledger_putAgent {rec : AgentRecord} (h : Spent w (rec.worktree.bind (·.lease)) rec.pane s) :
    Ledger w (Store.putAgent rec) (fun _ s' => Recorded s' rec) s := by
  unfold Store.putAgent
  split
  · next hsafe =>
    refine ⟨h.stands, fun c r s' _ hr => ?_⟩
    obtain ⟨w', hdo, rfl⟩ := logged_cases hr
    simp only [handle, dif_pos hsafe] at hdo
    cases hdo
    have hmem : ∀ x ∈ s.2 ++ [(Call.putAgent rec, c)], x ∈ s.2 ∨ x = (Call.putAgent rec, c) := fun x hx =>
      (List.mem_append.mp hx).imp_right List.mem_singleton.mp
    refine ⟨⟨c, List.mem_append_right _ List.mem_cons_self⟩, Filed.get_put_self s.1.agents rec hsafe,
      fun x hx root holder hop slot hs => ?_,
      fun x hx q hq => ?_⟩
    · rcases hmem x hx with hx | rfl
      · exact h.slots x hx root holder hop slot hs
      · cases hop
    · rcases hmem x hx with hx | rfl
      · exact h.sessions x hx q hq
      · cases hq
  · exact h.stands

theorem ledger_enlist {mux : StorableMux} {id harness brief : String} {opened : Opened}
    (h : Spent w (opened.worktree.bind (·.lease)) (some { mux, id := opened.pane }) s) :
    Ledger w (enlist ctx input mux id harness brief opened) (fun _ s' => Stands w s') s := by
  unfold enlist
  refine ledger_bind (ledger_asks (only_nowIso rfl) h) fun t s₁ h₁ => ?_
  refine ledger_bind (ledger_asks asks_spawnedBy h₁) fun parent s₂ h₂ => ?_
  refine ledger_bind (ledger_putAgent h₂) fun _ s₃ h₃ => ⟨.inr ⟨_, h₃⟩, fun c r s₄ _ hr => ?_⟩
  obtain ⟨w₄, hdo, rfl⟩ := logged_cases hr
  cases hdo
  have h₄ : Recorded ({ s₃.1 with panes := s₃.1.panes.insert (sanitizePane opened.pane) id },
    s₃.2 ++ [(.putPaneIndex opened.pane id, c)]) _ := h₃.add rfl nofun rfl
  refine ⟨.inr ⟨_, h₄⟩, fun c r s₅ _ hr => ?_⟩
  obtain ⟨w₅, hdo, rfl⟩ := logged_cases hr
  cases hdo
  exact .inr ⟨_, h₄.add rfl nofun rfl⟩

theorem spent_start (w : World) : Spent w none none (w, []) := by
  refine ⟨rfl, ?_, ?_, ?_, ?_, ?_⟩
  all_goals intro x hx; cases hx

theorem ledger_spawn (h : Spent w none none s) : Ledger w (spawn ctx input) (fun _ s' => Stands w s') s := by
  unfold spawn
  refine ledger_bind (ledger_asks (asks_perform rfl) h) fun _ s₁ h₁ => ?_
  refine ledger_bind (ledger_asks asks_selectSessionAdapter h₁) fun mux s₂ h₂ => ?_
  refine ledger_bind (ledger_asks asks_assertSpawns h₂) fun task s₃ h₃ => ?_
  refine ledger_bind (ledger_asks (asks_perform rfl) h₃) fun id s₄ h₄ => ?_
  refine ledger_bind (ledger_asks asks_spawnPrimaryRoot h₄) fun root s₅ h₅ => ?_
  refine ledger_bind (R := fun opened s' => Spent w (opened.worktree.bind (·.lease))
    (some { mux, id := opened.pane }) s')
    ?_ fun opened s₆ h₆ => ledger_enlist h₆
  split
  · exact ledger_openInCwd h₅
  · exact ledger_openInWorktree h₅

end

/-- A spawn that throws leaks nothing exactly when it had saved its record, or had been
granted nothing. -/
theorem spawn_leaks_nothing_iff (w w' : World) (ctx : Ctx) (input : SpawnInput) (cs : List Choice)
    (q : HubM SpawnResult)
    (hrun : after handle (spawn ctx input) cs w = some (q, w')) (hthrows : throwsHere q = true) :
    LeaksNothing ctx (trace handle (spawn ctx input) cs w) w' ↔
      Saved (trace handle (spawn ctx input) cs w) ∨ GrantsNothing w ctx (trace handle (spawn ctx input) cs w) := by
  have hend := wp_after (ledger_spawn (spent_start w)) (fun _ _ => trivial) hrun
  rw [List.nil_append] at hend
  have hstands : Stands w (w', trace handle (spawn ctx input) cs w) := by
    cases q with
    | ret a => cases hthrows
    | throw e => exact hend
    | call op k => exact hend.1
  rcases hstands with ⟨lease, pane, hspent⟩ | ⟨rec, hrec⟩
  · rw [hspent.leaks_iff]
    exact ⟨.inr, fun h => h.resolve_left hspent.not_saved⟩
  · obtain ⟨c, hc⟩ := hrec.saved
    exact ⟨fun _ => .inl ⟨rec, c, hc⟩, fun _ => hrec.leaks⟩

def leasedSpawn : SpawnInput := { harness := some "claude", brief := some "work" }

def refusedSpawn : List Choice := [{}, { mux := .tmux }, { text := some "a1" }, { text := some "/r" }, {}, {}]

theorem spawn_refused_leaks_nothing : ∃ q w', after handle (spawn shell leasedSpawn) refusedSpawn {} = some (q, w') ∧
    LeaksNothing shell (trace handle (spawn shell leasedSpawn) refusedSpawn {}) w' := by
  have hends : ((after handle (spawn shell leasedSpawn) refusedSpawn {}).map fun q => throwsHere q.1) = some true := by
    decide +kernel
  have hslot : (trace handle (spawn shell leasedSpawn) refusedSpawn {}).all (fun x =>
      x.2.slot.isNone ∧ (session x.1 x.2).isNone) = true := by
    decide +kernel
  obtain ⟨⟨q, w'⟩, hrun, hthrows⟩ := Option.map_eq_some_iff.mp hends
  refine ⟨q, w', hrun, (spawn_leaks_nothing_iff _ _ _ _ _ q hrun hthrows).mpr
    (.inr ⟨fun lease h => ?_, fun pane h => ?_⟩)⟩
  · obtain ⟨primaryRoot, c, slot, hc, hs, -⟩ := h
    have hnone := (of_decide_eq_true (List.all_eq_true.mp hslot _ hc)).1
    rw [hs] at hnone
    cases hnone
  · obtain ⟨x, hx, hs⟩ := h
    have hnone := (of_decide_eq_true (List.all_eq_true.mp hslot x hx)).2
    rw [hs] at hnone
    cases hnone

def strandedSpawn : List Choice := [{}, { mux := .tmux }, { text := some "a1" }, { text := some "/r" }, {},
  { slot := some { worktree := "/r-1", leaseId := "l1", reused := true } }, {}, {}]

/-- The library grants a recycled worktree, and the session does not open. -/
theorem spawn_leaks_lease : ∃ q w', after handle (spawn shell leasedSpawn) strandedSpawn {} = some (q, w') ∧
    throwsHere q = true ∧ ¬LeaksNothing shell (trace handle (spawn shell leasedSpawn) strandedSpawn {}) w' := by
  have hends : ((after handle (spawn shell leasedSpawn) strandedSpawn {}).map fun q =>
      (throwsHere q.1, Registry.list q.2.agents)) = some (true, []) := by
    decide +kernel
  have hleased : (trace handle (spawn shell leasedSpawn) strandedSpawn {}).any (fun x =>
      match x.1 with
      | .acquireWorktree _ _ => x.2.slot.any (·.reused)
      | _ => false) = true := by
    decide +kernel
  have hkept : (trace handle (spawn shell leasedSpawn) strandedSpawn {}).any (fun x =>
      match x.1 with
      | .releaseWorktree _ _ => true
      | _ => false) = false := by
    decide +kernel
  obtain ⟨⟨q, w'⟩, hrun, hend⟩ := Option.map_eq_some_iff.mp hends
  obtain ⟨hthrows, hempty⟩ := Prod.mk.inj hend
  refine ⟨q, w', hrun, hthrows, fun hleaks => ?_⟩
  obtain ⟨⟨op, c⟩, hop, hreused⟩ := List.any_eq_true.mp hleased
  cases op with
  | acquireWorktree primaryRoot holder =>
    obtain ⟨slot, hslot, hreused⟩ := (Option.any_eq_true _ _).mp hreused
    obtain ⟨rec, worktree, hrec, -⟩ := hleaks.1 { leaseId := slot.leaseId, holder }
      ⟨⟨primaryRoot, c, slot, hop, hslot, rfl, .inl hreused⟩, fun root c' hc' =>
        absurd (List.any_eq_true.mpr ⟨_, hc', rfl⟩) (Bool.eq_false_iff.mp hkept)⟩
    have hmem := Registry.mem_list.mpr hrec
    rw [hempty] at hmem
    cases hmem
  | _ => cases hreused

end Cyberlegion
