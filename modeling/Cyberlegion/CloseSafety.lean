import Cyberlegion.RuntimeFrame

/-!
# What a close removes

A close asks for the removal of a worktree only past its refusals, changes nothing
when it fails, and leaves nothing of the unit when it succeeds.
-/

namespace Cyberlegion

open Effects Runs

/-- The worktree on disk that a close without `--keep-worktree` removes, with its unit. -/
def Removable (w : World) (input : DecommissionInput) (root : String) : Prop :=
  input.keepWorktree = false ∧ root ∈ w.dirs ∧ ∃ rec worktree, w.agents.get input.id = some rec ∧
    rec.kind ≠ .service ∧ rec.worktree = some worktree ∧ worktree.root = root ∧ worktree.lease = none

/-- What a close has established when it asks for the removal of a worktree. -/
structure Removal (A : Call → Choice → Prop) (w : World) (ctx : Ctx) (input : DecommissionInput) (root : String) :
    Prop where
  unit : Removable w input root
  primary : ∃ c primaryRoot, A (.primaryRoot (some root)) c ∧ c.text = some primaryRoot ∧
    (root ≠ "" → primaryRoot ≠ "" → path.resolve ctx.cwd root ≠ path.resolve ctx.cwd primaryRoot)
  clean : input.force = false → ∃ c, A (statusCall root) c ∧ Undirty c.text

def Removes (A : Call → Choice → Prop) (w : World) (ctx : Ctx) (input : DecommissionInput) (op : Call)
    (_ : World) : Prop :=
  ∀ root primaryRoot, op = .removeWorktree root primaryRoot → Removal A w ctx input root

def World.unbound (w : World) : Option String → Table String String
  | some key => w.panes.erase (sanitizePane key)
  | none => w.panes

/-- The record of the unit is gone, with its data, its mail and the pane entry it leaves. -/
structure Reaped (w : World) (rec : AgentRecord) (old : Option String) (w' : World) : Prop where
  leaves : ∀ key, old = some key → key ≠ "" ∧ w.leaves rec key
  found : old = none →
    (∃ q, rec.pane = some q ∧ q.id = "") ∨ w.paneText "" = some rec.id ∨ ∀ key, w.paneText key ≠ some rec.id
  agents : w'.agents = w.agents.erase rec.id
  briefs : w'.briefs = w.briefs.erase rec.id
  mailboxes : w'.mailboxes = w.mailboxes.erase rec.id
  panes : w'.panes = w.unbound old

/-- A close that fails changes nothing, and one that returns has reaped the unit. -/
def Closes (w : World) (input : DecommissionInput) (r : Except HubError DecommissionResult) (w' : World) : Prop :=
  match r with
  | .error _ => w' = w
  | .ok res => ∃ old, w.agents.get input.id = some res.agent ∧ Reaped w res.agent old w'

section
variable {A : Call → Choice → Prop} {w w₀ : World} {ctx : Ctx} {input : DecommissionInput} {rec : AgentRecord}

theorem removes_reads (op : Call) (w' : World) (h : op.reads = true) : Removes A w ctx input op w' := by
  rintro root primaryRoot rfl
  cases h

theorem removeWorktree_spec {present : Bool} {primaryRoot : Option String}
    {Q : Except HubError DecommissionResult → World → Prop}
    {f : Unit → HubM DecommissionResult} (hget : w.agents.get input.id = some rec)
    (hkind : rec.kind ≠ .service)
    (hdir : present = (rec.worktree.map fun worktree => decide (worktree.root ∈ w.dirs)).getD false)
    (hroot : AnsweredRoot A rec present primaryRoot) (hprimary : isPrimary ctx rec primaryRoot = false)
    (hclean : (present ∧ ¬input.keepWorktree ∧ ¬(rec.worktree.bind (·.lease)).isSome : Bool) = true →
      input.force = false →
      ∃ c, A (statusCall ((rec.worktree.map (·.root)).getD "")) c ∧ Undirty c.text)
    (hok : ∀ dirs, wp handle A (Removes A w ctx input) (f ()) Q { w with dirs }) (herr : ∀ e, Q (.error e) w) :
    wp handle A (Removes A w ctx input)
      (removeWorktree rec primaryRoot (present ∧ ¬input.keepWorktree ∧
        ¬(rec.worktree.bind (·.lease)).isSome : Bool) >>= f)
      Q w := by
  unfold removeWorktree
  cases hremoves : (present ∧ ¬input.keepWorktree ∧ ¬(rec.worktree.bind (·.lease)).isSome : Bool) with
  | false => exact hok w.dirs
  | true =>
    obtain ⟨hpres, hkeep, hheld⟩ := of_decide_eq_true hremoves
    cases hwt : rec.worktree with
    | none => exact hok w.dirs
    | some worktree =>
      rw [hremoves, hwt] at hclean
      rw [hwt, Option.bind_some, Option.not_isSome_iff_eq_none] at hheld
      refine ⟨fun root primary hop => ?_, fun c r w' _ hr => ?_⟩
      · cases hop
        obtain ⟨c, hc, htext, hsome⟩ := hroot.2 hpres worktree hwt
        obtain ⟨checkout, rfl⟩ := Option.isSome_iff_exists.mp hsome
        rw [hpres, hwt, Option.map_some, Option.getD_some] at hdir
        refine ⟨⟨Bool.eq_false_iff.mpr hkeep, of_decide_eq_true hdir.symm, rec, worktree, hget, hkind, hwt, rfl, hheld⟩,
          ⟨c, checkout, hc, htext, fun hne hne' hsame => ?_⟩, hclean rfl⟩
        have hprim : isPrimary ctx rec (some checkout) = true := by
          have hg : given (rec.worktree.map (·.root)) = some worktree.root := by
            rw [hwt]
            exact given_eq_some.mpr ⟨rfl, hne⟩
          have hg' : given (some checkout) = some checkout := given_eq_some.mpr ⟨rfl, hne'⟩
          simp only [isPrimary, hg, hg', Option.any_some, hsame, decide_true]
        rw [hprim] at hprimary
        cases hprimary
      · cases hr
        cases hok' : c.ok with
        | true => exact hok _
        | false => exact herr _

theorem closeEnd_reaps {id : String} {old : Option String} {res : DecommissionResult} :
    wp handle A (Removes A w ctx input) (do teardownPane old; reap id old; return res) (fun r w' =>
      r = .ok res ∧ w'.agents = w₀.agents.erase id ∧ w'.briefs = w₀.briefs.erase id ∧
      w'.mailboxes = w₀.mailboxes.erase id ∧ w'.panes = w₀.unbound old) w₀ := by
  have hother : ∀ {op : Call} {w' : World}, (∀ root primary, op ≠ .removeWorktree root primary) →
      Removes A w ctx input op w' :=
    fun h root primary hop => absurd hop (h root primary)
  have hreap : ∀ live, wp handle A (Removes A w ctx input) (do reap id old; return res) (fun r w' =>
      r = .ok res ∧ w'.agents = w₀.agents.erase id ∧ w'.briefs = w₀.briefs.erase id ∧
      w'.mailboxes = w₀.mailboxes.erase id ∧ w'.panes = w₀.unbound old) { w₀ with live } := by
    intro live
    refine ⟨hother (fun _ _ h => by cases h), fun c r w₁ _ hr => ?_⟩
    cases hr
    cases old with
    | none =>
      refine ⟨hother (fun _ _ h => by cases h), fun c r w₂ _ hr =>
        ⟨hother (fun _ _ h => by cases h), fun c r w₃ _ hr' => ?_⟩⟩
      cases hr
      cases hr'
      exact ⟨rfl, rfl, rfl, rfl, rfl⟩
    | some key =>
      refine ⟨hother (fun _ _ h => by cases h), fun c r w₂ _ hr => ⟨hother (fun _ _ h => by cases h),
        fun c r w₃ _ hr' => ⟨hother (fun _ _ h => by cases h), fun c r w₄ _ hr'' => ?_⟩⟩⟩
      cases hr
      cases hr'
      cases hr''
      exact ⟨rfl, rfl, rfl, rfl, rfl⟩
  unfold teardownPane
  cases old with
  | none => exact hreap w₀.live
  | some key =>
    refine ⟨hother (fun _ _ h => by cases h), fun c r w₁ _ hr => ?_⟩
    cases hr
    simp only [Prog.bind]
    cases c.mux.storable with
    | none => exact hreap w₀.live
    | some mux =>
      refine ⟨hother (fun _ _ h => by cases h), fun c r w₂ _ hr => ?_⟩
      cases hr
      cases c.ok with
      | true => exact hreap _
      | false => exact hreap w₀.live

theorem decommission_spec : wp handle A (Removes A w ctx input) (decommission ctx input) (Closes w input) w := by
  unfold decommission
  refine ⟨removes_reads _ _ rfl, fun c r w' _ hr => ?_⟩
  cases hr
  cases hget : w.agents.get input.id with
  | none => exact rfl
  | some rec =>
    refine ends_refuse (fun _ => rfl) fun hkind => ?_
    refine (existsRoot_answers removes_reads).bind_of ?_
    refine wp_reads reads_unitPrimaryRoot unitPrimaryRoot_answers removes_reads
      (fun primaryRoot hroot => ?_) fun e => rfl
    refine wp_reads reads_assertCloses assertCloses_passes removes_reads (fun _ hpass => ?_) fun e => rfl
    refine (wp_bind _ _).mpr (wp_mono (runtimePane_spec fun w' => removes_reads _ w' rfl) ?_)
    rintro r w' ⟨rfl, pane, rfl, hleaves, hrec, hnone⟩
    refine wp_reads reads_pruneGone (returns_reads reads_pruneGone) removes_reads (fun _ _ => ?_) fun e => rfl
    refine wp_reads reads_releaseLease (returns_reads reads_releaseLease) removes_reads
      (fun released _ => ?_) fun e => rfl
    refine removeWorktree_spec hget hkind rfl hroot hpass.1 hpass.2 (fun dirs => ?_) fun e => rfl
    refine wp_mono closeEnd_reaps ?_
    rintro r w'' ⟨rfl, hagents, hbriefs, hmail, hpanes⟩
    have hid := Filed.key_of_get hget
    refine ⟨given pane, hget, fun key hkey => ?_, fun hold => ?_, ?_, ?_, ?_, hpanes⟩
    · obtain ⟨rfl, hne⟩ := given_eq_some.mp hkey
      exact ⟨hne, hleaves key rfl⟩
    · cases hp : pane with
      | none => exact .inr (.inr (hnone hp))
      | some key =>
        have hempty : key = "" := by_contra fun hne => by rw [given_eq_some.mpr ⟨hp, hne⟩] at hold; cases hold
        subst hempty
        cases hq : rec.pane with
        | some q => exact .inl ⟨q, rfl, Option.some.inj ((hrec q hq).symm.trans hp)⟩
        | none =>
          have hkey := hleaves "" hp
          rw [World.leaves, hq] at hkey
          exact .inr (.inl hkey)
    · rw [hid]; exact hagents
    · rw [hid]; exact hbriefs
    · rw [hid]; exact hmail

/-! ## Unreported work -/

/-- A git status of the worktree was answered, and listed nothing but the marker. -/
def Reported (A : Call → Choice → Prop) (root : String) : Prop :=
  ∃ c listing, A (statusCall root) c ∧ c.text = some listing ∧
    ∀ line ∈ listing.splitOn "\n", line = "" ∨ line = "?? " ++ WORKTREE_MARKER

/-- Each removal of the trace is one that a close may make, forced or of a worktree
reported clean. -/
def RemovesReported (w : World) (ctx : Ctx) (input : DecommissionInput) (tr : List (Call × Choice)) : Prop :=
  ∀ root primaryRoot c, (Call.removeWorktree root primaryRoot, c) ∈ tr →
    Removal (fun op c => (op, c) ∈ tr) w ctx input root ∧
    (input.force = false → Reported (fun op c => (op, c) ∈ tr) root)

theorem splitOn_empty : "".splitOn "\n" = [""] := by
  unfold String.splitOn
  simp only [beq_iff_eq, String.reduceEq, if_false]
  unfold String.splitOnAux
  rfl

theorem undirty_reported {root listing : String} {c : Choice} (hc : A (statusCall root) c)
    (htext : c.text = some listing)
    (h : Undirty c.text) : Reported A root := by
  refine ⟨c, listing, hc, htext, fun line hline => ?_⟩
  by_cases hempty : listing = ""
  · subst hempty
    rw [splitOn_empty, List.mem_singleton] at hline
    exact .inl hline
  · exact h listing (given_eq_some.mpr ⟨htext, hempty⟩) line hline

theorem removal_of_trace {cs : List Choice} {root primaryRoot : String} {c : Choice}
    (h : (Call.removeWorktree root primaryRoot, c) ∈ trace handle (decommission ctx input) cs w) :
    Removal (fun op c => (op, c) ∈ trace handle (decommission ctx input) cs w) w ctx input root := by
  obtain ⟨_, hremoves⟩ := wp_trace
    (decommission_spec (A := fun op c => (op, c) ∈ trace handle (decommission ctx input) cs w)) (fun _ hx => hx) _ h
  exact hremoves root primaryRoot rfl

theorem mayIn_findPane (hA : ∀ c, A (.findPaneByAgentId rec.id) c) :
    ∃ pane, MayIn handle A (closePane rec) w (.ok pane) w := by
  unfold closePane
  cases rec.pane with
  | some q => exact ⟨some q.id, mayIn_ret _⟩
  | none =>
    by_cases hkey : w.panes.keys.any (fun key => w.paneText key = some rec.id) = true
    · obtain ⟨key, -, hkey⟩ := List.any_eq_true.mp hkey
      refine ⟨some key, mayIn_call (c := { text := some key }) (hA _) ?_ (mayIn_ret _)⟩
      simp only [handle, of_decide_eq_true hkey, if_true]
    · refine ⟨none, mayIn_call (c := {}) (hA _) ?_ (mayIn_ret _)⟩
      simp only [handle, if_neg hkey]

/-- Unforced, and answered by a git status that fails, a close asks for the removal. -/
theorem removable_removes {root : String} (hforce : input.force = false) (h : Removable w input root) :
    ∃ primaryRoot c, Makes handle (fun op c => ∀ root, op = statusCall root → c.text = none)
      (decommission ctx input) w (.removeWorktree root primaryRoot) c := by
  obtain ⟨hkeep, hdir, rec, worktree, hget, hkind, hwt, rfl, hlease⟩ := h
  obtain ⟨primaryRoot, hprimary⟩ := exists_not_primary
  refine ⟨primaryRoot, {}, ?_⟩
  unfold decommission
  refine MayIn.makes (mayIn_call (c := {}) (fun _ _ => rfl) (by rw [handle, hget]) (mayIn_ret _)) ?_
  refine MayIn.makes (t := w) (a := ()) ?_ ?_
  · unfold refuse
    rw [if_neg hkind]
    exact mayIn_ret ()
  refine MayIn.makes (t := w) (a := true) ?_ ?_
  · unfold existsRoot
    rw [hwt]
    exact mayIn_call (c := {}) (fun _ _ => rfl) rfl (by rw [decide_eq_true hdir]; exact mayIn_ret _)
  refine MayIn.makes (t := w) (a := some primaryRoot) ?_ ?_
  · unfold unitPrimaryRoot
    rw [hwt]
    exact mayIn_call (c := { text := some primaryRoot }) (fun _ h => by cases h) rfl (mayIn_ret _)
  have hremoves : (decide (true = true ∧ ¬input.keepWorktree = true ∧
      ¬(rec.worktree.bind (·.lease)).isSome = true)) = true := by
    refine decide_eq_true ⟨rfl, by rw [hkeep]; exact Bool.false_ne_true, ?_⟩
    rw [hwt, Option.bind_some, hlease]
    exact Bool.false_ne_true
  extract_lets held removesWorktree
  have hrm : removesWorktree = true := hremoves
  rw [hrm]
  refine MayIn.makes (t := w) (a := ()) ?_ ?_
  · unfold assertCloses refuse
    rw [hprimary, if_neg Bool.false_ne_true]
    refine MayIn.bind (mayIn_ret ()) (MayIn.bind (a := false) (t := w) ?_ (mayIn_ret ()))
    rw [if_pos ⟨rfl, by rw [hforce]; exact Bool.false_ne_true⟩]
    exact mayIn_call (c := {}) (fun _ _ => rfl) rfl (mayIn_ret _)
  obtain ⟨pane, hpane⟩ := mayIn_findPane (w := w)
    (A := fun op c => ∀ root, op = statusCall root → c.text = none) fun _ _ h => by cases h
  refine hpane.makes (MayIn.makes (t := w) (a := ()) ?_ (MayIn.makes (t := w) (a := false) ?_ ?_))
  · unfold pruneGone
    cases given (rec.worktree.map (·.root)) with
    | none => exact mayIn_ret ()
    | some _ => cases given (some primaryRoot) <;> exact mayIn_ret ()
  · unfold releaseLease
    simp only [hwt, hlease]
    exact mayIn_ret false
  · unfold removeWorktree
    rw [hwt]
    exact makes_call fun _ _ => rfl

/-- Whatever git answers the status with, a close reports what it removes exactly when
the status did not fail, the close is forced, or there is nothing to remove. -/
theorem close_removes_reported_iff (w : World) (ctx : Ctx) (input : DecommissionInput) (status : Option String) :
    (∀ cs, (∀ root c, (statusCall root, c) ∈ trace handle (decommission ctx input) cs w → c.text = status) →
      RemovesReported w ctx input (trace handle (decommission ctx input) cs w)) ↔
    status.isSome = true ∨ input.force = true ∨ ∀ root, ¬Removable w input root := by
  constructor
  · intro h
    by_contra hnot
    simp only [not_or, not_forall, not_not, Bool.not_eq_true, Option.isSome_eq_false_iff,
      Option.isNone_iff_eq_none] at hnot
    obtain ⟨rfl, hforce, root, hroot⟩ := hnot
    obtain ⟨primaryRoot, c, cs, hop, hA⟩ := removable_removes hforce hroot
    obtain ⟨c', listing, hc', htext, -⟩ := (h cs (fun root c hc => hA _ hc root rfl) root primaryRoot c hop).2 hforce
    rw [hA _ hc' root rfl] at htext
    cases htext
  · intro h cs hstatus root primaryRoot c hop
    have hremoval := removal_of_trace hop
    refine ⟨hremoval, fun hforce => ?_⟩
    obtain ⟨c', hc', hclean⟩ := hremoval.clean hforce
    rcases h with hsome | hforced | hnone
    · obtain ⟨listing, htext⟩ := Option.isSome_iff_exists.mp hsome
      exact undirty_reported hc' ((hstatus root c' hc').trans htext) hclean
    · rw [hforce] at hforced
      cases hforced
    · exact absurd hremoval.unit (hnone root)

end

def doneUnit : AgentRecord :=
  { id := "a1", handle := "unit", cwd := "/w", status := .exited, createdAt := 0, lastSeen := 0
    worktree := some { root := "/w", branch := some "unit" } }

def doneHub : World :=
  { agents := Filed.put .empty doneUnit (by decide), panes := (∅ : Table String String).insert "_1" "a1", dirs := ["/w"] }

/-- Git status fails, and the worktree goes. -/
theorem close_removes_unreported : ¬RemovesReported doneHub shell { id := "a1" } (trace handle
    (decommission shell { id := "a1" }) [{}, {}, { text := some "/" }, {}, { text := some "_1" }, {}] doneHub) := by
  intro h
  have hremoved : (trace handle (decommission shell { id := "a1" })
      [{}, {}, { text := some "/" }, {}, { text := some "_1" }, {}] doneHub).any (fun x =>
        match x.1 with
        | .removeWorktree _ _ => true
        | _ => false) = true := by
    decide +kernel
  have hfailed : (trace handle (decommission shell { id := "a1" })
      [{}, {}, { text := some "/" }, {}, { text := some "_1" }, {}] doneHub).any (fun x =>
        match x.1 with
        | .exec _ _ => x.2.text.isSome
        | _ => false) = false := by
    decide +kernel
  obtain ⟨⟨op, c⟩, hop, hremoves⟩ := List.any_eq_true.mp hremoved
  cases op with
  | removeWorktree root primaryRoot =>
    obtain ⟨c', listing, hc', htext, -⟩ := (h root primaryRoot c hop).2 rfl
    refine absurd (List.any_eq_true.mpr ⟨_, hc', ?_⟩) (Bool.eq_false_iff.mp hfailed)
    exact Option.isSome_iff_exists.mpr ⟨listing, htext⟩
  | _ => cases hremoves

/-! ## A close fails as a whole or succeeds as a whole -/

/-- A unit has one index entry at most, at the pane its record bears. No pane has an empty id. -/
structure WellIndexed (w : World) : Prop where
  tidy : Tidy w
  named : w.panes.lookup "" = none
  one : ∀ id key key', w.paneText key = some id → w.paneText key' = some id → key = key'
  own : ∀ rec q key, w.agents.get rec.id = some rec → rec.pane = some q → w.paneText key = some rec.id →
    key = sanitizePane q.id

/-- Nothing of the unit is left, and the other units keep what they had. -/
structure Gone (id : String) (w w' : World) : Prop where
  record : w'.agents.get id = none
  entry : ∀ key, w'.paneText key ≠ some id
  brief : w'.briefs.lookup id = none
  mailbox : w'.mailboxes.lookup id = none
  agents : ∀ x, x ≠ id → w'.agents.get x = w.agents.get x
  briefs : ∀ x, x ≠ id → w'.briefs.lookup x = w.briefs.lookup x
  mailboxes : ∀ x, x ≠ id → w'.mailboxes.lookup x = w.mailboxes.lookup x

section
variable {w w' : World} {rec : AgentRecord} {old : Option String}

theorem paneText_ne_empty (hw : WellIndexed w) {id : String} : w.paneText "" ≠ some id := by
  intro h
  rw [World.paneText, hw.named] at h
  cases h

theorem paneText_unbound {key pane : String} : ({ w with panes := w.unbound (some pane) } : World).paneText key =
    if key = sanitizePane pane then none else w.paneText key := by
  simp only [World.paneText, World.unbound, Table.lookup_erase_eq]
  split <;> rfl

theorem unbound_free (hw : WellIndexed w) (hget : w.agents.get rec.id = some rec) (h : Reaped w rec old w') :
    ∀ key, ({ w with panes := w.unbound old } : World).paneText key ≠ some rec.id := by
  intro key hkey
  cases old with
  | some pane =>
    obtain ⟨hne, hleaves⟩ := h.leaves pane rfl
    rw [paneText_unbound] at hkey
    by_cases hpane : key = sanitizePane pane
    · rw [if_pos hpane] at hkey
      cases hkey
    · rw [if_neg hpane] at hkey
      apply hpane
      unfold World.leaves at hleaves
      cases hq : rec.pane with
      | some q =>
        rw [hq] at hleaves
        subst hleaves
        exact hw.own rec q key hget hq hkey
      | none =>
        rw [hq] at hleaves
        have hsan : sanitizePane pane = pane := by
          refine hw.tidy pane fun hnone => ?_
          rw [World.paneText, hnone] at hleaves
          cases hleaves
        rw [hsan]
        exact hw.one rec.id key pane hkey hleaves
  | none =>
    have hkey : w.paneText key = some rec.id := hkey
    rcases h.found rfl with ⟨q, hq, hempty⟩ | hfound | hnone
    · have hown := hw.own rec q key hget hq hkey
      have hsan : sanitizePane "" = "" := by decide
      rw [hempty, hsan] at hown
      subst hown
      exact paneText_ne_empty hw hkey
    · exact paneText_ne_empty hw hfound
    · exact hnone key hkey

theorem Reaped.gone (hw : WellIndexed w) (hget : w.agents.get rec.id = some rec) (h : Reaped w rec old w') :
    Gone rec.id w w' where
  record := by rw [h.agents, Filed.get_erase_self]
  entry key := by
    have hfree := unbound_free hw hget h key
    rw [World.paneText] at hfree ⊢
    rw [h.panes]
    exact hfree
  brief := by rw [h.briefs, AList.lookup_erase]
  mailbox := by rw [h.mailboxes, AList.lookup_erase]
  agents x hx := by rw [h.agents, Filed.get_erase_ne hx]
  briefs x hx := by rw [h.briefs, AList.lookup_erase_ne hx]
  mailboxes x hx := by rw [h.mailboxes, AList.lookup_erase_ne hx]

end

/-- A close that throws leaves everything as it was, its pane included, and one that
returns leaves nothing of the unit. -/
theorem close_all_or_nothing (w w' : World) (ctx : Ctx) (input : DecommissionInput) (cs : List Choice)
    (r : Except HubError DecommissionResult) (hw : WellIndexed w)
    (hrun : run handle (decommission ctx input) cs w = some (r, w')) :
    match r with
    | .error _ => w' = w
    | .ok _ => Gone input.id w w' := by
  have hcloses := wp_run (decommission_spec (A := fun _ _ => True)) (fun _ _ => trivial) hrun
  cases r with
  | error e => exact hcloses
  | ok res =>
    obtain ⟨old, hget, hreaped⟩ := hcloses
    have hid := Filed.key_of_get hget
    rw [← hid] at hget ⊢
    exact hreaped.gone hw hget

theorem doneHub_indexed : WellIndexed doneHub := by
  have htext : ∀ {key id : String}, doneHub.paneText key = some id → key = "_1" ∧ id = "a1" := by
    intro key id h
    rw [World.paneText, doneHub, Table.lookup_insert_eq] at h
    by_cases hkey : key = "_1"
    · rw [if_pos hkey, Option.map_some, Option.some.injEq] at h
      subst h
      exact ⟨hkey, by decide +kernel⟩
    · rw [if_neg hkey] at h
      cases h
  refine ⟨fun key hkey => ?_, by decide +kernel, fun id key key' h h' => (htext h).1.trans (htext h').1.symm, ?_⟩
  · rw [doneHub, Table.lookup_insert_eq] at hkey
    by_cases h : key = "_1"
    · rw [h]
      decide +kernel
    · rw [if_neg h] at hkey
      exact absurd rfl hkey
  · intro rec q key hget hq hkey
    have hrec : doneHub.agents.get "a1" = some rec := by rw [← (htext hkey).2]; exact hget
    have hdone : doneHub.agents.get "a1" = some doneUnit := Filed.get_put_self .empty doneUnit (by decide)
    cases hdone.symm.trans hrec
    cases hq

theorem close_doneHub : ∃ res w', run handle (decommission shell { id := "a1" })
    [{}, {}, { text := some "/" }, { text := some "" }, { text := some "_1" }, {}, {}, {}, {}, {}, {}] doneHub =
      some (.ok res, w') ∧ Gone "a1" doneHub w' := by
  have hends : ((run handle (decommission shell { id := "a1" })
      [{}, {}, { text := some "/" }, { text := some "" }, { text := some "_1" }, {}, {}, {}, {}, {}, {}] doneHub).any
      fun p => p.1.toBool) = true := by
    decide +kernel
  obtain ⟨⟨r, w'⟩, hrun, hok⟩ := (Option.any_eq_true _ _).mp hends
  have hcloses := close_all_or_nothing doneHub w' shell { id := "a1" } _ r doneHub_indexed hrun
  cases r with
  | error e => cases hok
  | ok res => exact ⟨res, w', hrun, hcloses⟩

end Cyberlegion
