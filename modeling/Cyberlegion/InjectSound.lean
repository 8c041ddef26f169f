import Cyberlegion.InjectInbox

/-!
# What the session hook discloses

The payload is a function of what the session may see: its own unread mail and, where its
record has no parent and the main pane's gate lets it, the unread mail of the standing owners.
Nothing else of the hub reaches it, and the hook leaves the mail and the records there are alone.
-/

namespace Cyberlegion

open Effects

namespace Inject

/-! ## What a session may see -/

section
variable (s : Shared) (ctx : Ctx)

def Shared.caller : Option String := given (s.hub.selfId ctx)

def Shared.unread (id : String) : List Message := (s.listInbox id).unread

def Shared.ownMail : Option (List Message) := (s.caller ctx).map s.unread

/-- The session has a record, and no unit spawned it. -/
def Shared.topLevel : Bool := ((s.caller ctx).bind s.hub.agents.get).any fun rec => (given rec.spawnedBy).isNone

/-- No main pane is bound, or the session sits in it. -/
def Shared.gate : Bool := (given s.getMainPane).isNone ∨ ctx.env.currentPane.map (·.2) = s.getMainPane

def Shared.standing : List AgentRecord := (Registry.list s.hub.agents).filter isStanding

/-- The standing owners, each with its unread mail. -/
def Shared.owners : List (String × List Message) := s.standing.map fun owner => (owner.handle, s.unread owner.id)

/-- What the session may see of the owners. -/
def Shared.overseen : List (String × List Message) := if s.topLevel ctx ∧ s.gate ctx then s.owners else []

end

/-- The two sessions may see the same. -/
structure SameView (ctx₁ : Ctx) (s₁ : Shared) (ctx₂ : Ctx) (s₂ : Shared) : Prop where
  mail : s₁.ownMail ctx₁ = s₂.ownMail ctx₂
  topLevel : s₁.topLevel ctx₁ = s₂.topLevel ctx₂
  gate : s₁.gate ctx₁ = s₂.gate ctx₂
  owners : s₁.topLevel ctx₁ = true → s₁.gate ctx₁ = true → s₁.owners = s₂.owners

/-- Every mailbox and every record there was is as it was; of a session with an id, the whole hub. -/
structure Undisturbed (ctx : Ctx) (s t : Shared) : Prop where
  mailboxes : ∀ id, t.hub.mailboxes.lookup id = s.hub.mailboxes.lookup id
  records : ∀ id rec, s.hub.agents.get id = some rec → t.hub.agents.get id = some rec
  mainPane : t.mainPane = s.mainPane
  known : (s.caller ctx).isSome = true → t = s

theorem SameView.overseen {ctx₁ ctx₂ : Ctx} {s₁ s₂ : Shared} (h : SameView ctx₁ s₁ ctx₂ s₂) :
    s₁.overseen ctx₁ = s₂.overseen ctx₂ := by
  unfold Shared.overseen
  rw [← h.topLevel, ← h.gate]
  by_cases hopen : s₁.topLevel ctx₁ = true ∧ s₁.gate ctx₁ = true
  · rw [if_pos hopen, if_pos hopen]
    exact h.owners hopen.1 hopen.2
  · rw [if_neg hopen, if_neg hopen]

/-! ## How the hook ends -/

section
variable (before : String → String → Bool)

/-- The payload of a session that may see this. -/
def payload (event : String) (mail : Option (List Message)) (overseen : List (String × List Message)) :
    Option InjectPayload :=
  mail.bind fun mail => compose event (partOf "## Unread mail" (byId before mail) ++
    overseen.flatMap fun owner => partOf ("## Owner mail — " ++ owner.1) (byId before owner.2))

/-- What a call of the hook ends in: the payload of what the session may see, or the refusal of the event. -/
def outcome (ctx : Ctx) (event : String) (t : Shared) : Except HubError (Option InjectPayload) :=
  if event ∈ EVENTS then .ok (payload before event (t.ownMail ctx) (t.overseen ctx))
  else .error (.error ("unsupported --event \"" ++ event ++ "\" (expected " ++ " | ".intercalate EVENTS ++ ")"))

end

section
variable {α : Type} {A : InjectCall → Choice → Prop} {ctx : Ctx} {s t u : Shared} {w w' : World}

theorem Undisturbed.rfl : Undisturbed ctx s s :=
  ⟨fun _ => Eq.refl _, fun _ _ h => h, Eq.refl _, fun _ => Eq.refl _⟩

theorem embeds_hub : Embeds handle answer .hub (fun _ r => r) Shared.hub (fun s t => t.mainPane = s.mainPane) where
  refl _ := rfl
  trans _ _ _ h h' := h'.trans h
  call op c t r u h := by
    obtain ⟨p, hp, heq⟩ := Option.map_eq_some_iff.mp h
    cases heq
    exact ⟨⟨c, hp⟩, rfl⟩

theorem wp_ofHub {p : HubM α} {Q : Except HubError α → World → Prop} (hp : Ends (fun _ _ => True) p Q s.hub) :
    wp answer A (fun _ _ => True) (ofHub p) (fun r t => Q r t.hub ∧ t.mainPane = s.mainPane) s :=
  wp_embed embeds_hub hp

theorem ofHub_reads {p : HubM α} {a : α} (hp : Answers handle (fun _ _ => True) p s.hub (.ok a)) {β : Type}
    {f : α → InjectM β} {Q : Except HubError β → Shared → Prop} (hf : wp answer A (fun _ _ => True) (f a) Q s) :
    wp answer A (fun _ _ => True) (ofHub p >>= f) Q s := by
  have hends : Ends (fun _ _ => True) p (fun r w => r = .ok a ∧ w = s.hub) s.hub := (hp _).mpr ⟨rfl, rfl⟩
  refine wp_seq (wp_ofHub hends) (fun b t ht => ?_) fun e t ht => ?_
  · obtain ⟨⟨hb, hhub⟩, hmain⟩ := ht
    have hst : t = s := by
      cases t; cases s
      cases hhub; cases hmain
      rfl
    cases hb
    rw [hst]
    exact hf
  · cases ht.1.1

theorem register_fails {input : RegisterInput} :
    Ends (fun _ _ => True) (register ctx input) (fun r w' => ∀ e, r = .error e → Same w w') w := by
  unfold register
  refine ends_returns (P := fun _ => True) (returns_perform rfl fun _ _ _ _ _ _ => trivial) (fun _ w₁ h₁ _ => ?_)
    fun e w₁ h₁ _ _ => h₁
  refine ends_returns (returns_reads reads_detectHarness) (fun harness w₂ h₂ _ => ?_)
    fun e w₂ h₂ _ _ => h₁.trans h₂
  cases harness with
  | none => exact fun _ _ => h₁.trans h₂
  | some harness =>
    have h₁₂ := h₁.trans h₂
    refine (resolveSelfId_answers fun _ _ _ => trivial).bind_of ?_
    refine ends_returns (P := fun _ => True) ?_ (fun existing w₃ h₃ _ => ?_) fun e w₃ h₃ _ _ => h₁₂.trans h₃
    · cases w₂.selfId ctx with
      | none => exact returns_ret trivial
      | some id => exact returns_reads (reads_perform rfl)
    have h₁₃ := h₁₂.trans h₃
    refine ends_returns (P := fun _ => True) ?_ (fun id w₄ h₄ _ => ?_) fun e w₄ h₄ _ _ => h₁₃.trans h₄
    · cases existing with
      | some rec => exact returns_ret trivial
      | none =>
        cases w₂.selfId ctx with
        | some id => exact returns_ret trivial
        | none => exact returns_reads (reads_perform rfl)
    have h₁₄ := h₁₃.trans h₄
    refine ends_nowIso (fun ts => ?_) fun e _ _ => h₁₄
    refine ends_returns (P := fun _ => True) ?_ (fun worktree w₅ h₅ _ => ?_) fun e w₅ h₅ _ _ => h₁₄.trans h₅
    · cases existing.bind (·.worktree) with
      | none => exact returns_mono gitWorktree_root fun _ _ => trivial
      | some wt =>
        show Returns _ (some <$> keptWorktree wt) _
        rw [← bind_pure_comp]
        exact returns_bind keptWorktree_keeps fun _ _ => returns_ret trivial
    have h₁₅ := h₁₄.trans h₅
    refine ends_returns (P := fun _ => True) ?_ (fun pane w₆ h₆ _ => ?_) fun e w₆ h₆ _ _ => h₁₅.trans h₆
    · cases storablePane ctx.env with
      | none => exact returns_ret trivial
      | some cur =>
        show Returns _ (some <$> paneLocator cur ctx.env) _
        rw [← bind_pure_comp]
        exact returns_bind paneLocator_locates fun _ _ => returns_ret trivial
    refine ends_putAgent (fun w₇ _ => ?_) fun e _ _ => h₁₅.trans h₆
    cases storablePane ctx.env with
    | none => exact fun e he => by cases he
    | some cur => exact ends_call fun c r w₈ _ _ => fun e he => by cases he

theorem undisturbed_same (h : Same s.hub t.hub) (hmain : t.mainPane = s.mainPane) (hcaller : s.caller ctx = none) :
    Undisturbed ctx s t := by
  refine ⟨fun id => by rw [h.mailboxes], fun id rec hget => by rw [h.agents]; exact hget, hmain, fun hknown => ?_⟩
  rw [hcaller] at hknown
  cases hknown

theorem undisturbed_registers (h : RegisterWrites (fun _ _ => True) s.hub ctx t.hub) (hmain : t.mainPane = s.mainPane)
    (hcaller : s.caller ctx = none) : Undisturbed ctx s t := by
  rcases h with h | ⟨id, rec, hwho, -, -, hwrote⟩
  · exact undisturbed_same h hmain hcaller
  have hnew : s.hub.agents.get id = none := by
    unfold Registers at hwho
    cases hself : s.hub.selfId ctx with
    | none =>
      rw [hself] at hwho
      exact hwho.1
    | some self =>
      rw [hself] at hwho
      have hempty : self = "" := by
        by_contra hne
        rw [Shared.caller, hself, given_eq_some.mpr ⟨rfl, hne⟩] at hcaller
        cases hcaller
      cases hget : s.hub.agents.get id with
      | none => rfl
      | some rec =>
        have hsafe := Filed.valid_of_get hget
        rw [Filed.key_of_get hget, hwho, hempty] at hsafe
        cases hsafe
  refine ⟨fun x => hwrote.mailboxes x (.inr rfl), fun x rec' hget => ?_, hmain, fun hknown => ?_⟩
  · rw [hwrote.agents, if_neg fun hx => ?_]
    · exact hget
    · rw [hx, hnew] at hget
      cases hget
  · rw [hcaller] at hknown
    cases hknown

theorem identify_ends : wp answer A (fun _ _ => True) (identify ctx)
    (fun r t => r = .ok (t.caller ctx) ∧ Undisturbed ctx s t) s := by
  unfold identify
  refine ofHub_reads (resolveSelfId_answers fun _ _ _ => trivial) ?_
  cases hcaller : s.caller ctx with
  | some me =>
    rw [Shared.caller] at hcaller
    rw [hcaller]
    exact ⟨by rw [Shared.caller, hcaller], Undisturbed.rfl⟩
  | none =>
    have hgiven := hcaller
    rw [Shared.caller] at hgiven
    simp only [hgiven]
    split
    · refine (wp_tryCatch _ _).mpr ?_
      refine wp_seq (wp_ofHub (ends_and register_writes register_fails)) (fun rec t ht => ?_) fun e t ht => ?_
      · refine ofHub_reads (resolveSelfId_answers fun _ _ _ => trivial) ?_
        exact ⟨rfl, undisturbed_registers ht.1.1 ht.2 hcaller⟩
      · have hsame : Same s.hub t.hub := ht.1.2 e rfl
        refine ⟨?_, undisturbed_same hsame ht.2 hcaller⟩
        rw [Shared.caller, hsame.selfId, hgiven]
    · exact ⟨by rw [Shared.caller, hgiven], Undisturbed.rfl⟩

end

/-! ## The owner mail -/

section
variable {before : String → String → Bool} {A : InjectCall → Choice → Prop} {ctx : Ctx} {s : Shared}

theorem ownerParts_answers (owners : List AgentRecord) :
    Answers answer (fun _ _ => True) (ownerParts before owners) s (.ok (owners.flatMap fun owner =>
      partOf ("## Owner mail — " ++ owner.handle) (unreadOf before (s.listInbox owner.id)))) := by
  induction owners with
  | nil => exact answers_ret []
  | cons owner owners ih =>
    unfold ownerParts
    refine answers_call trivial (fun _ => rfl) ?_
    exact ih.then (answers_ret _)

theorem surface_answers (rec : AgentRecord) : Answers answer (fun _ _ => True) (surface before ctx rec) s
    (.ok ((if (given rec.spawnedBy).isNone ∧ s.gate ctx then s.owners else []).flatMap fun owner =>
      partOf ("## Owner mail — " ++ owner.1) (byId before owner.2))) := by
  unfold surface
  cases given rec.spawnedBy with
  | some parent => exact answers_ret []
  | none =>
    refine answers_call trivial (fun _ => rfl) ?_
    show Answers answer _
      (if (given s.getMainPane).isNone ∨ ctx.env.currentPane.map (·.2) = s.getMainPane then _ else _) s _
    by_cases hopen : (given s.getMainPane).isNone ∨ ctx.env.currentPane.map (·.2) = s.getMainPane
    · have hgate : s.gate ctx = true := decide_eq_true hopen
      rw [if_pos hopen, if_pos ⟨rfl, hgate⟩, Shared.owners, List.flatMap_map]
      exact answers_call trivial (fun _ => rfl) (ownerParts_answers _)
    · have hgate : ¬s.gate ctx = true := fun h => hopen (of_decide_eq_true h)
      rw [if_neg hopen, if_neg fun h => hgate h.2]
      exact answers_ret []

theorem surfaced_answers :
    Answers answer (fun _ _ => True) (surfaced before ctx ((s.caller ctx).bind s.hub.agents.get)) s
    (.ok ((s.overseen ctx).flatMap fun owner => partOf ("## Owner mail — " ++ owner.1) (byId before owner.2))) := by
  unfold surfaced Shared.overseen Shared.topLevel
  cases (s.caller ctx).bind s.hub.agents.get with
  | none => exact answers_ret []
  | some rec =>
    intro Q
    refine (wp_tryCatch _ _).trans ?_
    exact surface_answers rec _

theorem injectInbox_ends {event : String} : wp answer A (fun _ _ => True) (injectInbox before ctx event)
    (fun r t => r = outcome before ctx event t ∧ Undisturbed ctx s t) s := by
  unfold injectInbox outcome
  by_cases hevent : event ∈ EVENTS
  · simp only [if_pos hevent]
    refine wp_seq identify_ends (fun found t ht => ?_) fun e t ht => ?_
    · obtain ⟨hfound, hsame⟩ := ht
      cases hfound
      cases hcaller : t.caller ctx with
      | none => exact ⟨by rw [Shared.ownMail, hcaller]; rfl, hsame⟩
      | some me =>
        have hself : (t.caller ctx).bind t.hub.agents.get = t.hub.agents.get me := by rw [hcaller]; rfl
        have hmail : t.ownMail ctx = some (t.unread me) := by rw [Shared.ownMail, hcaller]; rfl
        refine ofHub_reads (answers_call trivial (fun _ => rfl) (answers_ret _)) ?_
        refine ⟨trivial, fun c snap u _ hr => ?_⟩
        cases hr
        rw [← hself]
        refine surfaced_answers.bind_of ?_
        exact ⟨by rw [hmail]; rfl, hsame⟩
    · cases ht.1
  · simp only [if_neg hevent]
    exact ⟨rfl, Undisturbed.rfl⟩

end

/-- Two sessions that may see the same are shown the same, whatever else their hubs hold. -/
theorem injectInbox_discloses (before : String → String → Bool) (event : String) (ctx₁ ctx₂ : Ctx)
    (s₁ s₂ t₁ t₂ : Shared) (cs₁ cs₂ : List Choice) (r₁ r₂ : Except HubError (Option InjectPayload))
    (h₁ : run answer (injectInbox before ctx₁ event) cs₁ s₁ = some (r₁, t₁))
    (h₂ : run answer (injectInbox before ctx₂ event) cs₂ s₂ = some (r₂, t₂)) :
    Undisturbed ctx₁ s₁ t₁ ∧ Undisturbed ctx₂ s₂ t₂ ∧ (SameView ctx₁ t₁ ctx₂ t₂ → r₁ = r₂) := by
  obtain ⟨hr₁, hsame₁⟩ := wp_run injectInbox_ends (A := fun _ _ => True) (fun _ _ => trivial) h₁
  obtain ⟨hr₂, hsame₂⟩ := wp_run injectInbox_ends (A := fun _ _ => True) (fun _ _ => trivial) h₂
  refine ⟨hsame₁, hsame₂, fun hview => ?_⟩
  rw [hr₁, hr₂, outcome, outcome, hview.mail, hview.overseen]

/-! ## Sessions at a hub with one owner and one unit -/

def letter (dest body : String) : Message :=
  { id := "1-a", sender := "eve", fromHandle := "eve", «to» := dest, body, ts := 1, sentAt := "" }

def sam : AgentRecord :=
  { id := "standing-sam", handle := "sam", cwd := "/", status := .active, createdAt := 0, lastSeen := 0,
    kind := .standing }

def bob : AgentRecord := { id := "bob", handle := "bob", cwd := "/", status := .active, createdAt := 0, lastSeen := 0 }

/-- An owner with unread mail, and a unit in the pane that is bound. -/
def samAndBob (mailboxes : List (String × InboxSnapshot)) : Shared :=
  { hub :=
      { agents := (Filed.empty.put sam (by decide)).put bob (by decide)
        panes := (∅ : Table String String).insert "7" "bob"
        mailboxes := mailboxes.foldl (fun t m => t.insert m.1 m.2) ∅ }
    mainPane := some "7" }

def herdrPane (pane claude : String) : Ctx := { env := { currentPane := some (.herdr, pane), CLAUDECODE := claude } }

def outsidePanes (id : String) : Ctx := { env := { CYBERLEGION_AGENT_ID := id } }

def compared (a b : String) : Bool := decide (a ≤ b)

def oneHub : Shared :=
  samAndBob [("bob", ⟨[letter "bob" "hello"], []⟩), ("eve", ⟨[letter "eve" "secret"], []⟩)]

def otherHub : Shared :=
  samAndBob [("bob", ⟨[letter "bob" "hello"], [letter "bob" "read"]⟩),
    ("standing-sam", ⟨[letter "sam" "report"], []⟩)]

theorem injectInbox_discloses_bob : ∃ r₁ t₁ r₂ t₂,
    run answer (injectInbox compared (outsidePanes "bob") "SessionStart") (List.replicate 3 {}) oneHub = some (r₁, t₁) ∧
    run answer (injectInbox compared (outsidePanes "bob") "SessionStart") (List.replicate 3 {}) otherHub =
      some (r₂, t₂) ∧
      r₁ = r₂ := by
  have hruns :
      (run answer (injectInbox compared (outsidePanes "bob") "SessionStart")
        (List.replicate 3 {}) oneHub).isSome = true ∧
      (run answer (injectInbox compared (outsidePanes "bob") "SessionStart")
        (List.replicate 3 {}) otherHub).isSome = true :=
    ⟨by decide +kernel, by decide +kernel⟩
  obtain ⟨⟨⟨r₁, t₁⟩, h₁⟩, ⟨r₂, t₂⟩, h₂⟩ :=
    hruns.imp Option.isSome_iff_exists.mp Option.isSome_iff_exists.mp
  obtain ⟨hsame₁, hsame₂, hview⟩ := injectInbox_discloses _ _ _ _ _ _ _ _ _ _ _ _ h₁ h₂
  refine ⟨r₁, t₁, r₂, t₂, h₁, h₂, hview ?_⟩
  rw [hsame₁.known (by decide +kernel), hsame₂.known (by decide +kernel)]
  exact ⟨by decide +kernel, by decide +kernel, by decide +kernel, fun _ h => absurd h (by decide +kernel)⟩

def samsHub : Shared := samAndBob [("standing-sam", ⟨[letter "sam" "report"], []⟩)]

def unboundHub : Shared := { samsHub with mainPane := none }

def registering : List Choice := List.replicate 3 default ++ { text := some "u1" } :: List.replicate 10 default

def shown (ctx : Ctx) (cs : List Choice) (s : Shared) : Option (Except HubError (Option InjectPayload)) :=
  (run answer (injectInbox compared ctx "SessionStart") cs s).map (·.1)

/-- At one hub, with the same id, the unit in the bound pane is shown the owner mail that it is not shown
outside; and of two sessions without an id, the one that can register itself is shown what the other is not. -/
theorem injectInbox_differs :
    (samsHub.caller (herdrPane "7" "") = samsHub.caller (outsidePanes "bob") ∧
      shown (herdrPane "7" "") (List.replicate 6 {}) samsHub =
        some (.ok (some ⟨"SessionStart", "## Owner mail — sam (1)\n\n- **eve**: report `(1-a)`"⟩)) ∧
      shown (outsidePanes "bob") (List.replicate 3 {}) samsHub = some (.ok none)) ∧
    (unboundHub.caller (herdrPane "9" "1") = unboundHub.caller (herdrPane "9" "") ∧
      shown (herdrPane "9" "1") registering unboundHub =
        some (.ok (some ⟨"SessionStart", "## Owner mail — sam (1)\n\n- **eve**: report `(1-a)`"⟩)) ∧
      shown (herdrPane "9" "") [{}, {}] unboundHub = some (.ok none)) :=
  ⟨by decide +kernel, by decide +kernel⟩

end Inject

end Cyberlegion
