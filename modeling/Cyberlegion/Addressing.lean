import Cyberlegion.Operations

/-!
# Addresses

What a reference to a recipient, an owner or a unit resolves to. A name is a handle or a
worktree branch; an id always comes first.
-/

namespace Cyberlegion

open Effects

section
variable {w w' : World} {ref : String} {rec other : AgentRecord}

/-! ## The records a name matches -/

structure Living (w : World) (rec : AgentRecord) : Prop where
  stored : w.agents.get rec.id = some rec
  status : rec.status ≠ .exited

theorem mem_live : rec ∈ (matchHandle (Registry.list w.agents) ref).live ↔ Living w rec ∧ rec.handle = ref := by
  simp only [matchHandle, List.mem_filter, Registry.mem_list, decide_eq_true_eq]
  constructor
  · intro ⟨hstored, hhandle, hstatus⟩
    exact ⟨⟨hstored, hstatus⟩, hhandle⟩
  · intro ⟨hliving, hhandle⟩
    exact ⟨hliving.stored, hhandle, hliving.status⟩

theorem live_nodup : (matchHandle (Registry.list w.agents) ref).live.Nodup := by
  have hids : (matchHandle (Registry.list w.agents) ref).live.Pairwise fun rec rec' => rec.id ≠ rec'.id :=
    Registry.list_pairwise.filter _
  exact hids.imp fun hne heq => hne (by rw [heq])

theorem two_le_length {α : Type} {l : List α} {a b : α} (ha : a ∈ l) (hb : b ∈ l) (hne : a ≠ b) : 1 < l.length := by
  match l, ha, hb with
  | [c], ha, hb =>
    rw [List.mem_singleton] at ha hb
    exact absurd (ha.trans hb.symm) hne
  | _ :: _ :: _, _, _ => simp

theorem two_members {α : Type} {l : List α} (hl : l.Nodup) (hlen : 1 < l.length) :
    ∃ a b, a ∈ l ∧ b ∈ l ∧ a ≠ b := by
  match l, hl, hlen with
  | a :: b :: rest, hl, _ =>
    refine ⟨a, b, by simp, by simp, fun heq => ?_⟩
    exact (List.nodup_cons.mp hl).1 (heq ▸ List.mem_cons_self)

theorem pickLive_cases {live : List AgentRecord} :
    (∃ rec ∈ live, rec.kind = .standing ∧ pickLive ref live = .ret (some rec)) ∨
      ((∀ rec ∈ live, rec.kind ≠ .standing) ∧
        ((1 < live.length ∧ ∃ e, pickLive ref live = .throw e) ∨
          (∃ rec, live = [rec] ∧ pickLive ref live = .ret (some rec)) ∨
          (live = [] ∧ pickLive ref live = .ret none))) := by
  unfold pickLive
  cases hfind : live.find? (·.kind = .standing) with
  | some standing =>
    have hkind := List.find?_some hfind
    exact .inl ⟨standing, List.mem_of_find?_eq_some hfind, of_decide_eq_true hkind, rfl⟩
  | none =>
    have hnone : ∀ rec ∈ live, rec.kind ≠ .standing := fun rec hrec heq =>
      List.find?_eq_none.mp hfind rec hrec (decide_eq_true heq)
    refine .inr ⟨hnone, ?_⟩
    match live with
    | [] => exact .inr (.inr ⟨rfl, rfl⟩)
    | [rec] => exact .inr (.inl ⟨rec, rfl, rfl⟩)
    | rec :: rec' :: rest =>
      have hlen : 1 < (rec :: rec' :: rest).length := by simp
      exact .inl ⟨hlen, _, if_pos hlen⟩

/-! ## Recipients -/

/-- The ids that mail sent to `to` may go to: an id first, then the standing owner of the
handle, then the one unit that bears it. -/
inductive Addressee (w : World) («to» : String) : String → Prop
  | id (rec : AgentRecord) (hget : w.agents.get «to» = some rec) : Addressee w «to» «to»
  | standing (rec : AgentRecord) (hnone : w.agents.get «to» = none) (hliving : Living w rec)
      (hhandle : rec.handle = «to»)
      (hkind : rec.kind = .standing) : Addressee w «to» rec.id
  | only (rec : AgentRecord) (hnone : w.agents.get «to» = none) (hliving : Living w rec) (hhandle : rec.handle = «to»)
      (honly : ∀ other, Living w other → other.handle = «to» → other = rec) : Addressee w «to» rec.id

/-- No handle has two standing records. -/
def OneStanding (w : World) : Prop := ∀ rec rec', w.agents.get rec.id = some rec → w.agents.get rec'.id = some rec' →
  rec.kind = .standing → rec'.kind = .standing → rec.handle = rec'.handle → rec = rec'

theorem recipientAmong_addresses (hnone : w.agents.get ref = none) :
    (∃ id, recipientAmong ref (Registry.list w.agents) = .ret id ∧ Addressee w ref id) ∨
      ((∃ e, recipientAmong ref (Registry.list w.agents) = .throw e) ∧ ∀ id, ¬Addressee w ref id) := by
  have hrefuse : (∀ rec ∈ (matchHandle (Registry.list w.agents) ref).live, rec.kind ≠ .standing) →
      (1 < (matchHandle (Registry.list w.agents) ref).live.length ∨
        (matchHandle (Registry.list w.agents) ref).live = []) →
      ∀ id, ¬Addressee w ref id := by
    intro hkind hlen id hid
    cases hid with
    | id rec hget => rw [hnone] at hget; cases hget
    | standing rec _ hliving hhandle hstanding => exact hkind rec (mem_live.mpr ⟨hliving, hhandle⟩) hstanding
    | only rec _ hliving hhandle honly =>
      have hmem := mem_live.mpr ⟨hliving, hhandle⟩
      rcases hlen with hlen | hnil
      · have hall : ∀ other ∈ (matchHandle (Registry.list w.agents) ref).live, other = rec := fun other hother =>
          honly other (mem_live.mp hother).1 (mem_live.mp hother).2
        have hcount := List.eq_replicate_iff.mpr ⟨rfl, hall⟩
        have hnodup : (matchHandle (Registry.list w.agents) ref).live.Nodup := live_nodup
        rw [hcount, List.nodup_replicate] at hnodup
        omega
      · rw [hnil] at hmem
        exact absurd hmem List.not_mem_nil
  unfold recipientAmong
  have hcases := @pickLive_cases ref (matchHandle (Registry.list w.agents) ref).live
  rcases hcases with
    ⟨rec, hmem, hkind, hpick⟩ | ⟨hkind, ⟨hlen, e, hpick⟩ | ⟨rec, hlive, hpick⟩ | ⟨hnil, hpick⟩⟩
  · have hmem' := mem_live.mp hmem
    simp only [hpick, Prog.ret_bind]
    exact .inl ⟨rec.id, rfl, .standing rec hnone hmem'.1 hmem'.2 hkind⟩
  · simp only [hpick, Prog.throw_bind]
    exact .inr ⟨⟨e, rfl⟩, hrefuse hkind (.inl hlen)⟩
  · have hmem' := mem_live.mp (hlive ▸ List.mem_singleton_self rec)
    simp only [hpick, Prog.ret_bind]
    refine .inl ⟨rec.id, rfl, .only rec hnone hmem'.1 hmem'.2 fun other hliving hhandle => ?_⟩
    have hother := mem_live.mpr ⟨hliving, hhandle⟩
    rw [hlive] at hother
    exact List.mem_singleton.mp hother
  · simp only [hpick, Prog.ret_bind]
    exact .inr ⟨⟨_, rfl⟩, hrefuse hkind (.inr hnil)⟩

theorem addressee_unique (hone : OneStanding w) {id id' : String} (h : Addressee w ref id) (h' : Addressee w ref id') :
    id = id' := by
  cases h with
  | id rec hget =>
    cases h' with
    | id => rfl
    | standing _ hnone | only _ hnone => rw [hget] at hnone; cases hnone
  | standing rec hnone hliving hhandle hkind =>
    cases h' with
    | id _ hget => rw [hnone] at hget; cases hget
    | standing rec' _ hliving' hhandle' hkind' =>
      exact congrArg _ (hone rec rec' hliving.stored hliving'.stored hkind hkind' (hhandle.trans hhandle'.symm))
    | only rec' _ _ _ honly => exact congrArg _ (honly rec hliving hhandle)
  | only rec hnone hliving hhandle honly =>
    cases h' with
    | id _ hget => rw [hnone] at hget; cases hget
    | standing rec' _ hliving' hhandle' | only rec' _ hliving' hhandle' =>
      exact congrArg _ (honly rec' hliving' hhandle').symm

/-- A resolution answers an address, and throws only where there is none. -/
def AnswersAddress (w : World) («to» : String) : Except HubError String → Prop
  | .ok id => Addressee w «to» id
  | .error _ => ∀ id, ¬Addressee w «to» id

theorem recipient_answers {A : Call → Choice → Prop} :
    Ends A (resolveRecipient ref) (fun r w' => w' = w ∧ AnswersAddress w ref r) w := by
  unfold resolveRecipient
  refine ends_getAgent ?_
  cases hget : w.agents.get ref with
  | some rec => exact ⟨rfl, .id rec hget⟩
  | none =>
    refine ends_read (fun _ => rfl) ?_
    rcases recipientAmong_addresses hget with ⟨id, hp, hid⟩ | ⟨⟨e, hp⟩, hnot⟩
    · rw [hp]
      exact ⟨rfl, hid⟩
    · rw [hp]
      exact ⟨rfl, hnot⟩

/-! ## Owners -/

/-- The ids of the mailboxes that `--owner ref` may name: an id first, then the standing
owner of the handle, then the one service endpoint that bears it. -/
inductive OwnerBox (w : World) (ref : String) : String → Prop
  | id (rec : AgentRecord) (hget : w.agents.get ref = some rec) (hkind : rec.kind = .service ∨ rec.kind = .standing) :
      OwnerBox w ref ref
  | standing (rec : AgentRecord) (hid : ∀ named, w.agents.get ref = some named → named.kind = .session)
      (hget : w.agents.get rec.id = some rec) (hhandle : rec.handle = ref) (hkind : rec.kind = .standing) :
      OwnerBox w ref rec.id
  | service (rec : AgentRecord) (hid : ∀ named, w.agents.get ref = some named → named.kind = .session)
      (hget : w.agents.get rec.id = some rec) (hhandle : rec.handle = ref) (hkind : rec.kind = .service)
      (honly : ∀ other, w.agents.get other.id = some other → other.handle = ref → other.kind ≠ .session →
        other = rec) :
      OwnerBox w ref rec.id

theorem owner_none : w.owner ref = none ↔
    ∀ rec, w.agents.get rec.id = some rec → rec.handle = ref → rec.kind ≠ .standing := by
  unfold World.owner
  rw [List.find?_eq_none]
  constructor
  · intro h rec hget hhandle hkind
    exact h rec (Registry.mem_list.mpr hget) (decide_eq_true ⟨hhandle, hkind⟩)
  · intro h rec hrec heq
    exact h rec (Registry.mem_list.mp hrec) (of_decide_eq_true heq).1 (of_decide_eq_true heq).2

theorem owner_answers {Q : Except HubError String → World → Prop} {A : Call → Choice → Prop}
    (hok : ∀ rec, w.owner ref = some rec → Q (.ok rec.id) w) (herr : ∀ e, w.owner ref = none → Q (.error e) w) :
    Ends A (resolveStandingOwner ref) Q w := by
  unfold resolveStandingOwner
  refine ends_read (fun _ => rfl) ?_
  cases howner : (Registry.list w.agents).find? fun a => a.handle = ref ∧ a.kind = .standing with
  | some rec => exact hok rec howner
  | none => exact herr _ howner

def World.services (w : World) (ref : String) : List AgentRecord :=
  (Registry.list w.agents).filter fun a => a.handle = ref ∧ a.kind = .service

theorem mem_services : rec ∈ w.services ref ↔ w.agents.get rec.id = some rec ∧ rec.handle = ref ∧
    rec.kind = .service := by
  rw [World.services, List.mem_filter, Registry.mem_list, decide_eq_true_eq]

theorem services_nodup : (w.services ref).Nodup :=
  (Registry.list_pairwise.filter _).imp fun hne heq => hne (by rw [heq])

theorem not_ownerBox (hid : ∀ named, w.agents.get ref = some named → named.kind = .session)
    (howner : w.owner ref = none)
    (hmany : w.services ref = [] ∨ 1 < (w.services ref).length) (id : String) : ¬OwnerBox w ref id := by
  intro hbox
  cases hbox with
  | id rec hget hkind =>
    have hsession := hid rec hget
    rw [hsession] at hkind
    rcases hkind with hkind | hkind <;> cases hkind
  | standing rec _ hget hhandle hkind => exact owner_none.mp howner rec hget hhandle hkind
  | service rec _ hget hhandle hkind honly =>
    have hmem := mem_services.mpr ⟨hget, hhandle, hkind⟩
    rcases hmany with hnil | hlen
    · rw [hnil] at hmem
      exact absurd hmem List.not_mem_nil
    · have hall : ∀ other ∈ w.services ref, other = rec := by
        intro other hother
        obtain ⟨hget', hhandle', hkind'⟩ := mem_services.mp hother
        exact honly other hget' hhandle' (by rw [hkind']; decide)
      have hcount := List.eq_replicate_iff.mpr ⟨rfl, hall⟩
      have hnodup : (w.services ref).Nodup := services_nodup
      rw [hcount, List.nodup_replicate] at hnodup
      omega

/-- A resolution answers a mailbox of the owner, and throws only where there is none. -/
def AnswersBox (w : World) (ref : String) : Except HubError String → Prop
  | .ok id => OwnerBox w ref id
  | .error _ => ∀ id, ¬OwnerBox w ref id

theorem ownerMailbox_answers {A : Call → Choice → Prop} :
    Ends A (resolveOwnerMailbox ref) (fun r w' => w' = w ∧ AnswersBox w ref r) w := by
  unfold resolveOwnerMailbox
  refine ends_getAgent ?_
  cases hfilter : (w.agents.get ref).filter fun byId => byId.kind = .service ∨ byId.kind = .standing with
  | some byId =>
    obtain ⟨hget, hkind⟩ := Option.filter_eq_some_iff.mp hfilter
    obtain rfl := Filed.key_of_get hget
    exact ⟨rfl, .id byId hget (of_decide_eq_true hkind)⟩
  | none =>
    have hid : ∀ named, w.agents.get ref = some named → named.kind = .session := by
      intro named hget
      have hkind := Option.filter_eq_none_iff.mp hfilter named hget
      cases hk : named.kind with
      | session => rfl
      | standing | service => rw [hk] at hkind; exact absurd (by decide) hkind
    have hstanding : ∀ rec, w.owner ref = some rec → OwnerBox w ref rec.id := by
      intro rec hrec
      obtain ⟨hget, hhandle, hkind⟩ := owner_spec hrec
      exact .standing rec hid hget hhandle hkind
    refine ends_read (fun _ => rfl) ?_
    show Ends _ (if _ then _ else _) _ w
    split
    · next hany =>
      refine owner_answers (fun rec hrec => ⟨rfl, hstanding rec hrec⟩) fun e hnone => ?_
      obtain ⟨rec, hmem, heq⟩ := List.any_eq_true.mp hany
      have hstored := Registry.mem_list.mp hmem
      exact absurd (of_decide_eq_true heq).2 (owner_none.mp hnone rec hstored (of_decide_eq_true heq).1)
    · next hany =>
      have hnone : w.owner ref = none := by
        refine owner_none.mpr fun rec hget hhandle hkind => hany ?_
        exact List.any_eq_true.mpr ⟨rec, Registry.mem_list.mpr hget, decide_eq_true ⟨hhandle, hkind⟩⟩
      have hfilter : ((Registry.list w.agents).filter fun a => a.handle = ref ∧ a.kind = .service) =
          w.services ref := rfl
      rw [hfilter]
      rcases hservices : w.services ref with _ | ⟨service, _ | ⟨service', rest⟩⟩
      · refine owner_answers (fun rec hrec => ⟨rfl, hstanding rec hrec⟩) fun e _ => ?_
        exact ⟨rfl, not_ownerBox hid hnone (.inl hservices)⟩
      · have hmem : service ∈ w.services ref := by rw [hservices]; exact List.mem_singleton_self _
        obtain ⟨hget, hhandle, hkind⟩ := mem_services.mp hmem
        refine ⟨rfl, .service service hid hget hhandle hkind fun other hget' hhandle' hkind' => ?_⟩
        have hother : other ∈ w.services ref := by
          refine mem_services.mpr ⟨hget', hhandle', ?_⟩
          cases hk : other.kind with
          | session => exact absurd hk hkind'
          | standing => exact absurd hk (owner_none.mp hnone other hget' hhandle')
          | service => rfl
        rw [hservices] at hother
        exact List.mem_singleton.mp hother
      · have hlen : 1 < (w.services ref).length := by rw [hservices]; simp
        exact ⟨rfl, not_ownerBox hid hnone (.inr hlen)⟩

/-! ## Sending -/

/-- The message joins the unread set of the address alone, or nothing is written. -/
def Sent (w : World) (input : SendInput) (r : Except HubError Message) (w' : World) : Prop :=
  w'.agents = w.agents ∧ match r with
    | .ok msg => Addressee w input.to msg.to ∧ w'.mailboxes = w.mailboxes.insert msg.to
        { (w.mailboxes.lookup msg.to).getD ⟨[], []⟩
          with unread := msg :: ((w.mailboxes.lookup msg.to).getD ⟨[], []⟩).unread }
    | .error e => w'.mailboxes = w.mailboxes ∧ (e = .rangeError ∨ ∀ id, ¬Addressee w input.to id)

theorem send_sends {A : Call → Choice → Prop} {input : SendInput} : Ends A (send input) (Sent w input) w := by
  rw [send_eq]
  refine ends_bind recipient_answers ?_ ?_
  · intro toId w₁ ⟨hw, hto⟩
    subst hw
    refine ends_getAgent (ends_call fun c ts w₂ _ hr => ?_)
    cases hr
    refine ends_call fun c' hex w₃ _ hr => ?_
    cases hr
    unfold iso
    split
    · refine ends_call fun c'' r w₄ _ hr => ?_
      cases hr
      exact ⟨rfl, hto, rfl⟩
    · exact ⟨rfl, rfl, .inl rfl⟩
  · intro e w₁ ⟨hw, hnot⟩
    subst hw
    exact ⟨rfl, rfl, .inr hnot⟩

/-- A recipient is an id, else the standing owner of a handle, else the one living unit that
bears it; an owner mailbox is never a session's, and no one of several endpoints; a send
writes to the address alone. -/
theorem mail_addressed (w : World) (ref : String) (hone : OneStanding w) :
    (∀ cs r w', run handle (resolveRecipient ref) cs w = some (r, w') → w' = w ∧ AnswersAddress w ref r) ∧
    (∀ id id', Addressee w ref id → Addressee w ref id' → id = id') ∧
    (∀ cs r w', run handle (resolveOwnerMailbox ref) cs w = some (r, w') → w' = w ∧ AnswersBox w ref r) ∧
    (∀ id, OwnerBox w ref id → ∃ rec, w.agents.get id = some rec ∧ rec.kind ≠ .session) ∧
    (∀ rec rec', rec ≠ rec' → rec ∈ w.services ref → rec' ∈ w.services ref → w.owner ref = none →
      (∀ named, w.agents.get ref = some named → named.kind = .session) → ∀ id, ¬OwnerBox w ref id) ∧
    ∀ input cs r w', run handle (send input) cs w = some (r, w') → Sent w input r w' := by
  refine ⟨fun _ _ _ h => ends_run recipient_answers h, fun _ _ h h' => addressee_unique hone h h',
    fun _ _ _ h => ends_run ownerMailbox_answers h, fun id h => ?_, fun rec rec' hne hmem hmem' howner hid => ?_,
    fun _ _ _ _ h => ends_run send_sends h⟩
  · cases h with
    | id rec hget hkind =>
      refine ⟨rec, hget, fun hsession => ?_⟩
      rw [hsession] at hkind
      rcases hkind with hkind | hkind <;> cases hkind
    | standing rec _ hget _ hkind | service rec _ hget _ hkind => exact ⟨rec, hget, by rw [hkind]; decide⟩
  · exact not_ownerBox hid howner (.inr (two_le_length hmem hmem' hne))

def endpointRecord (id handle : String) : AgentRecord :=
  { id, handle, cwd := "/w", status := .active, createdAt := 0, lastSeen := 0, kind := .service }

def twinHub : World where
  agents :=
    ((Filed.empty.put (endpointRecord "svc" "web@w") (by decide)).put
      (endpointRecord "one" "svc") (by decide)).put (endpointRecord "two" "svc") (by decide)

theorem twinHub_standing : OneStanding twinHub := by
  have hkinds : ∀ rec ∈ Registry.list twinHub.agents, rec.kind = .service := by decide +kernel
  intro rec rec' hget _ hkind
  have hservice := hkinds rec (Registry.mem_list.mpr hget)
  rw [hkind] at hservice
  cases hservice

theorem mail_addressed_twins : AnswersAddress twinHub "one" (.ok "one") ∧ AnswersBox twinHub "one" (.ok "one") := by
  obtain ⟨hrecipient, -, howner, -⟩ := mail_addressed twinHub "one" twinHub_standing
  exact ⟨(hrecipient [{}] (.ok "one") twinHub rfl).2, (howner [{}] (.ok "one") twinHub rfl).2⟩

/-- An id comes before a handle, also where several endpoints bear the handle. -/
theorem owner_mailbox_prefers_id : ¬∀ (w : World) (ref : String), OneStanding w → ∀ rec rec', rec ≠ rec' →
    rec ∈ w.services ref → rec' ∈ w.services ref → w.owner ref = none →
    ∀ cs r w', run handle (resolveOwnerMailbox ref) cs w = some (r, w') → ∃ e, r = .error e := by
  intro h
  have hone : endpointRecord "one" "svc" ∈ twinHub.services "svc" := by decide +kernel
  have htwo : endpointRecord "two" "svc" ∈ twinHub.services "svc" := by decide +kernel
  have howner : twinHub.owner "svc" = none := by decide +kernel
  obtain ⟨e, he⟩ := h twinHub "svc" twinHub_standing _ _ (by decide) hone htwo howner [{}] (.ok "svc") twinHub rfl
  cases he

/-! ## Units -/

def AtHandle (w : World) (ref : String) (rec : AgentRecord) : Prop := Living w rec ∧ rec.handle = ref

def AtBranch (w : World) (ref : String) (rec : AgentRecord) : Prop :=
  Living w rec ∧ rec.worktree.bind (·.branch) = some ref

/-- The record matches at the level the reference is found at: by handle, else by branch. -/
def Matches (w : World) (ref : String) (rec : AgentRecord) : Prop :=
  AtHandle w ref rec ∨ ((∀ other, ¬AtHandle w ref other) ∧ AtBranch w ref rec)

/-- The reference answers the one record that matches, or throws. -/
def PicksOne (w : World) (ref : String) : Prop :=
  ∀ cs r w', run handle (resolveAgent ref) cs w = some (r, w') →
    (∀ rec, r = .ok rec → Matches w ref rec ∧ ∀ other, Matches w ref other → other = rec) ∧
    ((∃ rec other, rec ≠ other ∧ Matches w ref rec ∧ Matches w ref other) → ∃ e, r = .error e)

def World.onBranch (w : World) (ref : String) : List AgentRecord :=
  (Registry.list w.agents).filter fun a => a.worktree.bind (·.branch) = some ref

theorem find_onBranch {found : AgentRecord} (h : (w.onBranch ref).find? (·.status ≠ .exited) = some found) :
    AtBranch w ref found := by
  have hmem := List.mem_filter.mp (List.mem_of_find?_eq_some h)
  have hstatus := List.find?_some h
  exact ⟨⟨Registry.mem_list.mp hmem.1, of_decide_eq_true hstatus⟩, of_decide_eq_true hmem.2⟩

theorem atBranch_found (h : AtBranch w ref rec) :
    ∃ found, (w.onBranch ref).find? (·.status ≠ .exited) = some found := by
  refine Option.isSome_iff_exists.mp (List.find?_isSome.mpr ⟨rec, ?_, decide_eq_true h.1.status⟩)
  exact List.mem_filter.mpr ⟨Registry.mem_list.mpr h.1.stored, decide_eq_true h.2⟩

theorem resolveAmong_branch {found : AgentRecord} (hnone : ∀ other, ¬AtHandle w ref other)
    (hfound : (w.onBranch ref).find? (·.status ≠ .exited) = some found) :
    resolveAmong ref (Registry.list w.agents) = .ret found := by
  have hnil : (matchHandle (Registry.list w.agents) ref).live = [] :=
    List.eq_nil_iff_forall_not_mem.mpr fun other hmem => hnone other (mem_live.mp hmem)
  unfold resolveAmong
  simp only [hnil]
  have hbranch : ((Registry.list w.agents).filter fun a => a.worktree.bind (·.branch) = some ref) =
      w.onBranch ref := rfl
  rw [hbranch, hfound]
  rfl

/-- What a reference that is no id and no standing owner's handle comes out as. -/
inductive Resolves (w : World) (ref : String) : Except HubError AgentRecord → Prop
  | handle (rec : AgentRecord) (h : AtHandle w ref rec) (honly : ∀ other, AtHandle w ref other → other = rec) :
      Resolves w ref (.ok rec)
  | several (rec other : AgentRecord) (hne : rec ≠ other) (h : AtHandle w ref rec) (h' : AtHandle w ref other)
      (e : HubError) : Resolves w ref (.error e)
  | branch (rec : AgentRecord) (hnone : ∀ other, ¬AtHandle w ref other) (h : AtBranch w ref rec) :
      Resolves w ref (.ok rec)
  | none (hnone : ∀ other, ¬Matches w ref other) (e : HubError) : Resolves w ref (.error e)

theorem resolveAgent_resolves {A : Call → Choice → Prop} (hid : w.agents.get ref = none) (howner : w.owner ref = none) :
    Ends A (resolveAgent ref) (fun r w' => w' = w ∧ Resolves w ref r) w := by
  have hstanding : ∀ rec ∈ (matchHandle (Registry.list w.agents) ref).live, rec.kind ≠ .standing := fun rec hmem =>
    owner_none.mp howner rec (mem_live.mp hmem).1.stored (mem_live.mp hmem).2
  unfold resolveAgent
  refine ends_getAgent ?_
  rw [hid]
  refine ends_read (fun _ => rfl) ?_
  unfold resolveAmong
  have hcases := @pickLive_cases ref (matchHandle (Registry.list w.agents) ref).live
  rcases hcases with
    ⟨rec, hmem, hkind, -⟩ | ⟨-, ⟨hlen, e, hpick⟩ | ⟨rec, hlive, hpick⟩ | ⟨hnil, hpick⟩⟩
  · exact absurd hkind (hstanding rec hmem)
  · simp only [hpick, Prog.throw_bind]
    obtain ⟨rec, other, hrec, hother, hne⟩ := two_members live_nodup hlen
    exact ⟨rfl, .several rec other hne (mem_live.mp hrec) (mem_live.mp hother) e⟩
  · simp only [hpick, Prog.ret_bind]
    refine ⟨rfl, .handle rec (mem_live.mp (hlive ▸ List.mem_singleton_self rec)) fun other hother => ?_⟩
    have hmem := mem_live.mpr hother
    rw [hlive] at hmem
    exact List.mem_singleton.mp hmem
  · simp only [hpick, Prog.ret_bind]
    have hnone : ∀ other, ¬AtHandle w ref other := by
      intro other hother
      have hmem := mem_live.mpr hother
      rw [hnil] at hmem
      exact absurd hmem List.not_mem_nil
    have hbranch : ((Registry.list w.agents).filter fun a => a.worktree.bind (·.branch) = some ref) =
        w.onBranch ref := rfl
    rw [hbranch]
    cases hfind : (w.onBranch ref).find? (·.status ≠ .exited) with
    | some found => exact ⟨rfl, .branch found hnone (find_onBranch hfind)⟩
    | none =>
      refine ⟨rfl, .none (fun other hother => ?_) _⟩
      rcases hother with hother | ⟨-, hother⟩
      · exact hnone other hother
      · obtain ⟨found, hfound⟩ := atBranch_found hother
        rw [hfind] at hfound
        cases hfound

/-- By id and by handle a reference is never ambiguous; by branch it takes the first unit of
several. -/
theorem unit_reference_iff (w : World) (ref : String) (hid : w.agents.get ref = none) (howner : w.owner ref = none) :
    PicksOne w ref ↔
      ¬∃ rec other, rec ≠ other ∧ AtBranch w ref rec ∧ AtBranch w ref other ∧ ∀ unit, ¬AtHandle w ref unit := by
  constructor
  · rintro hpicks ⟨rec, other, hne, hrec, hother, hnone⟩
    obtain ⟨found, hfound⟩ := atBranch_found hrec
    have hmay : May handle (resolveAgent ref) w (.ok found) w := by
      refine may_call (c := default) rfl ?_
      rw [hid]
      refine may_call (c := default) rfl ?_
      show May handle (resolveAmong ref (Registry.list w.agents)) w _ w
      rw [resolveAmong_branch hnone hfound]
      exact may_ret found
    obtain ⟨cs, hrun, -⟩ := hmay
    have hunique := ((hpicks _ _ _ hrun).1 found rfl).2
    have hmatches : ∀ unit, AtBranch w ref unit → Matches w ref unit := fun unit hunit => .inr ⟨hnone, hunit⟩
    exact hne ((hunique rec (hmatches rec hrec)).trans (hunique other (hmatches other hother)).symm)
  · intro hfew cs r w' hrun
    obtain ⟨-, hresolves⟩ := ends_run (resolveAgent_resolves hid howner) hrun
    cases hresolves with
    | handle rec h honly =>
      have hunique : ∀ other, Matches w ref other → other = rec := by
        intro other hother
        rcases hother with hother | ⟨hnone, -⟩
        · exact honly other hother
        · exact absurd h (hnone rec)
      refine ⟨fun found hfound => ?_, fun hseveral => ?_⟩
      · cases hfound
        exact ⟨.inl h, hunique⟩
      · obtain ⟨unit, other, hne, hunit, hother⟩ := hseveral
        exact absurd ((hunique unit hunit).trans (hunique other hother).symm) hne
    | branch rec hnone h =>
      have hunique : ∀ other, Matches w ref other → other = rec := by
        intro other hother
        rcases hother with hother | ⟨-, hother⟩
        · exact absurd hother (hnone other)
        · by_contra hne
          exact hfew ⟨other, rec, hne, hother, h, hnone⟩
      refine ⟨fun found hfound => ?_, fun hseveral => ?_⟩
      · cases hfound
        exact ⟨.inr ⟨hnone, h⟩, hunique⟩
      · obtain ⟨unit, other, hne, hunit, hother⟩ := hseveral
        exact absurd ((hunique unit hunit).trans (hunique other hother).symm) hne
    | several _ _ _ _ _ e | none _ e => exact ⟨fun found hfound => (by cases hfound), fun _ => ⟨e, rfl⟩⟩

def onBranchFix (id root : String) : AgentRecord :=
  { id, handle := id, cwd := root, status := .active, createdAt := 0, lastSeen := 0
    worktree := some { root, branch := some "fix", primaryRoot := some root } }

/-- One branch name in two repositories. -/
def fixHub : World where
  agents := (Filed.empty.put (onBranchFix "a1" "/one") (by decide)).put (onBranchFix "b2" "/two") (by decide)

theorem unit_reference_exact : PicksOne twinHub "web" := by
  refine (unit_reference_iff twinHub "web" (by decide +kernel) (by decide +kernel)).mpr
    fun ⟨rec, other, hne, hrec, _⟩ => ?_
  have hnone : ∀ rec ∈ Registry.list twinHub.agents, rec.worktree = none := by decide +kernel
  have hbranch := hrec.2
  rw [hnone rec (Registry.mem_list.mpr hrec.1.stored)] at hbranch
  cases hbranch

theorem unit_reference_ambiguous : ¬PicksOne fixHub "fix" := by
  intro h
  have hon : ∀ rec ∈ [onBranchFix "a1" "/one", onBranchFix "b2" "/two"], AtBranch fixHub "fix" rec := by
    intro rec hrec
    have hstored : ∀ rec ∈ [onBranchFix "a1" "/one", onBranchFix "b2" "/two"], fixHub.agents.get rec.id = some rec ∧
        rec.status ≠ .exited ∧ rec.worktree.bind (·.branch) = some "fix" := by decide +kernel
    obtain ⟨hget, hstatus, hbranch⟩ := hstored rec hrec
    exact ⟨⟨hget, hstatus⟩, hbranch⟩
  have hnone : ∀ unit, ¬AtHandle fixHub "fix" unit := by
    intro unit ⟨hliving, hhandle⟩
    have hhandles : ∀ rec ∈ Registry.list fixHub.agents, rec.handle ≠ "fix" := by decide +kernel
    exact hhandles unit (Registry.mem_list.mpr hliving.stored) hhandle
  have hmatches : ∀ rec ∈ [onBranchFix "a1" "/one", onBranchFix "b2" "/two"], Matches fixHub "fix" rec :=
    fun rec hrec =>
    .inr ⟨hnone, hon rec hrec⟩
  obtain ⟨e, he⟩ := (h [{}, {}] (.ok (onBranchFix "b2" "/two")) fixHub (by rfl)).2
    ⟨_, _, by decide, hmatches _ List.mem_cons_self, hmatches _ (List.mem_cons_of_mem _ List.mem_cons_self)⟩
  cases he

end

end Cyberlegion
