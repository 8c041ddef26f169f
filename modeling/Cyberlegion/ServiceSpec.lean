import Cyberlegion.Service

/-!
# What the service transitions do

One lemma for each function: how it ends and what it leaves of the hub. A
transition leaves every lease alone, or puts one lease under the guard that its
branch of the source checks. `A` is what the outside may answer during the call.
-/

namespace Cyberlegion

open Effects

section
variable {ctx : ServiceCtx} {A : Call → Choice → Prop} {w w' : World} {project : ProjectRecord}
variable {endpoint rec : AgentRecord} {lease : ServiceLease} {name ref : String}

/-! ## Liveness -/

/-- Positive evidence that the session of a record is gone: its status, or a pane
list its multiplexer answered. -/
def SessionGone (A : Call → Choice → Prop) (w : World) (rec : AgentRecord) : Prop :=
  rec.status = .exited ∨ rec.status = .stopped ∨
    ∃ pane c, rec.pane = some pane ∧ A (.listPanes pane.mux) c ∧ c.list ≠ [] ∧
      w.lists pane.mux c.list ∧ ∀ p ∈ c.list, p.id ≠ pane.id

/-- A record whose session cannot be ruled out, unless a pane list came back empty. -/
def SessionHeld (A : Call → Choice → Prop) (w : World) (rec : AgentRecord) : Prop :=
  rec.status ≠ .exited ∧ rec.status ≠ .stopped ∧
    ∀ pane, rec.pane = some pane →
      (pane.mux, pane.id) ∈ w.live ∨ ∃ c, A (.listPanes pane.mux) c ∧ c.list = []

theorem sessionLive_spec : Ends A (sessionLive rec) (fun r w' => w' = w ∧ ∃ live, r = .ok live ∧
    (live = false → SessionGone A w rec) ∧ (live = true → SessionHeld A w rec)) w := by
  unfold sessionLive
  split
  · next h => exact ⟨rfl, false, rfl, fun _ => h.elim .inl fun h => .inr (.inl h), fun h => by cases h⟩
  · next h =>
    obtain ⟨hexited, hstopped⟩ := not_or.mp h
    cases hp : rec.pane with
    | none =>
      refine ⟨rfl, true, rfl, (fun h => by cases h), fun _ => ⟨hexited, hstopped, fun pane h => ?_⟩⟩
      rw [hp] at h; cases h
    | some pane =>
      refine (wp_bind _ _).mpr ⟨trivial, fun c r w' hc hr => ?_⟩
      simp only [handle] at hr
      split at hr
      · next hlist =>
        cases hr
        refine ⟨rfl, _, rfl, fun hdead => ?_, fun hlive => ⟨hexited, hstopped, fun pane' h => ?_⟩⟩
        · simp only [decide_eq_false_iff_not, not_or, List.any_eq_true, decide_eq_true_eq, not_exists, not_and]
            at hdead
          exact .inr (.inr ⟨pane, c, hp, hc, hdead.1, hlist.resolve_left hdead.1, hdead.2⟩)
        · rw [hp] at h
          cases h
          by_cases hnil : c.list = []
          · exact .inr ⟨c, hc, hnil⟩
          · left
            simp only [decide_eq_true_eq, List.any_eq_true] at hlive
            obtain ⟨p, hp, hid⟩ := hlive.resolve_left hnil
            have hall := hlist.resolve_left hnil
            simp only [World.lists, List.all_eq_true, decide_eq_true_eq] at hall
            rw [← hid]
            exact (hall.1 p hp).2
      · cases hr

theorem isLive_spec : Ends A (isLive ctx rec) (fun r w' => w' = w ∧ ∃ live, r = .ok live ∧
    (ctx.isLive = none → (live = false → SessionGone A w rec) ∧ (live = true → SessionHeld A w rec))) w := by
  unfold isLive
  split
  · next h => exact ⟨rfl, false, rfl, fun _ => ⟨fun _ => .inl h, fun h => by cases h⟩⟩
  · cases hl : ctx.isLive with
    | some f => exact ⟨rfl, _, rfl, fun h => by cases h⟩
    | none => exact wp_mono sessionLive_spec fun r w' ⟨hw, live, hr, hlive⟩ => ⟨hw, live, hr, fun _ => hlive⟩

theorem controlOf_reads : Ends A (controlOf rec) (fun r w' => w' = w ∧ ∃ control, r = .ok control) w := by
  unfold controlOf
  split
  · exact ⟨rfl, _, rfl⟩
  · refine (wp_bind _ _).mpr ⟨trivial, fun c r w' _ hr => ?_⟩
    have hw : w' = w := findPane_reads hr
    subst hw
    simp only [wp_ret]
    split <;> exact ⟨rfl, _, rfl⟩

/-! ## The view -/

def ownerOf (w : World) (lease : ServiceLease) : Option AgentRecord := lease.holder.bind w.agents.get

/-- What a view's health says about the lease. -/
def HealthOf (ctx : ServiceCtx) (A : Call → Choice → Prop) (w : World) (lease : ServiceLease) : ServiceHealth → Prop
  | .vacant => lease.state = .vacant
  | .starting => lease.state = .reserved ∧ ∃ c, A .now c ∧ ∀ r, lease.reservation = some r → c.ms ≤ r.expiresAt
  | .expired => lease.state = .reserved ∧ ∃ c r, A .now c ∧ lease.reservation = some r ∧ r.expiresAt < c.ms
  | .healthy => lease.state = .active ∧ ∃ rec, ownerOf w lease = some rec ∧
      (ctx.isLive = none → SessionHeld A w rec)
  | .unhealthy => lease.state = .active ∧
      (ctx.isLive = none → ∀ rec, ownerOf w lease = some rec → SessionGone A w rec)

def holderRecord (lease : ServiceLease) : HubM (Option AgentRecord) :=
  match lease.holder with
  | some holder => Store.getAgent holder
  | none => pure none

theorem view_spec : Ends A (view ctx project endpoint lease) (fun r w' => w' = w ∧ ∃ v, r = .ok v ∧
    v.project = project ∧ v.lease = lease ∧ HealthOf ctx A w lease v.health) w := by
  unfold view
  cases hs : lease.state with
  | vacant => exact ⟨rfl, _, rfl, rfl, rfl, hs⟩
  | reserved =>
    refine (wp_bind _ _).mpr ⟨trivial, fun c r w' hc hr => ?_⟩
    cases hr
    refine ⟨rfl, _, rfl, rfl, rfl, ?_⟩
    show HealthOf ctx A w lease (if _ then _ else _)
    split
    · next hexp =>
      obtain ⟨r, hr, hlt⟩ := (Option.any_eq_true _ _).mp hexp
      exact ⟨hs, c, r, hc, hr, of_decide_eq_true hlt⟩
    · next hexp =>
      refine ⟨hs, c, hc, fun r hr => ?_⟩
      rw [hr] at hexp
      simpa using hexp
  | active =>
    have howner : Ends A (holderRecord lease) (fun r w' => w' = w ∧ r = .ok (ownerOf w lease)) w := by
      unfold ownerOf holderRecord
      cases lease.holder with
      | none => exact ⟨rfl, rfl⟩
      | some holder => exact ⟨trivial, fun _ _ _ _ hr => by cases hr; exact ⟨rfl, rfl⟩⟩
    refine (wp_bind _ _).mpr (wp_mono howner ?_)
    rintro r w1 ⟨rfl, rfl⟩
    cases ho : ownerOf w1 lease with
    | none => exact ⟨rfl, _, rfl, rfl, rfl, hs, fun _ rec hrec => by rw [ho] at hrec; cases hrec⟩
    | some owner =>
      refine (wp_bind _ _).mpr (wp_mono controlOf_reads ?_)
      rintro r w2 ⟨rfl, control, rfl⟩
      refine (wp_bind _ _).mpr (wp_mono isLive_spec ?_)
      rintro r w2 ⟨rfl, live, rfl, hlive⟩
      cases live with
      | true => exact ⟨rfl, _, rfl, rfl, rfl, hs, owner, ho, fun h => (hlive h).2 rfl⟩
      | false =>
        refine ⟨rfl, _, rfl, rfl, rfl, hs, fun hdefault rec hrec => ?_⟩
        rw [ho] at hrec
        cases hrec
        exact (hlive hdefault).1 rfl

/-! ## Loading and writing -/

/-- The record of a new endpoint. -/
structure Endpoint (id : String) (rec : AgentRecord) : Prop where
  status : rec.status = .active
  pane : rec.pane = none
  kind : rec.kind = .service
  service : ∃ project name, rec.service = some (project, name) ∧ id = serviceEndpointId project name

/-- What `load` leaves: the leases and the mailboxes, and every record but an endpoint it may add. -/
structure Loads (w w' : World) : Prop where
  leases : w'.leases = w.leases
  live : w'.live = w.live
  mailboxes : w'.mailboxes = w.mailboxes
  agents : ∀ id, w'.agents.get id = w.agents.get id ∨
    (w.agents.get id = none ∧ ∃ rec, w'.agents.get id = some rec ∧ Endpoint id rec)

theorem Loads.refl : Loads w w := ⟨rfl, rfl, rfl, fun _ => .inl rfl⟩

theorem Loads.gone (h : Loads w w') (hgone : ∀ rec, ownerOf w' lease = some rec → SessionGone A w' rec) :
    ∀ rec, ownerOf w lease = some rec → SessionGone A w rec := by
  intro rec hrec
  obtain ⟨holder, hholder, hget⟩ := Option.bind_eq_some_iff.mp hrec
  have hsame : w'.agents.get holder = some rec := by
    rcases h.agents holder with heq | ⟨hnone, -⟩
    · rw [heq]; exact hget
    · rw [hget] at hnone; cases hnone
  rcases hgone rec (by rw [ownerOf, hholder]; exact hsame) with he | hs | ⟨pane, c, hp, hc, hne, hlist, hno⟩
  · exact .inl he
  · exact .inr (.inl hs)
  · refine .inr (.inr ⟨pane, c, hp, hc, hne, ?_, hno⟩)
    simpa only [World.lists, h.live] using hlist

/-- The lease `load` reads: the stored one, or a vacant one where there is none. -/
def CurrentLease (w : World) (lease : ServiceLease) : Prop :=
  w.leases.get lease.key = some lease ∨
    (w.leases.get lease.key = none ∧ lease.state = .vacant ∧ lease.generation = 0)

theorem nowIso_spec : Ends A nowIso (fun _ w' => w' = w) w := by
  refine ⟨trivial, fun c r w' _ hr => ?_⟩
  cases hr
  show Ends A (iso c.ms) _ w
  unfold iso
  split
  · exact ends_pure rfl
  · exact ends_throw rfl

theorem putAgent_spec {Q : Except HubError Unit → World → Prop} {rec : AgentRecord}
    (hput : ∀ h : safeId rec.id, Q (.ok ()) { w with agents := w.agents.put rec h })
    (herr : ∀ e, Q (.error e) w) : Ends A (Store.putAgent rec) Q w := by
  unfold Store.putAgent
  split
  · next hsafe =>
    refine ⟨trivial, fun c r w' _ hr => ?_⟩
    simp only [handle, hsafe, dif_pos] at hr
    cases hr
    exact hput hsafe
  · exact ends_throw (herr _)

theorem ensureEndpoint_spec : Ends A (ensureEndpoint ctx project name) (fun r w' => Loads w w' ∧
    OnOk (fun _ => w'.agents.get (serviceEndpointId project.id name) ≠ none ∧
      (w.agents.get (serviceEndpointId project.id name) ≠ none → w'.agents = w.agents)) r) w := by
  unfold ensureEndpoint
  refine ends_read (fun _ => rfl) ?_
  cases hget : w.agents.get (serviceEndpointId project.id name) with
  | some existing => exact ends_pure ⟨Loads.refl, by rw [hget]; exact Option.some_ne_none _, fun _ => rfl⟩
  | none =>
    refine ends_read (fun _ => rfl) (ends_bind nowIso_spec (fun t w1 h => ?_) fun e w1 h => ?_)
    · subst h
      refine ends_bind (R := fun r w' => Loads w1 w' ∧
          OnOk (fun _ => w'.agents.get (serviceEndpointId project.id name) ≠ none) r)
        (putAgent_spec (fun hsafe => ⟨⟨rfl, rfl, rfl, fun id => ?_⟩, ?_⟩) fun e => ⟨Loads.refl, trivial⟩)
        (fun _ w' h => ends_pure ⟨h.1, h.2, fun hne => absurd rfl hne⟩) fun e w' h => ⟨h.1, trivial⟩
      · by_cases hid : id = serviceEndpointId project.id name
        · subst hid
          exact .inr ⟨hget, _, Filed.get_put_self w1.agents _ hsafe, rfl, rfl, rfl, project.id, name, rfl, rfl⟩
        · exact .inl (Filed.get_put_ne w1.agents _ hsafe hid)
      · exact fun hnone => Option.some_ne_none _ ((Filed.get_put_self w1.agents _ hsafe).symm.trans hnone)
    · subst h
      exact ⟨Loads.refl, trivial⟩

theorem Loads.projects {projects : Projects} (h : Loads { w with projects } w') : Loads w w' :=
  ⟨h.leases, h.live, h.mailboxes, h.agents⟩

theorem vacantLease_spec {projectId : String} : Ends A (vacantLease projectId name) (fun r w' => w' = w ∧
    OnOk (fun lease => lease.key = (projectId, name) ∧ lease.state = .vacant ∧ lease.generation = 0) r) w := by
  unfold vacantLease
  exact ends_bind nowIso_spec (fun t w1 h => ends_pure ⟨h, rfl, rfl, rfl⟩) fun e w1 h => ⟨h, trivial⟩

theorem getServiceLease_spec {projectId : String} : Ends A (Store.getServiceLease projectId name)
    (fun r w' => w' = w ∧ r = .ok (w.leases.get (projectId, name))) w := by
  unfold Store.getServiceLease
  split
  · exact ⟨trivial, fun _ _ _ _ hr => by cases hr; exact ⟨rfl, rfl⟩⟩
  · next hnot =>
    refine ends_pure ⟨rfl, congrArg Except.ok ?_⟩
    cases hget : w.leases.get (projectId, name) with
    | none => rfl
    | some lease =>
      have hsafe := Filed.valid_of_get hget
      have hkey := Filed.key_of_get hget
      rw [show lease.project = projectId from congrArg Prod.fst hkey,
        show lease.service = name from congrArg Prod.snd hkey] at hsafe
      exact absurd hsafe hnot

structure Reads (w w' : World) (name : String) (s : Loaded) : Prop where
  key : s.lease.key = (s.project.id, name)
  current : CurrentLease w s.lease
  endpoint : w'.agents.get (serviceEndpointId s.project.id name) ≠ none
  agents : w.agents.get (serviceEndpointId s.project.id name) ≠ none → w'.agents = w.agents

def leaseOr (project name : String) (lease : Option ServiceLease) : HubM ServiceLease :=
  match lease with
  | some lease => pure lease
  | none => vacantLease project name

/-- What `load` does about a service that has no record yet. -/
def loadVacant (ctx : ServiceCtx) (project : ProjectRecord) (name : String) (create : Bool)
    (lease : Option ServiceLease) :
    HubM Loaded := do
  if create then
    let endpoint ← ensureEndpoint ctx project name
    let lease ← leaseOr project.id name lease
    return { project, endpoint, lease }
  else throw (.error (s!"no service \"{name}\" in project " ++ project.name ++ " (" ++ project.id ++ ")"))

theorem load_spec {create : Bool} :
    Ends A (load ctx ref name create) (fun r w' => Loads w w' ∧ OnOk (Reads w w' name) r) w := by
  unfold load assertServiceName
  by_cases hname : isServiceName name = true
  swap
  · rw [if_neg hname]
    exact ends_throw ⟨Loads.refl, trivial⟩
  rw [if_pos hname, pure_bind]
  refine ends_bind resolveProject_keeps (fun project w1 h => ?_) fun e w1 h => ?_
  swap
  · obtain ⟨projects, rfl⟩ := h
    exact ⟨Loads.refl.projects, trivial⟩
  obtain ⟨projects, rfl⟩ := h
  refine ends_bind getServiceLease_spec (fun lease w2 h => ?_) fun e w2 h => by cases h.2
  obtain ⟨rfl, hlease⟩ := h
  cases hlease
  have hstored : ∀ lease, w.leases.get (project.id, name) = some lease →
      lease.key = (project.id, name) ∧ CurrentLease w lease := by
    intro lease h
    have hkey := Filed.key_of_get h
    exact ⟨hkey, .inl (by rw [hkey]; exact h)⟩
  refine ends_read (fun _ => rfl) ?_
  have hcreate : ∀ found : Option ServiceLease, w.leases.get (project.id, name) = found →
      Ends A (loadVacant ctx project name create found) (fun r w' => Loads w w' ∧ OnOk (Reads w w' name) r)
        { w with projects } := by
    intro found hfound
    unfold loadVacant
    split
    · refine ends_bind ensureEndpoint_spec (fun endpoint w3 h => ?_) fun e w3 h => ⟨h.1.projects, trivial⟩
      obtain ⟨hloads, hsome, hsame⟩ := h
      cases found with
      | some lease =>
        obtain ⟨hkey, hcurrent⟩ := hstored lease hfound
        exact ends_pure ⟨hloads.projects, hkey, hcurrent, hsome, hsame⟩
      | none =>
        refine ends_bind vacantLease_spec (fun lease w4 h' => ?_) fun e w4 h' => ?_
        · obtain ⟨rfl, hkey, hstate, hgen⟩ := h'
          exact ends_pure ⟨hloads.projects, hkey, .inr ⟨by rw [hkey]; exact hfound, hstate, hgen⟩, hsome, hsame⟩
        · rw [h'.1]
          exact ⟨hloads.projects, trivial⟩
    · exact ends_throw ⟨Loads.refl.projects, trivial⟩
  split
  · next lease endpoint hlease hendpoint =>
    obtain ⟨hkey, hcurrent⟩ := hstored lease hlease
    refine ends_pure ⟨Loads.refl.projects, hkey, hcurrent, ?_, fun _ => rfl⟩
    show w.agents.get _ ≠ none
    rw [hendpoint]
    exact Option.some_ne_none _
  · exact hcreate _ rfl

theorem transition_spec {α : Type} {create : Bool} {fn : Loaded → HubM α} {Q : Except HubError α → World → Prop}
    (herr : ∀ e w1, Loads w w1 → Q (.error e) w1)
    (hfn : ∀ s w1, Loads w w1 → Reads w w1 name s → Ends A (fn s) (fun r w2 => ∀ locks, Q r { w2 with locks }) w1) :
    Ends A (transition ctx ref name create fn) Q w := by
  unfold transition assertServiceName
  by_cases hname : isServiceName name = true
  swap
  · rw [if_neg hname]
    exact ends_throw (herr _ _ Loads.refl)
  rw [if_pos hname, pure_bind]
  refine ends_bind resolveProject_keeps (fun project w1 h => ?_) fun e w1 h => ?_
  swap
  · obtain ⟨projects, rfl⟩ := h
    exact herr _ _ Loads.refl.projects
  obtain ⟨projects, rfl⟩ := h
  refine ends_withLock (herr _ _ Loads.refl.projects) ?_
  refine ends_bind load_spec (fun s w1 h => ?_) fun e w1 h locks => ?_
  · obtain ⟨⟨hleases, hlive, hmail, hagents⟩, hkey, hcurrent, hendpoint, hsame⟩ := h
    exact hfn s w1 ⟨hleases, hlive, hmail, hagents⟩ ⟨hkey, hcurrent, hendpoint, hsame⟩
  · exact herr e _ ⟨h.1.leases, h.1.live, h.1.mailboxes, h.1.agents⟩

theorem write_spec {Q : Except HubError ServiceLease → World → Prop}
    (hput : ∀ t h, Q (.ok { lease with updatedAt := t })
      { w with leases := w.leases.put { lease with updatedAt := t } h })
    (herr : ∀ e, Q (.error e) w) : Ends A (write lease) Q w := by
  unfold write
  refine ends_bind nowIso_spec (fun t w1 h => ?_) fun e w1 h => by subst h; exact herr e
  subst h
  refine ends_bind (R := fun r w' => (∀ e, r = .error e → w' = w1) ∧ OnOk (fun _ => ∃ h,
      w' = { w1 with leases := w1.leases.put { lease with updatedAt := t } h }) r) ?_ (fun _ w' h => ?_)
      fun e w' h => ?_
  · unfold Store.putServiceLease
    split
    · next hproject =>
      split
      · next hservice =>
        refine ⟨trivial, fun c r w' _ hr => ?_⟩
        simp only [handle, hproject, hservice, and_self, dif_pos] at hr
        cases hr
        exact ⟨fun e he => (by cases he), ⟨hproject, hservice⟩, rfl⟩
      · exact ends_throw ⟨fun _ _ => rfl, trivial⟩
    · exact ends_throw ⟨fun _ _ => rfl, trivial⟩
  · obtain ⟨-, h, rfl⟩ := h
    exact ends_pure (hput t h)
  · rw [h.1 e rfl]
    exact herr e

/-! ## The transitions, branch by branch -/

/-- The lease may be reserved without force. -/
def Available (ctx : ServiceCtx) (A : Call → Choice → Prop) (w : World) (lease : ServiceLease) : Prop :=
  lease.state = .vacant ∨
  (lease.state = .reserved ∧ ∃ c r, A .now c ∧ lease.reservation = some r ∧ r.expiresAt < c.ms) ∨
  (lease.state = .active ∧ (ctx.isLive = none → ∀ rec, ownerOf w lease = some rec → SessionGone A w rec))

/-- The one lease a transition puts, and the endpoint it found or made. -/
structure Puts (w w' : World) (next : ServiceLease) : Prop where
  lease : ∃ h, w'.leases = w.leases.put next h
  live : w'.live = w.live
  mailboxes : w'.mailboxes = w.mailboxes
  agents : ∀ id, w'.agents.get id = w.agents.get id ∨
    (w.agents.get id = none ∧ ∃ rec, w'.agents.get id = some rec ∧ Endpoint id rec)
  endpoint : w'.agents.get (serviceEndpointId next.project next.service) ≠ none

/-- The ways a call can end, each with the guard it passed. -/
inductive Outcome (A : Call → Choice → Prop) (c : ServiceCall) (w w' : World) : Except HubError ServiceAnswer → Prop
  | threw (e : HubError) (hw : Loads w w') : Outcome A c w w' (.error e)
  | resolved (i : AcquireInput) (l : ServiceLease) (v : ServiceView) (hop : c.op = .acquire i)
      (hforce : i.force = none) (hw : Loads w w') (hl : w.leases.get l.key = some l)
      (hactive : l.state = .active)
      (howner : w.agents.get (serviceEndpointId l.project l.service) ≠ none →
        ∃ rec, ownerOf w l = some rec ∧ (c.ctx.isLive = none → SessionHeld A w rec)) :
      Outcome A c w w' (.ok (.acquired (.resolved l v)))
  | starting (i : AcquireInput) (l : ServiceLease) (v : ServiceView) (hop : c.op = .acquire i)
      (hforce : i.force = none) (hw : Loads w w') (hl : w.leases.get l.key = some l)
      (hreserved : l.state = .reserved)
      (hnow : ∃ c, A .now c ∧ ∀ r, l.reservation = some r → c.ms ≤ r.expiresAt) :
      Outcome A c w w' (.ok (.acquired (.starting l v)))
  | reserved (i : AcquireInput) (l next : ServiceLease) (v : ServiceView) (r : Reservation)
      (hop : c.op = .acquire i) (hw : Puts w w' next) (hkey : next.key = l.key) (hl : CurrentLease w l)
      (hguard : i.force = some l.generation ∨ (i.force = none ∧ Available c.ctx A w l))
      (hgen : next.generation = l.generation + 1) (hstate : next.state = .reserved)
      (hholder : next.holder = none) (hres : next.reservation = some r) :
      Outcome A c w w' (.ok (.acquired (.reserved next v r.token)))
  | bound (i : BindInput) (l next : ServiceLease) (v : ServiceView) (hop : c.op = .bind i)
      (hw : Puts w w' next) (hkey : next.key = l.key) (hl : w.leases.get l.key = some l)
      (hguard : l.state = .reserved ∧ l.generation = i.generation ∧ l.reservation.map (·.token) = some i.token)
      (hgen : next.generation = l.generation) (hstate : next.state = .active)
      (hholder : next.holder = some i.unit) (hv : v.lease = next) : Outcome A c w w' (.ok (.viewed v))
  | released (i : ReleaseInput) (l next : ServiceLease) (v : ServiceView) (hop : c.op = .release i)
      (hw : Puts w w' next) (hkey : next.key = l.key) (hl : w.leases.get l.key = some l)
      (hguard : i.matches l) (hgen : next.generation = l.generation) (hstate : next.state = .vacant)
      (hv : v.lease = next) : Outcome A c w w' (.ok (.viewed v))
  | handedOff (i : HandoffInput) (l next : ServiceLease) (v : ServiceView) (hop : c.op = .handoff i)
      (hw : Puts w w' next) (hkey : next.key = l.key) (hl : w.leases.get l.key = some l)
      (hguard : l.state = .active ∧ l.generation = i.generation ∧ l.holder = some i.source)
      (hgen : next.generation = l.generation + 1) (hstate : next.state = .active)
      (hholder : next.holder = some i.target) (hv : v.lease = next) : Outcome A c w w' (.ok (.viewed v))
  | verified (i : OwnerInput) (v : ServiceView) (hop : c.op = .verify i) (hw : Loads w w')
      (hl : w.leases.get v.lease.key = some v.lease) (hstate : v.lease.state = .active)
      (hholder : v.lease.holder = some i.unit) (hgen : v.lease.generation = i.generation) :
      Outcome A c w w' (.ok (.viewed v))

theorem Loads.locks {locks : List String} (h : Loads w w') : Loads w { w' with locks } :=
  ⟨h.leases, h.live, h.mailboxes, h.agents⟩

theorem CurrentLease.stored (h : CurrentLease w lease) (hstate : lease.state ≠ .vacant) :
    w.leases.get lease.key = some lease :=
  h.resolve_right fun h => hstate h.2.1

theorem Loads.puts {w1 : World} {s : Loaded} {next : ServiceLease} (h : Loads w w1) (hs : Reads w w1 name s)
    (hv : safeId next.project ∧ safeId next.service) (hleases : w'.leases = w1.leases.put next hv)
    (hagents : w'.agents = w1.agents) (hlive : w'.live = w1.live) (hmail : w'.mailboxes = w1.mailboxes)
    (hkey : next.key = s.lease.key) : Puts w w' next := by
  refine ⟨⟨hv, ?_⟩, hlive.trans h.live, hmail.trans h.mailboxes, ?_, ?_⟩
  · rw [hleases, h.leases]
  · rw [hagents]; exact h.agents
  · have hkey : (next.project, next.service) = (s.project.id, name) := hkey.trans hs.key
    rw [show next.project = s.project.id from congrArg Prod.fst hkey,
      show next.service = name from congrArg Prod.snd hkey, hagents]
    exact hs.endpoint

theorem iso_spec {ms : Int} : Ends A (iso ms) (fun _ w' => w' = w) w := by
  unfold iso
  split
  · exact ends_pure rfl
  · exact ends_throw rfl

theorem reserve_spec {w1 : World} {s : Loaded} {input : AcquireInput} (hloads : Loads w w1)
    (hs : Reads w w1 name s)
    (hguard : input.force = some s.lease.generation ∨ (input.force = none ∧ Available ctx A w s.lease)) :
    Ends A (reserve ctx name input s) (fun r w2 => ∀ locks,
      Outcome A ⟨ctx, ref, name, .acquire input⟩ w { w2 with locks } (r.map ServiceAnswer.acquired)) w1 := by
  have hthrew : ∀ e locks, Outcome A ⟨ctx, ref, name, .acquire input⟩ w { w1 with locks } (.error e) :=
    fun e locks => .threw e hloads.locks
  unfold reserve
  refine ends_call fun c now w2 _ hr => ?_
  cases hr
  refine ends_call fun c token w2 _ hr => ?_
  cases hr
  refine ends_bind iso_spec (fun _ w2 h => ?_) fun e w2 h => by subst h; exact hthrew e
  subst h
  refine ends_bind iso_spec (fun _ w3 h => ?_) fun e w3 h => by subst h; exact hthrew e
  subst h
  refine (wp_bind _ _).mpr (write_spec (fun t hv => ?_) hthrew)
  refine ends_bind view_spec (fun v w4 h => ?_) fun e w4 h => by obtain ⟨_, _, h, _⟩ := h; cases h
  obtain ⟨rfl, _, hv', -, -, -⟩ := h
  cases hv'
  refine ends_pure fun locks => ?_
  show Outcome A _ w _ (.ok (.acquired (.reserved _ v _)))
  exact Outcome.reserved input s.lease _ v ⟨_, _, _, _, _⟩ rfl (hloads.puts hs hv rfl rfl rfl rfl hs.key.symm)
    hs.key.symm hs.current hguard rfl rfl rfl rfl

theorem available_of_health {w1 : World} {health : ServiceHealth} (hloads : Loads w w1)
    (hhealth : HealthOf ctx A w1 lease health) (h1 : health ≠ .healthy) (h2 : health ≠ .starting) :
    Available ctx A w lease := by
  cases health with
  | vacant => exact .inl hhealth
  | starting => exact absurd rfl h2
  | expired => exact .inr (.inl hhealth)
  | healthy => exact absurd rfl h1
  | unhealthy => exact .inr (.inr ⟨hhealth.1, fun h => hloads.gone (hhealth.2 h)⟩)

theorem acquire_spec {input : AcquireInput} : Ends A (acquireService ctx ref name input)
    (fun r w' => Outcome A ⟨ctx, ref, name, .acquire input⟩ w w' (r.map ServiceAnswer.acquired)) w := by
  refine transition_spec (fun e w1 h => .threw e h) fun s w1 hloads hs => ?_
  refine ends_bind view_spec (fun current w2 h => ?_) fun e w2 h => by obtain ⟨_, _, h, _⟩ := h; cases h
  obtain ⟨rfl, v, hv, -, -, hhealth⟩ := h
  cases hv
  cases hf : input.force with
  | some generation =>
    show Ends A (if generation ≠ s.lease.generation then _ else _) _ w2
    split
    · exact ends_throw fun locks => .threw _ hloads.locks
    · next hgen => exact reserve_spec hloads hs (.inl (by rw [hf, not_not.mp hgen]))
  | none =>
    dsimp only
    split
    · next hh =>
      rw [hh] at hhealth
      refine ends_pure fun locks => .resolved input s.lease current rfl hf hloads.locks
        (hs.current.stored (by rw [hhealth.1]; intro h; cases h)) hhealth.1 fun hend => ?_
      have hagents := hs.agents (by
        have hproject : s.lease.project = s.project.id := congrArg Prod.fst hs.key
        have hservice : s.lease.service = name := congrArg Prod.snd hs.key
        rw [← hproject, ← hservice]
        exact hend)
      obtain ⟨-, rec, hrec, hheld⟩ := hhealth
      refine ⟨rec, by rw [← hrec, ownerOf, ownerOf, hagents], fun h => ?_⟩
      obtain ⟨h1, h2, h3⟩ := hheld h
      exact ⟨h1, h2, fun pane hp => by rw [← hloads.live]; exact h3 pane hp⟩
    · next hh =>
      rw [hh] at hhealth
      exact ends_pure fun locks => .starting input s.lease current rfl hf hloads.locks
        (hs.current.stored (by rw [hhealth.1]; intro h; cases h)) hhealth.1 hhealth.2
    · next h1 h2 => exact reserve_spec hloads hs (.inr ⟨hf, available_of_health hloads hhealth h1 h2⟩)

theorem liveUnit_spec {id : String} : Ends A (liveUnit ctx id) (fun _ w' => w' = w) w := by
  unfold liveUnit
  refine ends_read (fun _ => rfl) ?_
  cases w.agents.get id with
  | none => exact ends_throw rfl
  | some unit =>
    refine ends_bind isLive_spec (fun live w1 h => ?_) fun e w1 h => h.1
    rw [h.1]
    split
    · exact ends_pure rfl
    · exact ends_throw rfl

theorem bind_spec {input : BindInput} : Ends A (bindService ctx ref name input)
    (fun r w' => Outcome A ⟨ctx, ref, name, .bind input⟩ w w' (r.map ServiceAnswer.viewed)) w := by
  refine transition_spec (fun e w1 h => .threw e h) fun s w1 hloads hs => ?_
  have hthrew : ∀ e locks, Outcome A ⟨ctx, ref, name, .bind input⟩ w { w1 with locks } (.error e) :=
    fun e locks => .threw e hloads.locks
  show Ends A (if _ then _ else _) _ w1
  split
  · exact ends_throw (hthrew _)
  · next hguard =>
    simp only [not_or, not_not, ne_eq] at hguard
    refine ends_bind liveUnit_spec (fun _ w2 h => ?_) fun e w2 h => by subst h; exact hthrew e
    subst h
    refine (wp_bind _ _).mpr (write_spec (fun t hv => ?_) hthrew)
    refine wp_mono view_spec fun r w3 h locks => ?_
    obtain ⟨rfl, v, rfl, -, hlease, -⟩ := h
    exact .bound input s.lease _ v rfl (hloads.puts hs hv rfl rfl rfl rfl rfl) rfl
      (hs.current.stored (by rw [hguard.1]; intro h; cases h)) hguard rfl rfl rfl hlease

theorem release_spec {input : ReleaseInput} : Ends A (releaseService ctx ref name input)
    (fun r w' => Outcome A ⟨ctx, ref, name, .release input⟩ w w' (r.map ServiceAnswer.viewed)) w := by
  refine transition_spec (fun e w1 h => .threw e h) fun s w1 hloads hs => ?_
  have hthrew : ∀ e locks, Outcome A ⟨ctx, ref, name, .release input⟩ w { w1 with locks } (.error e) :=
    fun e locks => .threw e hloads.locks
  show Ends A (if _ then _ else _) _ w1
  split
  · next hguard =>
    have hstate : s.lease.state ≠ .vacant := by
      have h := of_decide_eq_true hguard
      rcases h.2 with h | h
      · rw [h.1]; intro h; cases h
      · rw [h.1]; intro h; cases h
    refine (wp_bind _ _).mpr (write_spec (fun t hv => ?_) hthrew)
    refine wp_mono view_spec fun r w3 h locks => ?_
    obtain ⟨rfl, v, rfl, -, hlease, -⟩ := h
    exact .released input s.lease _ v rfl (hloads.puts hs hv rfl rfl rfl rfl rfl) rfl
      (hs.current.stored hstate) hguard rfl rfl hlease
  · exact ends_throw (hthrew _)

theorem handoff_spec {input : HandoffInput} : Ends A (handoffService ctx ref name input)
    (fun r w' => Outcome A ⟨ctx, ref, name, .handoff input⟩ w w' (r.map ServiceAnswer.viewed)) w := by
  refine transition_spec (fun e w1 h => .threw e h) fun s w1 hloads hs => ?_
  have hthrew : ∀ e locks, Outcome A ⟨ctx, ref, name, .handoff input⟩ w { w1 with locks } (.error e) :=
    fun e locks => .threw e hloads.locks
  show Ends A (if _ then _ else _) _ w1
  split
  · exact ends_throw (hthrew _)
  · next hguard =>
    simp only [not_or, not_not, ne_eq] at hguard
    refine ends_bind liveUnit_spec (fun _ w2 h => ?_) fun e w2 h => by subst h; exact hthrew e
    subst h
    refine (wp_bind _ _).mpr (write_spec (fun t hv => ?_) hthrew)
    refine wp_mono view_spec fun r w3 h locks => ?_
    obtain ⟨rfl, v, rfl, -, hlease, -⟩ := h
    exact .handedOff input s.lease _ v rfl (hloads.puts hs hv rfl rfl rfl rfl rfl) rfl
      (hs.current.stored (by rw [hguard.1]; intro h; cases h)) hguard rfl hguard.1 rfl hlease

theorem verify_spec {input : OwnerInput} : Ends A (verifyOwnership ctx ref name input)
    (fun r w' => Outcome A ⟨ctx, ref, name, .verify input⟩ w w' (r.map ServiceAnswer.viewed)) w := by
  refine ends_bind load_spec (fun s w1 h => ?_) fun e w1 h => .threw e h.1
  obtain ⟨hloads, hs⟩ := h
  show Ends A (if _ then _ else _) _ w1
  split
  · exact ends_throw (.threw _ hloads)
  · next hguard =>
    simp only [not_or, not_not, ne_eq] at hguard
    refine wp_mono view_spec fun r w2 h => ?_
    obtain ⟨rfl, v, rfl, -, hlease, -⟩ := h
    refine .verified input v rfl hloads ?_ ?_ ?_ ?_
    · rw [hlease]; exact hs.current.stored (by rw [hguard.1]; intro h; cases h)
    · rw [hlease]; exact hguard.1
    · rw [hlease]; exact hguard.2.1
    · rw [hlease]; exact hguard.2.2

theorem call_spec (c : ServiceCall) : Ends A c.prog (fun r w' => Outcome A c w w' r) w := by
  have hmap : ∀ {α : Type} {p : HubM α} {f : α → ServiceAnswer},
      Ends A p (fun r w' => Outcome A c w w' (r.map f)) w → Ends A (f <$> p) (fun r w' => Outcome A c w w' r) w := by
    intro α p f hp
    rw [← bind_pure_comp]
    exact ends_bind hp (fun a w' h => ends_pure h) fun e w' h => h
  obtain ⟨ctx, ref, name, op⟩ := c
  cases op with
  | acquire input => exact hmap acquire_spec
  | bind input => exact hmap bind_spec
  | release input => exact hmap release_spec
  | handoff input => exact hmap handoff_spec
  | verify input => exact hmap verify_spec

end

end Cyberlegion
