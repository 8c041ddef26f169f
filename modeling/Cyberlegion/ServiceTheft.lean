import Cyberlegion.ServiceFencing

/-!
# No silent theft

What replaces a lease, call by call, and what follows for clients that race for a
service that is free: one of them reserves it and the others are told to wait.
Liveness is the default `sessionLive`.
-/

namespace Cyberlegion

open Effects Runs

section
variable {A : Call → Choice → Prop} {c : ServiceCall} {w w' : World} {r : Except HubError ServiceAnswer}
variable {k : String × String} {l next : ServiceLease} {s : ServiceRun} {es : List ServiceEvent} {e : Entry}

/-! ## The invariant of the stored leases -/

/-- A stored lease has the field its state calls for, and its endpoint has a record. -/
structure Kept (w : World) (l : ServiceLease) : Prop where
  reservation : l.state = .reserved → ∃ r, l.reservation = some r
  holder : l.state = .active → ∃ u, l.holder = some u
  endpoint : w.agents.get (serviceEndpointId l.project l.service) ≠ none

def LeasesKept (w : World) : Prop := ∀ k l, w.leases.get k = some l → Kept w l

theorem Loads.has {id : String} (h : Loads w w') (hid : w.agents.get id ≠ none) : w'.agents.get id ≠ none := by
  rcases h.agents id with heq | ⟨hnone, -⟩
  · rw [heq]; exact hid
  · exact absurd hnone hid

theorem Puts.has {id : String} (h : Puts w w' next) (hid : w.agents.get id ≠ none) : w'.agents.get id ≠ none := by
  rcases h.agents id with heq | ⟨hnone, -⟩
  · rw [heq]; exact hid
  · exact absurd hnone hid

theorem Loads.kept (h : Loads w w') (hw : LeasesKept w) : LeasesKept w' := by
  intro k l hl
  rw [h.leases] at hl
  obtain ⟨hres, hhold, hend⟩ := hw k l hl
  exact ⟨hres, hhold, h.has hend⟩

theorem Puts.kept (h : Puts w w' next) (hw : LeasesKept w)
    (hres : next.state = .reserved → ∃ r, next.reservation = some r)
    (hhold : next.state = .active → ∃ u, next.holder = some u) : LeasesKept w' := by
  intro k l hl
  by_cases hk : k = next.key
  · rw [hk, h.get_key] at hl
    cases hl
    exact ⟨hres, hhold, h.endpoint⟩
  · rw [h.get_other hk] at hl
    obtain ⟨hres, hhold, hend⟩ := hw k l hl
    exact ⟨hres, hhold, h.has hend⟩

theorem Outcome.kept (h : Outcome A c w w' r) (hw : LeasesKept w) : LeasesKept w' := by
  cases h with
  | threw _ hl => exact hl.kept hw
  | resolved _ _ _ _ _ hl => exact hl.kept hw
  | starting _ _ _ _ _ hl => exact hl.kept hw
  | verified _ _ _ hl => exact hl.kept hw
  | reserved i l next v r hop hput hkey hl hguard hgen hstate hholder hres =>
    exact hput.kept hw (fun _ => ⟨r, hres⟩) fun h => by rw [hstate] at h; cases h
  | bound i l next v hop hput hkey hl hguard hgen hstate hholder hv =>
    exact hput.kept hw (fun h => by rw [hstate] at h; cases h) fun _ => ⟨_, hholder⟩
  | released i l next v hop hput hkey hl hguard hgen hstate hv =>
    exact hput.kept hw (fun h => by rw [hstate] at h; cases h) fun h => by rw [hstate] at h; cases h
  | handedOff i l next v hop hput hkey hl hguard hgen hstate hholder hv =>
    exact hput.kept hw (fun h => by rw [hstate] at h; cases h) fun _ => ⟨_, hholder⟩

theorem leasesKept_run (h : exec serviceStep (untouched w) es = some s) :
    LeasesKept s.state ∧ ∀ e ∈ s.log, LeasesKept e.before := by
  refine log_run (D := fun _ _ _ => True) (fun k cs u r u' hu _ hr => ⟨(outcome_of_run hr).kept hu, hu⟩) ?_ ?_ ?_
    allSteps_true h
  · intro x u u' hu hx k l hl
    obtain ⟨hends, rfl⟩ := others_cases hx
    obtain ⟨hres, hhold, -⟩ := hu k l hl
    have hl' : u.leases.get l.key = some l := by rw [Filed.key_of_get hl]; exact hl
    exact ⟨hres, hhold, hends l (Filed.mem_values.mpr hl')⟩
  · exact fun k l hl => (Option.some_ne_none l hl.symm).elim
  · intro e he; cases he

/-! ## What replaces a lease -/

/-- The call forces a lease of that generation. -/
def Entry.forces (e : Entry) (generation : Nat) : Prop :=
  ∃ i, e.call.op = .acquire i ∧ i.force = some generation

/-- The call is an unforced acquire that met positive evidence that the lease's owner is gone. -/
def Entry.foundGone (e : Entry) (l : ServiceLease) : Prop :=
  ∃ i, e.call.op = .acquire i ∧ i.force = none ∧
    ∀ rec, ownerOf e.before l = some rec → SessionGone e.answered e.before rec

/-- The call releases the lease or hands it off, by its holder and generation. -/
def Entry.byOwner (e : Entry) (l : ServiceLease) : Prop :=
  ∃ u, l.holder = some u ∧
    ((∃ i, e.call.op = .release i ∧ i.generation = l.generation ∧ i.unit = some u) ∨
      ∃ i, e.call.op = .handoff i ∧ i.generation = l.generation ∧ i.source = u)

/-- The call binds or releases the reservation, by its token and generation. -/
def Entry.byToken (e : Entry) (l : ServiceLease) (r : Reservation) : Prop :=
  (∃ i, e.call.op = .bind i ∧ i.generation = l.generation ∧ i.token = r.token) ∨
    ∃ i, e.call.op = .release i ∧ i.generation = l.generation ∧ i.token = some r.token

/-- Every reading of the clock during the call is before the reservation expires. -/
def Entry.unexpired (e : Entry) (r : Reservation) : Prop := ∀ c, e.answered .now c → c.ms ≤ r.expiresAt

/-- What may replace the lease of a service in one call. -/
structure NoTheft (k : String × String) (e : Entry) : Prop where
  active : ∀ l, e.before.leases.get k = some l → l.state = .active → e.after.leases.get k ≠ some l →
    e.byOwner l ∨ e.forces l.generation ∨ e.foundGone l
  reserved : ∀ l, e.before.leases.get k = some l → l.state = .reserved → ∃ r, l.reservation = some r ∧
    (e.unexpired r → e.after.leases.get k ≠ some l → e.byToken l r ∨ e.forces l.generation)

theorem CurrentLease.eq {l₀ : ServiceLease} (h : CurrentLease w l₀) (hl : w.leases.get k = some l)
    (hk : k = l₀.key) : l₀ = l := by
  rw [hk] at hl
  rcases h with h | ⟨h, -⟩
  · rw [h] at hl; cases hl; rfl
  · rw [h] at hl; cases hl

theorem Puts.replaces {l₀ : ServiceLease} (h : Puts w w' next) (hkey : next.key = l₀.key)
    (hl₀ : CurrentLease w l₀) (hl : w.leases.get k = some l) (hne : w'.leases.get k ≠ some l) : l₀ = l := by
  have hk : k = next.key := by
    refine by_contra fun hk => hne ?_
    rw [h.get_other hk]; exact hl
  exact hl₀.eq hl (hk.trans hkey)

theorem noTheft (h : Outcome e.answered e.call e.before e.after e.result) (hkept : LeasesKept e.before)
    (hlive : e.call.ctx.isLive = none) (k : String × String) : NoTheft k e := by
  constructor
  · intro l hl hactive hne
    obtain ⟨call, trace, result, before, after⟩ := e
    cases h with
    | threw _ hw | resolved _ _ _ _ _ hw | starting _ _ _ _ _ hw | verified _ _ _ hw =>
      exact absurd (by rw [hw.leases]; exact hl) hne
    | reserved i l₀ next v r hop hw hkey hl₀ hguard =>
      obtain rfl := hw.replaces hkey hl₀ hl hne
      rcases hguard with hforce | ⟨hforce, hvac | ⟨hres, -⟩ | ⟨-, hgone⟩⟩
      · exact .inr (.inl ⟨i, hop, hforce⟩)
      · rw [hvac] at hactive; cases hactive
      · rw [hres] at hactive; cases hactive
      · exact .inr (.inr ⟨i, hop, hforce, hgone hlive⟩)
    | bound i l₀ next v hop hw hkey hl₀ hguard =>
      obtain rfl := hw.replaces hkey (.inl hl₀) hl hne
      rw [hguard.1] at hactive; cases hactive
    | released i l₀ next v hop hw hkey hl₀ hguard =>
      obtain rfl := hw.replaces hkey (.inl hl₀) hl hne
      obtain ⟨hgen, ⟨hres, -⟩ | ⟨-, hunit, hholder⟩⟩ := of_decide_eq_true hguard
      · rw [hres] at hactive; cases hactive
      · obtain ⟨u, hu⟩ := Option.isSome_iff_exists.mp hunit
        exact .inl ⟨u, hholder.trans hu, .inl ⟨i, hop, hgen.symm, hu⟩⟩
    | handedOff i l₀ next v hop hw hkey hl₀ hguard =>
      obtain rfl := hw.replaces hkey (.inl hl₀) hl hne
      exact .inl ⟨i.source, hguard.2.2, .inr ⟨i, hop, hguard.2.1.symm, rfl⟩⟩
  · intro l hl hreserved
    obtain ⟨r, hr⟩ := (hkept k l hl).reservation hreserved
    refine ⟨r, hr, fun hnow hne => ?_⟩
    obtain ⟨call, trace, result, before, after⟩ := e
    cases h with
    | threw _ hw | resolved _ _ _ _ _ hw | starting _ _ _ _ _ hw | verified _ _ _ hw =>
      exact absurd (by rw [hw.leases]; exact hl) hne
    | reserved i l₀ next v r' hop hw hkey hl₀ hguard =>
      obtain rfl := hw.replaces hkey hl₀ hl hne
      rcases hguard with hforce | ⟨hforce, hvac | ⟨-, c, r'', hc, hr'', hlt⟩ | ⟨hact, -⟩⟩
      · exact .inr ⟨i, hop, hforce⟩
      · rw [hvac] at hreserved; cases hreserved
      · rw [hr] at hr''
        cases hr''
        have := hnow c hc
        omega
      · rw [hact] at hreserved; cases hreserved
    | bound i l₀ next v hop hw hkey hl₀ hguard =>
      obtain rfl := hw.replaces hkey (.inl hl₀) hl hne
      rw [hr] at hguard
      exact .inl (.inl ⟨i, hop, hguard.2.1.symm, (Option.some.inj hguard.2.2).symm⟩)
    | released i l₀ next v hop hw hkey hl₀ hguard =>
      obtain rfl := hw.replaces hkey (.inl hl₀) hl hne
      obtain ⟨hgen, ⟨-, -, htoken⟩ | ⟨hact, -⟩⟩ := of_decide_eq_true hguard
      · rw [hr] at htoken
        exact .inl (.inr ⟨i, hop, hgen.symm, htoken.symm⟩)
      · rw [hact] at hreserved; cases hreserved
    | handedOff i l₀ next v hop hw hkey hl₀ hguard =>
      obtain rfl := hw.replaces hkey (.inl hl₀) hl hne
      rw [hguard.1] at hreserved; cases hreserved

/-! ## Racing acquires -/

def Entry.acquires (e : Entry) (k : String × String) : Prop :=
  ∃ i result, e.call.op = .acquire i ∧ i.force = none ∧ e.result = .ok (.acquired result) ∧ result.lease.key = k

/-- A bind, a release or a forced acquire of the service that took effect. -/
def Entry.frees (e : Entry) (k : String × String) : Prop :=
  (∃ view, e.result = .ok (.viewed view) ∧ view.lease.key = k ∧
    ((∃ i, e.call.op = .bind i) ∨ ∃ i, e.call.op = .release i)) ∨
  ∃ i result, e.call.op = .acquire i ∧ i.force ≠ none ∧ e.result = .ok (.acquired result) ∧ result.lease.key = k

/-- The owner of the lease is gone, and its multiplexer answers while the call asks. -/
def Entry.ownerGone (e : Entry) (l : ServiceLease) : Prop :=
  ∀ rec, ownerOf e.before l = some rec → rec.status = .exited ∨ rec.status = .stopped ∨
    ∃ pane, rec.pane = some pane ∧ (pane.mux, pane.id) ∉ e.before.live ∧
      ∀ c, e.answered (.listPanes pane.mux) c → c.list ≠ []

/-- The service is free when the call begins: its lease is vacant, expired by every
reading of the clock during the call, or held by an owner who is gone. -/
def Entry.findsFree (e : Entry) (k : String × String) : Prop :=
  ∀ l, e.before.leases.get k = some l → l.state = .vacant ∨
    (l.state = .reserved ∧ ∀ r, l.reservation = some r → ∀ c, e.answered .now c → r.expiresAt < c.ms) ∨
    (l.state = .active ∧ e.ownerGone l)

theorem Entry.not_held {l : ServiceLease} {rec : AgentRecord} (h : e.ownerGone l)
    (hrec : ownerOf e.before l = some rec) : ¬SessionHeld e.answered e.before rec := by
  intro ⟨hexited, hstopped, hpane⟩
  rcases h rec hrec with h | h | ⟨pane, hp, hlive, hlist⟩
  · exact hexited h
  · exact hstopped h
  · rcases hpane pane hp with h | ⟨c, hc, hnil⟩
    · exact hlive h
    · exact hlist c hc hnil

theorem Entry.free_reserves (h : Outcome e.answered e.call e.before e.after e.result) (hkept : LeasesKept e.before)
    (hlive : e.call.ctx.isLive = none) (hacq : e.acquires k) (hfree : e.findsFree k) :
    ∃ l v token r, e.result = .ok (.acquired (.reserved l v token)) ∧ l.key = k ∧ l.state = .reserved ∧
      l.reservation = some r ∧ e.after.leases.get k = some l := by
  obtain ⟨i', result, hop', hforce', hres, rfl⟩ := hacq
  obtain ⟨call, trace, _, before, after⟩ := e
  cases hres
  cases h with
  | resolved i l v hop hforce hw hl hactive howner =>
    exfalso
    obtain ⟨rec, hrec, hheld⟩ := howner (hkept _ _ hl).endpoint
    rcases hfree l hl with h | ⟨h, -⟩ | ⟨-, hgone⟩
    · rw [hactive] at h; cases h
    · rw [hactive] at h; cases h
    · exact Entry.not_held hgone hrec (hheld hlive)
  | starting i l v hop hforce hw hl hreserved hnow =>
    exfalso
    obtain ⟨c, hc, hle⟩ := hnow
    obtain ⟨r, hr⟩ := (hkept _ _ hl).reservation hreserved
    rcases hfree l hl with h | ⟨-, h⟩ | ⟨h, -⟩
    · rw [hreserved] at h; cases h
    · have h1 := h r hr c hc
      have h2 := hle r hr
      omega
    · rw [hreserved] at h; cases h
  | reserved i l next v r hop hw hkey hl hguard hgen hstate hholder hres =>
    exact ⟨next, v, r.token, r, rfl, rfl, hstate, hres, hw.get_key⟩

/-- While a reservation has not expired, a call that neither binds, releases nor
forces the service leaves it reserved, and an unforced acquire is told to wait. -/
theorem Entry.reserved_waits {rv : Reservation} (h : Outcome e.answered e.call e.before e.after e.result)
    (hl : e.before.leases.get k = some l) (hstate : l.state = .reserved) (hrv : l.reservation = some rv)
    (hfrees : ¬e.frees k) (hnow : e.unexpired rv) :
    e.after.leases.get k = some l ∧
      (e.acquires k → ∃ l' v, e.result = .ok (.acquired (.starting l' v))) := by
  obtain ⟨call, trace, result, before, after⟩ := e
  have hkeep : ∀ {l₀ next : ServiceLease}, Puts before after next → next.key = l₀.key → CurrentLease before l₀ →
      (l₀ = l → k = next.key → False) → after.leases.get k = some l := by
    intro l₀ next hw hkey hl₀ hne
    refine by_contra fun hafter => ?_
    have hk : k = next.key := by
      refine by_contra fun hk => hafter ?_
      show after.leases.get k = some l
      rw [hw.get_other hk]; exact hl
    exact hne (hw.replaces hkey hl₀ hl hafter) hk
  cases h with
  | threw _ hw =>
    refine ⟨by rw [hw.leases]; exact hl, fun ⟨_, _, _, _, hres, _⟩ => by cases hres⟩
  | resolved i l' v hop hforce hw hl' hactive =>
    refine ⟨by rw [hw.leases]; exact hl, fun ⟨_, _, _, _, hres, hk⟩ => ?_⟩
    cases hres
    have hsame : before.leases.get k = some l' := by rw [← hk]; exact hl'
    rw [hl] at hsame
    cases hsame
    rw [hstate] at hactive; cases hactive
  | starting i l' v hop hforce hw => exact ⟨by rw [hw.leases]; exact hl, fun _ => ⟨l', v, rfl⟩⟩
  | verified i v hop hw =>
    refine ⟨by rw [hw.leases]; exact hl, fun ⟨_, _, _, _, hres, _⟩ => by cases hres⟩
  | reserved i l₀ next v r hop hw hkey hl₀ hguard =>
    have hne : l₀ = l → k = next.key → False := by
      intro heq hk
      subst heq
      rcases hguard with hforce | ⟨-, hvac | ⟨-, c, r', hc, hr', hlt⟩ | ⟨hact, -⟩⟩
      · exact hfrees (.inr ⟨i, _, hop, by rw [hforce]; exact Option.some_ne_none _, rfl, hk.symm⟩)
      · rw [hvac] at hstate; cases hstate
      · rw [hrv] at hr'
        cases hr'
        have := hnow c hc
        omega
      · rw [hact] at hstate; cases hstate
    refine ⟨hkeep hw hkey hl₀ hne, fun ⟨_, _, _, _, hres, hk⟩ => ?_⟩
    cases hres
    exact (hne (hl₀.eq hl (hk.symm.trans hkey)) hk.symm).elim
  | bound i l₀ next v hop hw hkey hl₀ hguard hgen hstate' hholder hv =>
    refine ⟨hkeep hw hkey (.inl hl₀) fun _ hk => ?_, fun ⟨_, _, hop', _⟩ => by cases hop.symm.trans hop'⟩
    exact hfrees (.inl ⟨v, rfl, by rw [hv]; exact hk.symm, .inl ⟨i, hop⟩⟩)
  | released i l₀ next v hop hw hkey hl₀ hguard hgen hstate' hv =>
    refine ⟨hkeep hw hkey (.inl hl₀) fun _ hk => ?_, fun ⟨_, _, hop', _⟩ => by cases hop.symm.trans hop'⟩
    exact hfrees (.inl ⟨v, rfl, by rw [hv]; exact hk.symm, .inr ⟨i, hop⟩⟩)
  | handedOff i l₀ next v hop hw hkey hl₀ hguard =>
    refine ⟨hkeep hw hkey (.inl hl₀) fun heq _ => ?_, fun ⟨_, _, hop', _⟩ => by cases hop.symm.trans hop'⟩
    rw [← heq, hguard.1] at hstate; cases hstate

/-- Until the reservation expires, or is bound, released or forced, the acquires of a log all wait. -/
theorem waits_of_linked {rv : Reservation} {log : List Entry} {leases leases' : Leases}
    (hlinked : Linked (·.before.leases) (·.after.leases) leases log leases')
    (hout : ∀ e ∈ log, Outcome e.answered e.call e.before e.after e.result)
    (hl : leases.get k = some l) (hstate : l.state = .reserved) (hrv : l.reservation = some rv)
    (hfrees : ∀ e ∈ log, ¬e.frees k) (hnow : ∀ e ∈ log, e.unexpired rv) :
    ∀ e ∈ log, e.acquires k → ∃ l' v, e.result = .ok (.acquired (.starting l' v)) := by
  induction log generalizing leases with
  | nil => intro e he; cases he
  | cons d log ih =>
    obtain ⟨rfl, hlinked⟩ := hlinked
    have hwait := Entry.reserved_waits (hout d List.mem_cons_self) hl hstate hrv (hfrees d List.mem_cons_self)
      (hnow d List.mem_cons_self)
    intro e he
    rcases List.mem_cons.mp he with rfl | he
    · exact hwait.2
    · exact ih hlinked (fun e he => hout e (List.mem_cons_of_mem _ he)) hwait.1
        (fun e he => hfrees e (List.mem_cons_of_mem _ he)) (fun e he => hnow e (List.mem_cons_of_mem _ he)) e he

/-- Of the unforced acquires that follow when the service is free, until the next bind,
release, force or expiry, the first reserves it and every other waits. -/
def FirstReserves (k : String × String) (log : List Entry) : Prop :=
  ∀ (pre : List Entry) (first : Entry) (rest : List Entry), log = pre ++ first :: rest →
    first.acquires k → first.findsFree k →
    ∃ l v token r, first.result = .ok (.acquired (.reserved l v token)) ∧ l.reservation = some r ∧
      ((∀ e ∈ rest, ¬e.frees k ∧ e.unexpired r) →
        ∀ e ∈ rest, e.acquires k → ∃ l' v', e.result = .ok (.acquired (.starting l' v')))

theorem firstReserves {log : List Entry} {leases leases' : Leases}
    (hlinked : Linked (·.before.leases) (·.after.leases) leases log leases')
    (hout : ∀ e ∈ log, Outcome e.answered e.call e.before e.after e.result)
    (hkept : ∀ e ∈ log, LeasesKept e.before) (hlive : ∀ e ∈ log, e.call.ctx.isLive = none) :
    FirstReserves k log := by
  intro pre first rest hsplit hacq hfree
  subst hsplit
  have hfirst : first ∈ pre ++ first :: rest := List.mem_append_right _ List.mem_cons_self
  have hrest : ∀ e ∈ rest, e ∈ pre ++ first :: rest :=
    fun e he => List.mem_append_right _ (List.mem_cons_of_mem _ he)
  obtain ⟨l, v, token, r, hres, -, hstate, hr, hafter⟩ :=
    first.free_reserves (hout first hfirst) (hkept first hfirst) (hlive first hfirst) hacq hfree
  refine ⟨l, v, token, r, hres, hr, fun hquiet => ?_⟩
  obtain ⟨_, -, -, hlinked⟩ := linked_append.mp hlinked
  exact waits_of_linked hlinked (fun e he => hout e (hrest e he)) hafter hstate hr
    (fun e he => (hquiet e he).1) fun e he => (hquiet e he).2

/-- No silent theft: in every run of the service verbs, whatever replaces the lease of a
service had the right to, and a race for a free service has one winner. -/
theorem no_silent_theft (w : World) (es : List ServiceEvent) (s : ServiceRun)
    (h : exec serviceStep (untouched w) es = some s) (hlive : ∀ e ∈ s.log, e.call.ctx.isLive = none)
    (k : String × String) : (∀ e ∈ s.log, NoTheft k e) ∧ FirstReserves k s.log := by
  have hkept := (leasesKept_run h).2
  exact ⟨fun e he => noTheft (outcomes h e he) (hkept e he) (hlive e he) k,
    firstReserves (linked h) (outcomes h) hkept hlive⟩

end

def Entry.tokenOf (e : Entry) (k : String × String) : Option (Option String) :=
  match e.result with
  | .ok (.acquired result) =>
    if result.lease.key = k then
      match result with
      | .reserved _ _ token => some (some token)
      | _ => some none
    else none
  | _ => none

theorem Entry.acquires_of_tokenOf {e : Entry} {k : String × String} {i : AcquireInput} {token : Option String}
    (hop : e.call.op = .acquire i) (hforce : i.force = none) (h : e.tokenOf k = some token) : e.acquires k := by
  obtain ⟨call, trace, result, before, after⟩ := e
  rcases result with _ | ⟨result | _⟩
  · cases h
  · simp only [tokenOf] at h
    split at h
    · next hk => exact ⟨i, result, hop, hforce, rfl, hk⟩
    · cases h
  · cases h

theorem no_silent_theft_race : ∃ s first second,
    exec serviceStep (untouched workshop) [webCall (.acquire {}) 16, webCall (.acquire {}) 7] = some s ∧
    s.log = [first, second] ∧ (∃ l v token, first.result = .ok (.acquired (.reserved l v token))) ∧
    ∃ l v, second.result = .ok (.acquired (.starting l v)) := by
  have hrun : (exec serviceStep (untouched workshop) [webCall (.acquire {}) 16, webCall (.acquire {}) 7]).map
      (fun s => s.log.map fun e : Entry => (e.tokenOf ("p", "web"),
        e.issued.bind fun l => l.reservation.map (·.expiresAt), e.trace.all (·.2.ms = 0))) =
      some [(some (some ""), some 300000, true), (some none, none, true)] := by
    decide +kernel
  obtain ⟨s, hs, hlog⟩ := Option.map_eq_some_iff.mp hrun
  obtain ⟨s₁, hs₁, hs₂⟩ := (exec_cons_eq_some _).mp hs
  obtain ⟨s₂, hs₂, heq⟩ := (exec_cons_eq_some _).mp hs₂
  cases heq
  simp only [webCall, serviceStep, logStep] at hs₁ hs₂
  obtain ⟨⟨r₁, w₁⟩, hr₁, rfl⟩ := Option.map_eq_some_iff.mp hs₁
  obtain ⟨⟨r₂, w₂⟩, hr₂, rfl⟩ := Option.map_eq_some_iff.mp hs₂
  simp only [untouched, List.nil_append, List.cons_append, List.map_cons, List.map_nil, List.cons.injEq,
    Prod.mk.injEq] at hlog
  obtain ⟨⟨htoken, hexp, -⟩, ⟨htoken', -, hclock⟩, -⟩ := hlog
  have htheft := (no_silent_theft workshop _ _ hs (by
    intro e he
    simp only [untouched, List.nil_append, List.cons_append, List.mem_cons, List.not_mem_nil, or_false] at he
    rcases he with rfl | rfl <;> rfl) ("p", "web")).2 [] _ [_] rfl
    (Entry.acquires_of_tokenOf rfl rfl htoken) fun l hl => ?_
  · obtain ⟨l, v, token, r, hres, hr, hwait⟩ := htheft
    refine ⟨_, _, _, hs, rfl, ⟨l, v, token, hres⟩, ?_⟩
    have hres : r₁ = _ := hres
    subst hres
    have hex : r.expiresAt = 300000 := by
      simp only [Entry.issued, hr, Option.bind_some, Option.map_some, Option.some.injEq] at hexp
      exact hexp
    refine hwait ?_ _ List.mem_cons_self (Entry.acquires_of_tokenOf rfl rfl htoken')
    intro e he
    rw [List.mem_singleton.mp he]
    refine ⟨?_, fun c hc => ?_⟩
    · rintro (⟨_, -, -, ⟨i, hi⟩ | ⟨i, hi⟩⟩ | ⟨i, _, hop, hforce, -⟩)
      · cases hi
      · cases hi
      · cases hop; exact hforce rfl
    · have hms : c.ms = 0 := of_decide_eq_true (List.all_eq_true.mp hclock _ hc)
      omega
  · exact (Option.some_ne_none l hl.symm).elim

end Cyberlegion
