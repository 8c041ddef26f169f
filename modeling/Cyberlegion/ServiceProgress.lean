import Cyberlegion.ServiceTheft
import Cyberlegion.ServiceRefusals

/-!
# Transitions that go through

Which service a transition works on, and when a bind or a release of a current
reservation must succeed: its lock is granted, the clock reads a date, the reference
resolves to the project, and the unit to bind is live.
-/

namespace Cyberlegion

open Effects Runs

section
variable {ctx : ServiceCtx} {A : Call → Choice → Prop} {w w' : World} {project : ProjectRecord}
variable {lease : ServiceLease} {name ref : String} {cs : List Choice}

/-! ## The service of a transition -/

/-- The answers begin with a resolving of the reference to the project. -/
def ResolvesTo (ctx : ServiceCtx) (ref : String) (w : World) (cs : List Choice) (project : ProjectRecord) : Prop :=
  ∃ cs₁ cs₂ w₁, cs = cs₁ ++ cs₂ ∧ run handle (resolveProject ctx.toCtx ref) cs₁ w = some (.ok project, w₁)

theorem resolveProject_known (hp : w.projects.get project.id = some project) :
    Ends A (resolveProject ctx.toCtx project.id) (fun r w' => r = .ok project ∧ w' = w) w := by
  unfold resolveProject Store.getProject
  rw [if_pos (Filed.valid_of_get hp)]
  refine ends_call fun c r w' _ hr => ?_
  cases hr
  rw [hp]
  exact ends_pure ⟨rfl, rfl⟩

theorem load_project {create : Bool} (hp : w.projects.get project.id = some project) :
    Ends A (load ctx project.id name create) (fun r _ => OnOk (fun s => s.project = project) r) w := by
  unfold load assertServiceName
  split
  swap
  · exact ends_throw trivial
  rw [pure_bind]
  refine ends_bind (resolveProject_known hp) (fun p w1 h => ?_) fun e w1 h => by cases h.1
  obtain ⟨hok, rfl⟩ := h
  cases hok
  apply ends_after
  intro found w2
  apply ends_after
  intro endpoint w3
  split
  · exact ends_pure rfl
  · split
    · apply ends_after
      intro endpoint w4
      apply ends_after
      intro lease w5
      exact ends_pure rfl
    · exact ends_throw trivial

theorem transition_key {α : Type} {create : Bool} {fn : Loaded → HubM α} {leaseOf : α → ServiceLease} {a : α}
    (hfn : ∀ s w, s.lease.key = (s.project.id, name) →
      Ends (fun _ _ => True) (fn s) (fun r _ => OnOk (fun a => (leaseOf a).key = s.lease.key) r) w)
    (h : run handle (transition ctx ref name create fn) cs w = some (.ok a, w')) :
    isServiceName name = true ∧ ∃ p, ResolvesTo ctx ref w cs p ∧ (leaseOf a).key = (p.id, name) := by
  unfold transition assertServiceName at h
  by_cases hname : isServiceName name = true
  swap
  · rw [if_neg hname] at h
    cases cs <;> cases h
  rw [if_pos hname, pure_bind] at h
  rcases run_bind_cases h with ⟨e, he, -⟩ | ⟨cs₁, cs₂, p, w₁, rfl, hresolve, hrest⟩
  · cases he
  refine ⟨hname, p, ⟨cs₁, cs₂, w₁, rfl, hresolve⟩, ?_⟩
  have hp : w₁.projects.get p.id = some p := ends_run resolveProject_registers hresolve
  refine ends_run (Q := fun r _ => OnOk (fun a => (leaseOf a).key = (p.id, name)) r) (ends_withLock trivial ?_) hrest
  refine ends_bind (ends_and load_spec (load_project hp)) (fun s w2 h => ?_) fun e w2 h locks => trivial
  obtain ⟨⟨-, hreads⟩, hproject⟩ := h
  refine wp_mono (hfn s w2 hreads.key) fun r w3 h locks => ?_
  cases r with
  | ok a =>
    have hkey : (leaseOf a).key = s.lease.key := h
    have hproject : s.project = p := hproject
    show (leaseOf a).key = (p.id, name)
    rw [hkey, hreads.key, hproject]
  | error e => trivial

theorem write_key : Ends A (write lease) (fun r _ => OnOk (fun next => next.key = lease.key) r) w :=
  write_spec (fun _ _ => rfl) fun _ => trivial

theorem view_lease {endpoint : AgentRecord} :
    Ends A (view ctx project endpoint lease) (fun r _ => OnOk (fun v => v.lease = lease) r) w := by
  refine wp_mono view_spec fun r w' h => ?_
  obtain ⟨-, v, rfl, -, hlease, -⟩ := h
  exact hlease

theorem writes_key {s : Loaded} (hkey : lease.key = s.lease.key) :
    Ends A (do let next ← write lease; view ctx s.project s.endpoint next)
      (fun r _ => OnOk (fun v => v.lease.key = s.lease.key) r) w := by
  refine ends_bind write_key (fun next w1 h => ?_) fun _ _ _ => trivial
  refine wp_mono view_lease fun r w2 h' => ?_
  cases r with
  | ok v =>
    have hlease : v.lease = next := h'
    have hnext : next.key = lease.key := h
    show v.lease.key = s.lease.key
    rw [hlease, hnext, hkey]
  | error e => trivial

theorem acquire_key {input : AcquireInput} {result : AcquireResult}
    (h : run handle (acquireService ctx ref name input) cs w = some (.ok result, w')) :
    isServiceName name = true ∧ ∃ p, ResolvesTo ctx ref w cs p ∧ result.lease.key = (p.id, name) := by
  refine transition_key (fun s w hs => ?_) h
  have hreserve : ∀ w, Ends (fun _ _ => True) (reserve ctx name input s)
      (fun r _ => OnOk (fun result => result.lease.key = s.lease.key) r) w := by
    intro w
    apply ends_after
    intro now w1
    apply ends_after
    intro token w2
    apply ends_after
    intro issued w3
    apply ends_after
    intro expires w4
    refine ends_bind write_key (fun next w5 h => ?_) fun _ _ _ => trivial
    apply ends_after
    intro v w6
    refine ends_pure ?_
    show next.key = s.lease.key
    have hnext : next.key = (s.project.id, name) := h
    rw [hnext, hs]
  apply ends_after
  intro current w1
  split
  · split
    · exact ends_throw trivial
    · exact hreserve w1
  · split
    · exact ends_pure rfl
    · exact ends_pure rfl
    · exact hreserve w1

theorem bind_key {input : BindInput} {v : ServiceView}
    (h : run handle (bindService ctx ref name input) cs w = some (.ok v, w')) :
    isServiceName name = true ∧ ∃ p, ResolvesTo ctx ref w cs p ∧ v.lease.key = (p.id, name) := by
  refine transition_key (fun s w _ => ?_) h
  show Ends _ (if _ then _ else _) _ w
  split
  · exact ends_throw trivial
  · apply ends_after
    intro unit w1
    exact writes_key rfl

theorem release_key {input : ReleaseInput} {v : ServiceView}
    (h : run handle (releaseService ctx ref name input) cs w = some (.ok v, w')) :
    isServiceName name = true ∧ ∃ p, ResolvesTo ctx ref w cs p ∧ v.lease.key = (p.id, name) := by
  refine transition_key (fun s w _ => ?_) h
  show Ends _ (if _ then _ else _) _ w
  split
  · exact writes_key rfl
  · exact ends_throw trivial

/-! ## Transitions that cannot fail -/

/-- The outside grants the lock and the clock reads a date. -/
def Grants (op : Call) (c : Choice) : Prop :=
  match op with
  | .acquireLock _ => c.ok = true
  | .now => IsDate c.ms
  | _ => True

/-- The unit has a record, and no answer shows its session gone. -/
def UnitLive (ctx : ServiceCtx) (A : Call → Choice → Prop) (w : World) (id : String) : Prop :=
  ∃ rec, w.agents.get id = some rec ∧ rec.status ≠ .exited ∧
    match ctx.isLive with
    | some f => f rec = true
    | none => rec.status ≠ .stopped ∧ ∀ pane, rec.pane = some pane →
        ∀ c, A (.listPanes pane.mux) c → c.list = [] ∨ ∃ p ∈ c.list, p.id = pane.id

/-- The service is reserved under the generation and the token. -/
def ReservedAs (w : World) (k : String × String) (generation : Nat) (token : String) : Prop :=
  ∃ l, w.leases.get k = some l ∧ l.state = .reserved ∧ l.generation = generation ∧
    l.reservation.map (·.token) = some token

section
variable (hA : ∀ op c, A op c → Grants op c)
include hA

theorem nowIso_granted : Ends A nowIso (fun r w' => w' = w ∧ ∃ t, r = .ok t) w := by
  refine ⟨trivial, fun c r w' hc hr => ?_⟩
  cases hr
  have hdate : c.ms.natAbs ≤ 8640000000000000 := hA _ _ hc
  show Ends A (iso c.ms) _ w
  unfold iso
  rw [if_pos hdate]
  exact ends_pure ⟨rfl, c.ms, rfl⟩

theorem write_granted (hproject : safeId lease.project) (hservice : safeId lease.service) :
    Ends A (write lease) (fun r _ => ∃ next, r = .ok next) w := by
  refine ends_bind (nowIso_granted hA) (fun t w1 h => ?_) fun e w1 h => by obtain ⟨_, _, h⟩ := h; cases h
  show Ends A (Store.putServiceLease { lease with updatedAt := t } >>= _) _ w1
  unfold Store.putServiceLease
  rw [if_pos hproject, if_pos hservice]
  exact ends_call fun c r w2 _ _ => ends_pure ⟨_, rfl⟩

omit hA in
theorem liveUnit_granted {id : String} (hunit : UnitLive ctx A w id) :
    Ends A (liveUnit ctx id) (fun r w' => w' = w ∧ ∃ unit, r = .ok unit) w := by
  obtain ⟨rec, hget, hexited, hlive⟩ := hunit
  unfold liveUnit
  refine ends_read (fun _ => rfl) ?_
  rw [hget]
  have hisLive : Ends A (isLive ctx rec) (fun r w' => w' = w ∧ r = .ok true) w := by
    unfold isLive
    rw [if_neg hexited]
    cases hdefault : ctx.isLive with
    | some f =>
      rw [hdefault] at hlive
      have hlive : f rec = true := hlive
      exact ends_pure ⟨rfl, congrArg Except.ok hlive⟩
    | none =>
      rw [hdefault] at hlive
      obtain ⟨hstopped, hpanes⟩ := hlive
      show Ends A (sessionLive rec) _ w
      unfold sessionLive
      rw [if_neg (not_or.mpr ⟨hexited, hstopped⟩)]
      cases hpane : rec.pane with
      | none => exact ends_pure ⟨rfl, rfl⟩
      | some pane =>
        refine ends_call fun c r w1 hc hr => ?_
        simp only [handle] at hr
        split at hr
        · cases hr
          refine ends_pure ⟨rfl, congrArg Except.ok (decide_eq_true ?_)⟩
          simp only [List.any_eq_true, decide_eq_true_eq]
          exact hpanes pane hpane c hc
        · cases hr
  refine ends_bind hisLive (fun live w1 h => ?_) fun e w1 h => by cases h.2
  obtain ⟨rfl, h⟩ := h
  cases h
  exact ends_pure ⟨rfl, rec, rfl⟩

theorem withLock_granted {α : Type} {lock : String} {fn : HubM α}
    (hfn : Ends A fn (fun r _ => ∃ a, r = .ok a) { w with locks := lock :: w.locks }) :
    Ends A (Store.withLock lock fn) (fun r _ => ∃ a, r = .ok a) w := by
  refine (wp_bind _ _).mpr ⟨trivial, fun c r w' hc hr => ?_⟩
  have hok : c.ok = true := hA _ _ hc
  simp only [handle, hok, if_true] at hr
  split at hr
  · cases hr
  · cases hr
    show Ends A (if true = true then _ else throw (.lockTimeout lock)) _ _
    rw [if_pos rfl]
    refine (wp_bind _ _).mpr ((wp_tryCatch _ _).mpr ?_)
    rw [← bind_pure_comp]
    refine (wp_bind _ _).mpr (wp_mono hfn fun r w' hr => ?_)
    obtain ⟨a, rfl⟩ := hr
    exact ⟨trivial, fun _ _ _ _ h => by cases h; exact ⟨a, rfl⟩⟩

omit hA in
theorem load_stored {create : Bool} {endpoint : AgentRecord} (hname : isServiceName name = true)
    (hp : w.projects.get project.id = some project) (hl : w.leases.get (project.id, name) = some lease)
    (hend : w.agents.get (serviceEndpointId project.id name) = some endpoint) :
    Ends A (load ctx project.id name create) (fun r w' => w' = w ∧ r = .ok ⟨project, endpoint, lease⟩) w := by
  unfold load assertServiceName
  rw [if_pos hname, pure_bind]
  refine ends_bind (resolveProject_known hp) (fun p w1 h => ?_) fun e w1 h => by cases h.1
  obtain ⟨hok, rfl⟩ := h
  cases hok
  refine ends_bind getServiceLease_spec (fun found w2 h => ?_) fun e w2 h => by cases h.2
  obtain ⟨rfl, hfound⟩ := h
  cases hfound
  refine ends_read (fun _ => rfl) ?_
  rw [hl, hend]
  exact ends_pure ⟨rfl, rfl⟩

theorem transition_granted {α : Type} {create : Bool} {fn : Loaded → HubM α} {endpoint : AgentRecord}
    {r : Except HubError α}
    (hname : isServiceName name = true) (hresolve : ResolvesTo ctx ref w cs project)
    (hl : w.leases.get (project.id, name) = some lease)
    (hend : w.agents.get (serviceEndpointId project.id name) = some endpoint)
    (hfn : ∀ projects locks, Ends A (fn ⟨project, endpoint, lease⟩) (fun r _ => ∃ a, r = .ok a)
      { w with projects, locks })
    (hcs : ∀ x ∈ trace handle (transition ctx ref name create fn) cs w, A x.1 x.2)
    (h : run handle (transition ctx ref name create fn) cs w = some (r, w')) : ∃ a, r = .ok a := by
  obtain ⟨cs₁, cs₂, w₁, rfl, hresolve⟩ := hresolve
  have hp : w₁.projects.get project.id = some project := ends_run resolveProject_registers hresolve
  obtain ⟨projects, rfl⟩ := ends_run resolveProject_keeps hresolve
  have hstep : transition ctx ref name create fn =
      resolveProject ctx.toCtx ref >>= fun p => Store.withLock (lockName p.id name)
      (load ctx p.id name create >>= fn) := by
    unfold transition assertServiceName
    rw [if_pos hname, pure_bind]
  rw [hstep] at h hcs
  rw [(run_bind hresolve).1] at h
  rw [(run_bind hresolve).2] at hcs
  refine wp_run (withLock_granted hA ?_) (fun x hx => hcs x (List.mem_append_right _ hx)) h
  refine ends_bind (load_stored (w := { w with projects, locks := lockName project.id name :: w.locks })
    hname hp hl hend)
    (fun s w2 h => ?_) fun e w2 h => by cases h.2
  obtain ⟨rfl, hs⟩ := h
  cases hs
  exact hfn _ _

omit hA in
theorem ReservedAs.stored {p : String} {generation : Nat} {token : String} (h : ReservedAs w (p, name) generation token)
    (hkept : LeasesKept w) : ∃ l endpoint, w.leases.get (p, name) = some l ∧ l.state = .reserved ∧
      l.generation = generation ∧ l.reservation.map (·.token) = some token ∧ (safeId l.project ∧ safeId l.service) ∧
      w.agents.get (serviceEndpointId p name) = some endpoint := by
  obtain ⟨l, hl, hstate, hgen, htoken⟩ := h
  have hkey := Filed.key_of_get hl
  have hsafe := Filed.valid_of_get hl
  have hproject : l.project = p := congrArg Prod.fst hkey
  have hservice : l.service = name := congrArg Prod.snd hkey
  have hend := (hkept _ _ hl).endpoint
  rw [hproject, hservice] at hend
  obtain ⟨endpoint, hend⟩ := Option.ne_none_iff_exists'.mp hend
  exact ⟨l, endpoint, hl, hstate, hgen, htoken, hsafe, hend⟩

theorem release_granted {generation : Nat} {token : String} {r : Except HubError ServiceView} (hkept : LeasesKept w)
    (hname : isServiceName name = true) (hresolve : ResolvesTo ctx ref w cs project)
    (hres : ReservedAs w (project.id, name) generation token)
    (hcs : ∀ x ∈ trace handle (releaseService ctx ref name { generation, token := some token }) cs w, A x.1 x.2)
    (h : run handle (releaseService ctx ref name { generation, token := some token }) cs w = some (r, w')) :
    ∃ v, r = .ok v := by
  obtain ⟨l, endpoint, hl, hstate, hgen, htoken, hsafe, hend⟩ := hres.stored hkept
  refine transition_granted hA hname hresolve hl hend (fun projects locks => ?_) hcs h
  have hmatch : ReleaseInput.matches { generation, token := some token } l = true :=
    decide_eq_true ⟨hgen, .inl ⟨hstate, rfl, htoken⟩⟩
  show Ends A (if ReleaseInput.matches { generation, token := some token } l = true then _ else _) _ _
  rw [if_pos hmatch]
  refine ends_bind (write_granted hA hsafe.1 hsafe.2) (fun next w1 _ => ?_) fun e w1 h => by obtain ⟨_, h⟩ := h; cases h
  refine wp_mono view_spec fun r w2 h => ?_
  obtain ⟨-, v, rfl, -⟩ := h
  exact ⟨v, rfl⟩

theorem bind_granted {generation : Nat} {token unit : String} {r : Except HubError ServiceView} (hkept : LeasesKept w)
    (hname : isServiceName name = true) (hresolve : ResolvesTo ctx ref w cs project)
    (hres : ReservedAs w (project.id, name) generation token) (hunit : UnitLive ctx A w unit)
    (hcs : ∀ x ∈ trace handle (bindService ctx ref name { generation, token, unit }) cs w, A x.1 x.2)
    (h : run handle (bindService ctx ref name { generation, token, unit }) cs w = some (r, w')) :
    ∃ v, r = .ok v := by
  obtain ⟨l, endpoint, hl, hstate, hgen, htoken, hsafe, hend⟩ := hres.stored hkept
  refine transition_granted hA hname hresolve hl hend (fun projects locks => ?_) hcs h
  show Ends A (if l.state ≠ .reserved ∨ l.generation ≠ generation ∨
      l.reservation.map (·.token) ≠ some token then _ else _) _ _
  rw [if_neg (by rw [hstate, hgen, htoken]; simp)]
  have hunit : UnitLive ctx A { w with projects, locks } unit := hunit
  refine ends_bind (liveUnit_granted hunit) (fun u w1 h => ?_) fun e w1 h => by obtain ⟨_, _, h⟩ := h; cases h
  obtain ⟨rfl, -⟩ := h
  refine ends_bind (write_granted hA hsafe.1 hsafe.2) (fun next w1 _ => ?_) fun e w1 h => by obtain ⟨_, h⟩ := h; cases h
  refine wp_mono view_spec fun r w2 h => ?_
  obtain ⟨-, v, rfl, -⟩ := h
  exact ⟨v, rfl⟩

end

end

end Cyberlegion
