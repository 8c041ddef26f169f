import Cyberlegion.Starts
import Cyberlegion.ServiceProgress

/-!
# What concurrent starts do

Each start launches at most once under the generation it reserved, answers `started`
only when its bind made the launched unit the holder, and gives its reservation up when
it rejects, unless its bind was refused for the unit or a transition was hindered.
-/

namespace Cyberlegion

open Effects Runs Fencing

section
variable {c : StartCall} {l : List Done} {p : StartM StartResult}

/-! ## How far a start has come -/

def issue (c : StartCall) (lease : ServiceLease) (view : ServiceView) (token : String) : Done :=
  ⟨.acquire c, .ok (.reserved lease view token)⟩

def toRelease (c : StartCall) (lease : ServiceLease) (token err : String) : StartM StartResult := do
  let _ ← ask (.release c { generation := lease.generation, token := some token })
  throw (.launch err)

def toBind (c : StartCall) (lease : ServiceLease) (token unit : String) : StartM StartResult := do
  match ← ask (.bind c { generation := lease.generation, token, unit }) with
  | .ok view => return .started view unit
  | .error (.ownership code message) =>
    throw (.hub (.ownership code
      ("launched unit \"" ++ unit ++ "\" could not become the owner — " ++ message ++ "; stop it")))
  | .error e => throw (.hub e)

def toSettle (c : StartCall) (lease : ServiceLease) (token : String) : StartM StartResult := do
  match ← ask .settled with
  | .error err => toRelease c lease token err
  | .ok unit => toBind c lease token unit

/-- What a start has called and been answered, and what it does next. -/
inductive Stage (c : StartCall) : List Done → StartM StartResult → Prop
  | fresh : Stage c [] (startService c)
  | refused (e : HubError) : Stage c [⟨.acquire c, .error e⟩] (throw (.hub e))
  | resolved (lease : ServiceLease) (view : ServiceView) :
      Stage c [⟨.acquire c, .ok (.resolved lease view)⟩] (pure (.resolved view))
  | starting (lease : ServiceLease) (view : ServiceView) :
      Stage c [⟨.acquire c, .ok (.starting lease view)⟩] (pure (.starting view))
  | reserved (lease : ServiceLease) (view : ServiceView) (token : String) :
    Stage c [issue c lease view token] (ask (.launch lease) >>= fun _ => toSettle c lease token)
  | launching (lease : ServiceLease) (view : ServiceView) (token : String) :
    Stage c [issue c lease view token, ⟨.launch lease, ()⟩] (toSettle c lease token)
  | failed (lease : ServiceLease) (view : ServiceView) (token err : String) :
    Stage c [issue c lease view token, ⟨.launch lease, ()⟩, ⟨.settled, .error err⟩] (toRelease c lease token err)
  | launched (lease : ServiceLease) (view : ServiceView) (token unit : String) :
    Stage c [issue c lease view token, ⟨.launch lease, ()⟩, ⟨.settled, .ok unit⟩] (toBind c lease token unit)
  | released (lease : ServiceLease) (view : ServiceView) (token err : String) (r : Except HubError ServiceView) :
    Stage c [issue c lease view token, ⟨.launch lease, ()⟩, ⟨.settled, .error err⟩,
      ⟨.release c { generation := lease.generation, token := some token }, r⟩] (throw (.launch err))
  | bound (lease : ServiceLease) (view : ServiceView) (token unit : String) (owned : ServiceView) :
    Stage c [issue c lease view token, ⟨.launch lease, ()⟩, ⟨.settled, .ok unit⟩,
      ⟨.bind c { generation := lease.generation, token, unit }, .ok owned⟩] (pure (.started owned unit))
  | unbound (lease : ServiceLease) (view : ServiceView) (token unit : String) (e : HubError) (e' : StartError) :
    Stage c [issue c lease view token, ⟨.launch lease, ()⟩, ⟨.settled, .ok unit⟩,
      ⟨.bind c { generation := lease.generation, token, unit }, .error e⟩] (throw e')

theorem stage_of_ran (h : Ran (startService c) l p) : Stage c l p := by
  cases h with
  | nil => exact .fresh
  | cons _ _ r h =>
    rcases r with e | ⟨lease, view⟩ | ⟨lease, view⟩ | ⟨lease, view, token⟩
    · cases h; exact .refused e
    · cases h; exact .resolved lease view
    · cases h; exact .starting lease view
    · cases h with
      | nil => exact .reserved lease view token
      | cons _ _ r h =>
        cases h with
        | nil => exact .launching lease view token
        | cons _ _ r h =>
          rcases r with err | unit
          · cases h with
            | nil => exact .failed lease view token err
            | cons _ _ r h => cases h; exact .released lease view token err r
          · cases h with
            | nil => exact .launched lease view token unit
            | cons _ _ r h =>
              rcases r with e | owned
              · cases e <;> cases h <;> exact .unbound lease view token unit _ _
              · cases h; exact .bound lease view token unit owned

end

/-! ## The hub below the starts -/

section
variable {c : StartCall} {hub hub' : ServiceRun} {t : StartTurn} {k : String × String}

/-- One call of the service verbs, run and recorded. -/
def Records (hub : ServiceRun) (c : ServiceCall) (cs : List Choice) (r : Except HubError ServiceAnswer)
    (hub' : ServiceRun) :
    Prop :=
  ∃ w, run handle c.prog cs hub.state = some (r, w) ∧ hub' = hub.record c cs r w

theorem Records.step {call : ServiceCall} {cs : List Choice} {r : Except HubError ServiceAnswer}
    (h : Records hub call cs r hub') : serviceStep hub (.call call cs) = some hub' := by
  obtain ⟨w, hrun, rfl⟩ := h
  show Option.map _ (run handle call.prog cs hub.state) = _
  rw [hrun]
  rfl

theorem answer_acquire {r : Except HubError AcquireResult} (h : answer (.acquire c) t hub = some (r, hub')) :
    run handle (acquireService c.ctx c.projectRef c.name c.input) t.choices hub.state = some (r, hub'.state) ∧
      Records hub (c.call (.acquire c.input)) t.choices (r.map .acquired) hub' := by
  obtain ⟨⟨r', w⟩, hrun, hrec⟩ := Option.map_eq_some_iff.mp h
  cases hrec
  exact ⟨hrun, w, run_map.trans (congrArg (Option.map _) hrun), rfl⟩

theorem answer_bind {input : BindInput} {r : Except HubError ServiceView}
    (h : answer (.bind c input) t hub = some (r, hub')) :
    run handle (bindService c.ctx c.projectRef c.name input) t.choices hub.state = some (r, hub'.state) ∧
      Records hub (c.call (.bind input)) t.choices (r.map .viewed) hub' := by
  obtain ⟨⟨r', w⟩, hrun, hrec⟩ := Option.map_eq_some_iff.mp h
  cases hrec
  exact ⟨hrun, w, run_map.trans (congrArg (Option.map _) hrun), rfl⟩

theorem answer_release {input : ReleaseInput} {r : Except HubError ServiceView}
    (h : answer (.release c input) t hub = some (r, hub')) :
    run handle (releaseService c.ctx c.projectRef c.name input) t.choices hub.state = some (r, hub'.state) ∧
      Records hub (c.call (.release input)) t.choices (r.map .viewed) hub' := by
  obtain ⟨⟨r', w⟩, hrun, hrec⟩ := Option.map_eq_some_iff.mp h
  cases hrec
  exact ⟨hrun, w, run_map.trans (congrArg (Option.map _) hrun), rfl⟩

theorem answer_cases {op : StartOp} {r : op.Res} (h : answer op t hub = some (r, hub')) :
    hub' = hub ∨ ∃ call result, Records hub call t.choices result hub' := by
  cases op with
  | acquire c => exact .inr ⟨_, _, (answer_acquire h).2⟩
  | bind c input => exact .inr ⟨_, _, (answer_bind h).2⟩
  | release c input => exact .inr ⟨_, _, (answer_release h).2⟩
  | launch lease => cases h; exact .inl rfl
  | settled => cases h; exact .inl rfl

/-- A step of the service verbs adds at most one entry, and moves the leases as that entry says. -/
theorem serviceStep_cases {ev : ServiceEvent} (h : serviceStep hub ev = some hub') :
    (hub'.log = hub.log ∧ hub'.state.leases = hub.state.leases) ∨
      ∃ e : Entry, hub'.log = hub.log ++ [e] ∧ e.before = hub.state ∧ e.after = hub'.state ∧
        Outcome e.answered e.call e.before e.after e.result := by
  cases ev with
  | call call cs =>
    obtain ⟨⟨r, w⟩, hrun, rfl⟩ := Option.map_eq_some_iff.mp h
    exact .inr ⟨_, rfl, rfl, rfl, outcome_of_run hrun⟩
  | other x =>
    obtain ⟨w, hw, rfl⟩ := Option.map_eq_some_iff.mp h
    obtain ⟨-, rfl⟩ := others_cases hw
    exact .inl ⟨rfl, rfl⟩

theorem serviceStep_le {ev : ServiceEvent} (h : serviceStep hub ev = some hub') (k : String × String) :
    hub.state.leases.grant k ≤ hub'.state.leases.grant k := by
  rcases serviceStep_cases h with ⟨-, hleases⟩ | ⟨e, -, hbefore, hafter, hout⟩
  · rw [hleases]
  · have hle := hout.le k
    rw [hbefore, hafter] at hle
    exact hle

theorem serviceStep_past {ev : ServiceEvent} {g : Nat} (h : serviceStep hub ev = some hub')
    (hg : g ≤ hub.state.leases.generation k) (hpast : ∀ r, hub.state.leases.grant k ≠ ⟨g, .reserved r⟩) :
    ∀ r, hub'.state.leases.grant k ≠ ⟨g, .reserved r⟩ := by
  rcases serviceStep_cases h with ⟨-, hleases⟩ | ⟨e, -, hbefore, hafter, hout⟩
  · rw [hleases]; exact hpast
  · have hmoves := hout.moves k
    rw [hbefore, hafter] at hmoves
    rcases hmoves with heq | hmove
    · rw [heq]; exact hpast
    · intro r hr
      rw [hr] at hmove
      have hg : g ≤ (hub.state.leases.grant k).generation := hg
      generalize hub.state.leases.grant k = grant at hmove hg
      cases hmove with
      | reserve g' a r =>
        simp only at hg
        omega

end

/-! ## The starts -/

section
variable {ι : Type} [DecidableEq ι] {starts : ι → StartCall} {s s' t : Starts ι} {w : World} {i j : ι}
  {k : String × String}
variable {es : List (StartEvent ι)} {lease : ServiceLease} {sv : ServiceView} {token : String}

def Starts.callsOf (s : Starts ι) (i : ι) : List Done := s.calls.filterMap fun x => if x.1 = i then some x.2 else none

theorem mem_callsOf {d : Done} : d ∈ s.callsOf i ↔ (i, d) ∈ s.calls := by
  simp only [Starts.callsOf, List.mem_filterMap, Prod.exists]
  constructor
  · rintro ⟨j, d', hmem, h⟩
    split at h
    · next hj => cases h; rw [← hj]; exact hmem
    · cases h
  · intro h
    exact ⟨i, d, h, if_pos rfl⟩

/-- A step is a turn of one start, or leaves the starts alone; the hub makes a step or none. -/
theorem startStep_cases {ev : StartEvent ι} (h : startStep s ev = some s') :
    (∃ i turn op k r, ev = .turn i turn ∧ s.progs i = .call op k ∧ answer op turn s.hub = some (r, s'.hub) ∧
      s'.progs = Function.update s.progs i (k r) ∧ s'.calls = s.calls ++ [(i, ⟨op, r⟩)]) ∨
    (∃ sev, serviceStep s.hub sev = some s'.hub ∧ s'.progs = s.progs ∧ s'.calls = s.calls) := by
  cases ev with
  | turn i turn =>
    simp only [startStep] at h
    cases hp : s.progs i with
    | call op k =>
      rw [hp] at h
      obtain ⟨⟨r, hub⟩, hr, rfl⟩ := Option.map_eq_some_iff.mp h
      exact .inl ⟨i, turn, op, k, r, rfl, hp, hr, rfl, rfl⟩
    | _ => rw [hp] at h; cases h
  | outside sev =>
    obtain ⟨hub, hhub, rfl⟩ := Option.map_eq_some_iff.mp h
    exact .inr ⟨sev, hhub, rfl, rfl⟩

theorem startStep_hub {ev : StartEvent ι} (h : startStep s ev = some s') :
    s'.hub = s.hub ∨ ∃ sev, serviceStep s.hub sev = some s'.hub := by
  rcases startStep_cases h with ⟨i, turn, op, k, r, -, -, hans, -, -⟩ | ⟨sev, hhub, -, -⟩
  · rcases answer_cases hans with heq | ⟨call, result, hrec⟩
    · exact .inl heq
    · exact .inr ⟨_, hrec.step⟩
  · exact .inr ⟨sev, hhub⟩

theorem hub_of_run (h : exec startStep (ready w starts) es = some s) :
    ∃ sevs, exec serviceStep (untouched w) sevs = some s.hub := by
  refine exec_inv (I := fun s : Starts ι => ∃ sevs, exec serviceStep (untouched w) sevs = some s.hub) ?_ ⟨[], rfl⟩ h
  rintro s ev s' ⟨sevs, hsevs⟩ hstep
  rcases startStep_hub hstep with heq | ⟨sev, hsev⟩
  · exact ⟨sevs, by rw [heq]; exact hsevs⟩
  · exact ⟨sevs ++ [sev], (exec_snoc_eq_some _).mpr ⟨s.hub, hsevs, hsev⟩⟩

theorem callsOf_snoc (d : Done) (h : s'.calls = s.calls ++ [(j, d)]) :
    s'.callsOf i = if j = i then s.callsOf i ++ [d] else s.callsOf i := by
  rw [Starts.callsOf, h, List.filterMap_append]
  split
  · next hj => simp [hj, Starts.callsOf]
  · next hj => simp [hj, Starts.callsOf]

theorem stages (h : exec startStep (ready w starts) es = some s) (i : ι) :
    Stage (starts i) (s.callsOf i) (s.progs i) := by
  refine stage_of_ran ?_
  refine exec_inv (I := fun s : Starts ι => ∀ i, Ran (startService (starts i)) (s.callsOf i) (s.progs i)) ?_
    (fun i => .nil _) h i
  intro s ev s' hs hstep i
  rcases startStep_cases hstep with ⟨j, turn, op, k, r, -, hp, -, hprogs, hcalls⟩ | ⟨sev, -, hprogs, hcalls⟩
  · rw [callsOf_snoc _ hcalls, hprogs]
    by_cases hj : j = i
    · subst hj
      rw [if_pos rfl, Function.update_self]
      have hran := hs j
      rw [hp] at hran
      exact hran.snoc r
    · rw [if_neg hj, Function.update_of_ne (Ne.symm hj)]
      exact hs i
  · have hsame : s'.callsOf i = s.callsOf i := by rw [Starts.callsOf, hcalls, Starts.callsOf]
    rw [hsame, hprogs]
    exact hs i

/-! ## One launch for a generation -/

def Done.issued : Done → Option ServiceLease
  | ⟨.acquire _, .ok (.reserved lease _ _)⟩ => some lease
  | _ => none

theorem answer_issued {op : StartOp} {turn : StartTurn} {hub hub' : ServiceRun} {r : op.Res}
    (h : answer op turn hub = some (r, hub')) : (Done.issued ⟨op, r⟩ = none ∧ hub'.log = hub.log) ∨
      ∃ e : Entry, hub'.log = hub.log ++ [e] ∧ Done.issued ⟨op, r⟩ = e.issued := by
  cases op with
  | acquire c =>
    obtain ⟨-, w, -, rfl⟩ := answer_acquire h
    refine .inr ⟨_, rfl, ?_⟩
    rcases r with e | ⟨lease, view⟩ | ⟨lease, view⟩ | ⟨lease, view, token⟩ <;> rfl
  | bind c input =>
    obtain ⟨-, w, -, rfl⟩ := answer_bind h
    refine .inr ⟨_, rfl, ?_⟩
    rcases r with e | view <;> rfl
  | release c input =>
    obtain ⟨-, w, -, rfl⟩ := answer_release h
    refine .inr ⟨_, rfl, ?_⟩
    rcases r with e | view <;> rfl
  | launch lease => cases h; exact .inl ⟨rfl, rfl⟩
  | settled => cases h; exact .inl ⟨rfl, rfl⟩

theorem issued_sublist (h : exec startStep (ready w starts) es = some s) :
    (s.calls.filterMap fun x => x.2.issued).Sublist (s.hub.log.filterMap Entry.issued) := by
  refine exec_inv (I := fun s : Starts ι =>
    (s.calls.filterMap fun x => x.2.issued).Sublist (s.hub.log.filterMap Entry.issued)) ?_
    (List.Sublist.refl _) h
  intro s ev s' hs hstep
  rcases startStep_cases hstep with ⟨i, turn, op, k, r, -, -, hans, -, hcalls⟩ | ⟨sev, hhub, -, hcalls⟩
  · rw [hcalls, List.filterMap_append]
    rcases answer_issued hans with ⟨hnone, hlog⟩ | ⟨e, hlog, heq⟩
    · rw [hlog]
      simp only [List.filterMap_cons, List.filterMap_nil, hnone, List.append_nil]
      exact hs
    · rw [hlog, List.filterMap_append]
      refine hs.append ?_
      simp only [List.filterMap_cons, List.filterMap_nil, heq]
      exact List.Sublist.refl _
  · rw [hcalls]
    rcases serviceStep_cases hhub with ⟨hlog, -⟩ | ⟨e, hlog, -⟩
    · rw [hlog]; exact hs
    · rw [hlog, List.filterMap_append]
      exact hs.trans (List.sublist_append_left _ _)

theorem issued_apart (h : exec startStep (ready w starts) es = some s) {a b : ι × Done} (ha : a ∈ s.calls)
    (hb : b ∈ s.calls)
    (hab : a ≠ b) {l l' : ServiceLease} (hl : a.2.issued = some l) (hl' : b.2.issued = some l')
    (hkey : l.key = l'.key) :
    l.generation ≠ l'.generation := by
  obtain ⟨sevs, hhub⟩ := hub_of_run h
  have hlog : (s.hub.log.filterMap Entry.issued).Pairwise fun l l' => l.key = l'.key →
      l.generation ≠ l'.generation := by
    refine List.pairwise_filterMap.mpr ?_
    have hfenced := fun k => (fenced_of_linked (k := k) (linked hhub) (outcomes hhub)).reservations
    refine List.pairwise_iff_getElem.mpr fun m n hm hn hmn l hl l' hl' hkey => ?_
    exact List.pairwise_iff_getElem.mp (hfenced l'.key) m n hm hn hmn l l' hl hkey hl' rfl
  have hcalls := List.pairwise_filterMap.mp (hlog.sublist (issued_sublist h))
  have hsymm : Std.Symm fun a b : ι × Done => ∀ l, a.2.issued = some l → ∀ l', b.2.issued = some l' →
      l.key = l'.key →
      l.generation ≠ l'.generation :=
    ⟨fun a b h l hl l' hl' hkey => (h l' hl' l hl hkey.symm).symm⟩
  exact hcalls.forall ha hb hab l hl l' hl' hkey

/-- At most one launch was called under each generation of a service. -/
def LaunchesOnce (s : Starts ι) : Prop :=
  s.calls.Pairwise fun a b => ∀ l l', a.2 = ⟨.launch l, ()⟩ → b.2 = ⟨.launch l', ()⟩ → l.key = l'.key →
    l.generation ≠ l'.generation

theorem stage_launch {c : StartCall} {l : List Done} {p : StartM StartResult} (h : Stage c l p) {lease : ServiceLease}
    {k : (StartOp.launch lease).Res → StartM StartResult} (hp : p = .call (.launch lease) k) :
    ∃ sv token, l = [issue c lease sv token] := by
  cases h with
  | reserved lease' sv token =>
    cases hp
    exact ⟨sv, token, rfl⟩
  | _ => cases hp

theorem stage_launched {c : StartCall} {l : List Done} {p : StartM StartResult} (h : Stage c l p) {lease : ServiceLease}
    (hl : (⟨.launch lease, ()⟩ : Done) ∈ l) : ∃ sv token, issue c lease sv token ∈ l := by
  cases h with
  | launching lease' sv token | failed lease' sv token | launched lease' sv token | released lease' sv token
  | bound lease' sv token | unbound lease' sv token =>
    simp only [List.mem_cons, List.not_mem_nil, or_false, issue, Sigma.mk.injEq, reduceCtorEq, false_and, false_or,
      or_false, StartOp.launch.injEq] at hl
    obtain ⟨rfl, -⟩ := hl
    exact ⟨sv, token, List.mem_cons_self⟩
  | _ => simp [issue] at hl

theorem starts_inv {I : Starts ι → Prop}
    (hI : ∀ s ev s', Reachable startStep (ready w starts) s → I s → startStep s ev = some s' → I s')
    (h0 : I (ready w starts)) (h : exec startStep (ready w starts) es = some s) : I s := by
  refine (exec_inv (I := fun s => Reachable startStep (ready w starts) s ∧ I s) ?_ ⟨.refl _ _, h0⟩ h).2
  rintro s ev s' ⟨⟨es, hes⟩, hs⟩ hstep
  exact ⟨⟨es ++ [ev], (exec_snoc_eq_some _).mpr ⟨s, hes, hstep⟩⟩, hI s ev s' ⟨es, hes⟩ hs hstep⟩

theorem stage_issued {c : StartCall} {l : List Done} {p : StartM StartResult} (h : Stage c l p) {d : Done}
    {lease : ServiceLease}
    (hd : d ∈ l) (hissued : d.issued = some lease) : ∃ sv token, d = issue c lease sv token := by
  cases h with
  | fresh => cases hd
  | refused | resolved | starting =>
    rw [List.mem_singleton.mp hd] at hissued
    cases hissued
  | reserved lease' sv token =>
    rw [List.mem_singleton.mp hd] at hissued ⊢
    cases hissued
    exact ⟨sv, token, rfl⟩
  | launching lease' sv token | failed lease' sv token | launched lease' sv token | released lease' sv token
  | bound lease' sv token | unbound lease' sv token =>
    rcases List.mem_cons.mp hd with rfl | hd
    · cases hissued
      exact ⟨sv, token, rfl⟩
    · exfalso
      simp only [List.mem_cons, List.not_mem_nil, or_false] at hd
      repeat (rcases hd with rfl | hd; · cases hissued)

theorem launches_once (h : exec startStep (ready w starts) es = some s) : LaunchesOnce s := by
  refine starts_inv ?_ List.Pairwise.nil h
  rintro s ev s' ⟨es, hes⟩ hs hstep
  rcases startStep_cases hstep with ⟨i, turn, op, k, r, -, hp, -, -, hcalls⟩ | ⟨sev, -, -, hcalls⟩
  swap
  · rw [LaunchesOnce, hcalls]; exact hs
  rw [LaunchesOnce, hcalls]
  refine List.pairwise_append.mpr ⟨hs, List.pairwise_singleton _ _, ?_⟩
  rintro ⟨j, d⟩ hj b hb l l' hl hl' hkey
  obtain rfl := List.mem_singleton.mp hb
  cases hl'
  obtain rfl : d = ⟨.launch l, ()⟩ := hl
  obtain ⟨sv, token, hcalls_i⟩ := stage_launch (stages hes i) hp
  obtain ⟨sv', token', hissued⟩ := stage_launched (stages hes j) (mem_callsOf.mpr hj)
  have hij : j ≠ i := by
    rintro rfl
    rw [← mem_callsOf, hcalls_i] at hj
    simp [issue] at hj
  have hi : (i, issue (starts i) l' sv token) ∈ s.calls := by
    rw [← mem_callsOf, hcalls_i]
    exact List.mem_singleton_self _
  exact issued_apart hes (mem_callsOf.mp hissued) hi (fun heq => hij (congrArg Prod.fst heq)) rfl rfl hkey

/-! ## What the starts know of the service -/

/-- At its turn a start works on the service: that is what its reference resolves to, if it resolves. -/
def OnService (starts : ι → StartCall) (k : String × String) (s : Starts ι) : StartEvent ι → Prop
  | .turn i turn => (starts i).name = k.2 ∧
      ∀ p, ResolvesTo (starts i).ctx (starts i).projectRef s.hub.state turn.choices p → p.id = k.1
  | .outside _ => True

/-- What the starts of the service were told is so, and what they reserved is not undone. -/
structure Told (starts : ι → StartCall) (k : String × String) (s : Starts ι) : Prop where
  issued : ∀ i lease sv token, (i, issue (starts i) lease sv token) ∈ s.calls → isServiceName k.2 = true ∧
    lease.state = .reserved ∧ lease.reservation.map (·.token) = some token ∧ lease.grant ≤ s.hub.state.leases.grant k
  bound : ∀ i input v, (i, ⟨.bind (starts i) input, .ok v⟩) ∈ s.calls → v.lease.key = k ∧
    ∃ e ∈ s.hub.log, e.call = (starts i).call (.bind input) ∧ e.result = .ok (.viewed v)

theorem Records.outcome {hub hub' : ServiceRun} {call : ServiceCall} {cs : List Choice}
    {r : Except HubError ServiceAnswer} (h : Records hub call cs r hub') :
    ∃ A, Outcome A call hub.state hub'.state r := by
  obtain ⟨w, hrun, rfl⟩ := h
  exact ⟨_, outcome_of_run hrun⟩

theorem Records.entry {hub hub' : ServiceRun} {call : ServiceCall} {cs : List Choice}
    {r : Except HubError ServiceAnswer} (h : Records hub call cs r hub') :
    ∃ e ∈ hub'.log, e.call = call ∧ e.result = r := by
  obtain ⟨w, -, rfl⟩ := h
  exact ⟨_, List.mem_append_right _ List.mem_cons_self, rfl, rfl⟩

theorem told_step {ev : StartEvent ι} (hs : Told starts k s)
    (hon : OnService starts k s ev) (hstep : startStep s ev = some s') : Told starts k s' := by
  have hle : s.hub.state.leases.grant k ≤ s'.hub.state.leases.grant k := by
    rcases startStep_hub hstep with heq | ⟨sev, hsev⟩
    · rw [heq]
    · exact serviceStep_le hsev k
  have hold : ∀ e ∈ s.hub.log, e ∈ s'.hub.log := by
    intro e he
    rcases startStep_hub hstep with heq | ⟨sev, hsev⟩
    · rw [heq]; exact he
    · rcases serviceStep_cases hsev with ⟨hlog, -⟩ | ⟨e', hlog, -⟩
      · rw [hlog]; exact he
      · rw [hlog]; exact List.mem_append_left _ he
  have hkept : ∀ i lease sv token, (i, issue (starts i) lease sv token) ∈ s.calls → isServiceName k.2 = true ∧
      lease.state = .reserved ∧ lease.reservation.map (·.token) = some token ∧
      lease.grant ≤ s'.hub.state.leases.grant k := by
    intro i lease sv token hi
    obtain ⟨h1, h2, h3, h4⟩ := hs.issued i lease sv token hi
    exact ⟨h1, h2, h3, le_trans h4 hle⟩
  have hkeptBound : ∀ i input v, (i, ⟨.bind (starts i) input, .ok v⟩) ∈ s.calls → v.lease.key = k ∧
      ∃ e ∈ s'.hub.log, e.call = (starts i).call (.bind input) ∧ e.result = .ok (.viewed v) := by
    intro i input v hi
    obtain ⟨hkey, e, he, h1, h2⟩ := hs.bound i input v hi
    exact ⟨hkey, e, hold e he, h1, h2⟩
  rcases startStep_cases hstep with ⟨j, turn, op, kont, r, rfl, hp, hans, -, hcalls⟩ | ⟨sev, -, -, hcalls⟩
  swap
  · exact ⟨by rw [hcalls]; exact hkept, by rw [hcalls]; exact hkeptBound⟩
  have hname : (starts j).name = k.2 := hon.1
  refine ⟨fun i lease sv token hi => ?_, fun i input v hi => ?_⟩
  · rw [hcalls] at hi
    rcases List.mem_append.mp hi with hi | hi
    · exact hkept i lease sv token hi
    · obtain ⟨rfl, heq⟩ := Prod.mk.inj (List.mem_singleton.mp hi)
      cases heq
      obtain ⟨hrun, hrec⟩ := answer_acquire hans
      obtain ⟨hvalid, p, hp, hkey⟩ := acquire_key hrun
      obtain ⟨A, hout⟩ := hrec.outcome
      have hk : lease.key = k := hkey.trans (Prod.ext (hon.2 p hp) hname)
      rw [hname] at hvalid
      cases hout with
      | reserved i l next v r hop hw hkey' hl hguard hgen hstate hholder hres =>
        refine ⟨hvalid, hstate, by rw [hres]; rfl, ?_⟩
        rw [← hk, grant_of_get hw.get_key]
  · rw [hcalls] at hi
    rcases List.mem_append.mp hi with hi | hi
    · exact hkeptBound i input v hi
    · obtain ⟨rfl, heq⟩ := Prod.mk.inj (List.mem_singleton.mp hi)
      cases heq
      obtain ⟨hrun, hrec⟩ := answer_bind hans
      obtain ⟨-, p, hp, hkey⟩ := bind_key hrun
      exact ⟨hkey.trans (Prod.ext (hon.2 p hp) hname), hrec.entry⟩

theorem told (h : exec startStep (ready w starts) es = some s)
    (hon : AllSteps startStep (OnService starts k) (ready w starts) es) : Told starts k s := by
  refine (exec_inv_of (I := fun s => Reachable startStep (ready w starts) s ∧ Told starts k s) ?_
    ⟨.refl _ _, fun _ _ _ _ h => absurd h List.not_mem_nil, fun _ _ _ h => absurd h List.not_mem_nil⟩ hon h).2
  rintro s ev s' ⟨⟨es, hes⟩, hs⟩ hev hstep
  exact ⟨⟨es ++ [ev], (exec_snoc_eq_some _).mpr ⟨s, hes, hstep⟩⟩, told_step hs hev hstep⟩

/-- A start that answered `started` launched the unit and made it the holder under its generation. -/
def StartedOwns (k : String × String) (s : Starts ι) : Prop :=
  ∀ i view unit, s.progs i = .ret (.started view unit) → ∃ lease token, (i, ⟨.launch lease, ()⟩) ∈ s.calls ∧
    (i, ⟨.settled, .ok unit⟩) ∈ s.calls ∧ ∃ e ∈ s.hub.log,
    e.call.op = .bind ⟨lease.generation, token, unit⟩ ∧
      e.after.leases.get k = some view.lease ∧ view.lease.state = .active ∧ view.lease.holder = some unit ∧
      view.lease.generation = lease.generation

theorem started_owns (h : exec startStep (ready w starts) es = some s)
    (hon : AllSteps startStep (OnService starts k) (ready w starts) es) : StartedOwns k s := by
  intro i view unit hp
  have hstage := stages h i
  rw [hp] at hstage
  have hcalls : ∀ d, d ∈ s.callsOf i → (i, d) ∈ s.calls := fun d => mem_callsOf.mp
  generalize s.callsOf i = l at hstage hcalls
  cases hstage with
  | bound lease sv token unit owned =>
    refine ⟨lease, token, hcalls _ (by simp), hcalls _ (by simp), ?_⟩
    obtain ⟨hkey, e, he, hcall, hres⟩ :=
      (told h hon).bound i ⟨lease.generation, token, unit⟩ view (hcalls _ (by simp))
    obtain ⟨sevs, hhub⟩ := hub_of_run h
    have hout := outcomes hhub e he
    refine ⟨e, he, by rw [hcall]; rfl, ?_⟩
    rw [hcall, hres] at hout
    cases hout with
    | bound input l next v hop hw hkey' hl hguard hgen hstate hholder hv =>
      cases hop
      subst hkey
      rw [hv]
      exact ⟨hw.get_key, hstate, hholder, hgen.trans hguard.2.1⟩
    | released _ _ _ _ hop => cases hop
    | handedOff _ _ _ _ hop => cases hop
    | verified _ _ hop => cases hop

/-! ## Starts that reject -/

/-- Nothing outside hinders a transition: its reference resolves, its lock is granted, and the clock reads dates. -/
def GoesThrough {α : Type} (c : StartCall) (p : HubM α) (w : World) (cs : List Choice) : Prop :=
  (∃ project, ResolvesTo c.ctx c.projectRef w cs project) ∧ ∀ x ∈ trace handle p cs w, Grants x.1 x.2

/-- A start whose reservation is still the current one is not hindered when it gives the
reservation up, nor when it binds the unit it launched, and that unit is live. -/
def Unhindered (k : String × String) (s : Starts ι) : StartEvent ι → Prop
  | .turn i turn =>
    match s.progs i with
    | .call (.release c input) _ =>
      (∃ token, input.token = some token ∧ ReservedAs s.hub.state k input.generation token) →
        GoesThrough c (releaseService c.ctx c.projectRef c.name input) s.hub.state turn.choices
    | .call (.bind c input) _ =>
      ReservedAs s.hub.state k input.generation input.token →
        GoesThrough c (bindService c.ctx c.projectRef c.name input) s.hub.state turn.choices ∧
          UnitLive c.ctx (fun op a => (op, a) ∈ trace handle (bindService c.ctx c.projectRef c.name input) turn.choices
            s.hub.state) s.hub.state input.unit
    | _ => True
  | .outside _ => True

/-- A start that rejected left no reservation of its generation. -/
def RejectedGone (starts : ι → StartCall) (k : String × String) (s : Starts ι) : Prop :=
  ∀ i e, s.progs i = .throw e → ∀ lease sv token, (i, issue (starts i) lease sv token) ∈ s.calls →
    ∀ r, s.hub.state.leases.grant k ≠ ⟨lease.generation, .reserved r⟩

theorem reservedAs_of_grant {leases : Leases} {r : Option Reservation} {w : World} (hleases : w.leases = leases)
    (hstate : lease.state = .reserved) (htoken : lease.reservation.map (·.token) = some token)
    (hle : lease.grant ≤ leases.grant k) (h : leases.grant k = ⟨lease.generation, .reserved r⟩) :
    ReservedAs w k lease.generation token := by
  subst hleases
  rw [h, ServiceLease.grant_reserved hstate] at hle
  have hr : lease.reservation = r := by
    rcases le_iff.mp hle with hlt | ⟨-, heq | hlt⟩
    · exact absurd hlt (Nat.lt_irrefl _)
    · exact Authority.reserved.inj heq
    · exact absurd hlt (Nat.lt_irrefl _)
  cases hget : w.leases.get k with
  | none =>
    rw [Leases.grant, hget] at h
    cases congrArg Grant.authority h
  | some l =>
    rw [grant_of_get hget] at h
    obtain ⟨hgen, hauth⟩ := Grant.mk.inj h
    refine ⟨l, hget, ?_, hgen, ?_⟩
    · cases hl : l.state with
      | reserved => rfl
      | vacant => rw [hl] at hauth; cases hauth
      | active => rw [hl] at hauth; cases hauth
    · cases hl : l.state with
      | reserved =>
        rw [hl] at hauth
        rw [Authority.reserved.inj hauth, ← hr, htoken]
      | vacant => rw [hl] at hauth; cases hauth
      | active => rw [hl] at hauth; cases hauth

theorem Records.threw {hub hub' : ServiceRun} {call : ServiceCall} {cs : List Choice} {e : HubError}
    (h : Records hub call cs (.error e) hub') : hub'.state.leases = hub.state.leases := by
  obtain ⟨A, hout⟩ := h.outcome
  cases hout with
  | threw _ hw => exact hw.leases

theorem last_call {l l' : List Done} {d d' : Done} (h : l ++ [d] = l' ++ [d']) : l = l' ∧ d = d' :=
  ⟨List.append_inj_left' h rfl, List.singleton_inj.mp (List.append_inj_right' h rfl)⟩

theorem rejected_step {ev : StartEvent ι} (hes : exec startStep (ready w starts) es = some s) (htold : Told starts k s)
    (hs : RejectedGone starts k s) (hon : OnService starts k s ev) (hclear : Unhindered k s ev)
    (hstep : startStep s ev = some s') : RejectedGone starts k s' := by
  have hstages : ∀ i, Stage (starts i) (s'.callsOf i) (s'.progs i) :=
    stages ((exec_snoc_eq_some _).mpr ⟨s, hes, hstep⟩)
  obtain ⟨sevs, hhub⟩ := hub_of_run hes
  have hkept := (leasesKept_run hhub).1
  intro i e hp lease sv token hissue
  -- an older rejection stays past its generation
  have hpast : s.progs i = .throw e → (i, issue (starts i) lease sv token) ∈ s.calls →
      ∀ r, s'.hub.state.leases.grant k ≠ ⟨lease.generation, .reserved r⟩ := by
    intro hp hissue
    have hgone := hs i e hp lease sv token hissue
    rcases startStep_hub hstep with heq | ⟨sev, hsev⟩
    · rw [heq]; exact hgone
    · have hle := (htold.issued i lease sv token hissue).2.2.2
      exact serviceStep_past hsev (generation_mono hle) hgone
  rcases startStep_cases hstep with ⟨j, turn, op, kont, r, rfl, hpj, hans, hprogs, hcalls⟩ | ⟨sev, -, hprogs, hcalls⟩
  swap
  · rw [hprogs] at hp
    rw [hcalls] at hissue
    exact hpast hp hissue
  by_cases hij : i = j
  swap
  · rw [hprogs, Function.update_of_ne hij] at hp
    rw [hcalls] at hissue
    rcases List.mem_append.mp hissue with hissue | hissue
    · exact hpast hp hissue
    · exact absurd (congrArg Prod.fst (List.mem_singleton.mp hissue)) hij
  subst hij
  have hlast := callsOf_snoc (i := i) ⟨op, r⟩ hcalls
  rw [if_pos rfl] at hlast
  have hstage := hstages i
  rw [hp] at hstage
  have hmem := mem_callsOf.mpr hissue
  rw [hlast] at hstage hmem
  generalize hl : s.callsOf i ++ [⟨op, r⟩] = l at hstage hmem
  obtain ⟨hname, hproject⟩ := hon
  have hservice : ∀ p, ResolvesTo (starts i).ctx (starts i).projectRef s.hub.state turn.choices p →
      k = (p.id, (starts i).name) :=
    fun p hp => Prod.ext (hproject p hp).symm hname.symm
  cases hstage with
  | refused e => simp [issue] at hmem
  | released lease' sv' token' err r' =>
    obtain ⟨hinit, hd⟩ := last_call (show s.callsOf i ++ [_] = [_, _, _] ++ [_] from hl)
    cases hd
    have hold : (i, issue (starts i) lease' sv' token') ∈ s.calls := by
      rw [← mem_callsOf, hinit]
      exact List.mem_cons_self
    obtain ⟨hvalid, hstate, htoken, hle⟩ := htold.issued i lease' sv' token' hold
    simp only [List.mem_cons, List.not_mem_nil, or_false, issue, Sigma.mk.injEq, reduceCtorEq, false_and, heq_eq_eq,
      Except.ok.injEq, AcquireResult.reserved.injEq, true_and] at hmem
    obtain ⟨rfl, rfl, rfl⟩ := hmem
    rw [← hname] at hvalid
    obtain ⟨hrun, hrec⟩ := answer_release hans
    rcases r' with e' | v
    · -- a release that fails found another lease
      rw [hrec.threw]
      intro r hgrant
      have hres := reservedAs_of_grant rfl hstate htoken hle hgrant
      simp only [Unhindered, hpj] at hclear
      obtain ⟨⟨p, hp⟩, hgrants⟩ := hclear ⟨_, rfl, hres⟩
      rw [hservice p hp] at hres
      obtain ⟨v, hv⟩ := release_granted (A := fun op a => (op, a) ∈ trace handle _ turn.choices s.hub.state)
        (fun op a ha => hgrants (op, a) ha) hkept hvalid hp hres (fun x hx => hx) hrun
      cases hv
    · obtain ⟨-, p, hp, hkey⟩ := release_key hrun
      obtain ⟨A, hout⟩ := hrec.outcome
      cases hout with
      | released _ l next _ hop hw hkey' hl hguard hgen hstate' hv =>
        rw [hservice p hp, ← hkey, hv, grant_of_get hw.get_key, ServiceLease.grant_vacant hstate']
        intro r hr
        cases congrArg Grant.authority hr
      | bound _ _ _ _ hop => cases hop
      | handedOff _ _ _ _ hop => cases hop
      | verified _ _ hop => cases hop
  | unbound lease' sv' token' unit e' e'' =>
    obtain ⟨hinit, hd⟩ := last_call (show s.callsOf i ++ [_] = [_, _, _] ++ [_] from hl)
    cases hd
    have hold : (i, issue (starts i) lease' sv' token') ∈ s.calls := by
      rw [← mem_callsOf, hinit]
      exact List.mem_cons_self
    obtain ⟨hvalid, hstate, htoken, hle⟩ := htold.issued i lease' sv' token' hold
    simp only [List.mem_cons, List.not_mem_nil, or_false, issue, Sigma.mk.injEq, reduceCtorEq, false_and, heq_eq_eq,
      Except.ok.injEq, AcquireResult.reserved.injEq, true_and] at hmem
    obtain ⟨rfl, rfl, rfl⟩ := hmem
    rw [← hname] at hvalid
    obtain ⟨hrun, hrec⟩ := answer_bind hans
    rw [hrec.threw]
    intro r hgrant
    have hres := reservedAs_of_grant rfl hstate htoken hle hgrant
    simp only [Unhindered, hpj] at hclear
    obtain ⟨⟨⟨p, hp⟩, hgrants⟩, hunit⟩ := hclear hres
    rw [hservice p hp] at hres
    obtain ⟨v, hv⟩ := bind_granted (fun op a ha => hgrants (op, a) ha) hkept hvalid hp hres hunit (fun x hx => hx) hrun
    cases hv

/-- In every run of starts of a service: under each generation at most one launch is called, what
answered `started` is the holder, and, as long as nothing hinders a start that still has its
reservation, what rejected has left none. -/
theorem starts_sound (starts : ι → StartCall) (k : String × String) (w : World) (es : List (StartEvent ι))
    (s : Starts ι)
    (h : exec startStep (ready w starts) es = some s)
    (hon : AllSteps startStep (OnService starts k) (ready w starts) es) :
    LaunchesOnce s ∧ StartedOwns k s ∧
      (AllSteps startStep (Unhindered k) (ready w starts) es → ∀ i e, s.progs i = .throw e →
        ∀ lease sv token, (i, issue (starts i) lease sv token) ∈ s.calls →
          ∀ l, s.hub.state.leases.get k = some l → l.state = .reserved → l.generation ≠ lease.generation) := by
  refine ⟨launches_once h, started_owns h hon, fun hclear i e hp lease sv token hissue l hl hstate hgen => ?_⟩
  have hgone : RejectedGone starts k s := by
    have hboth : AllSteps startStep (fun s ev => OnService starts k s ev ∧ Unhindered k s ev)
        (ready w starts) es := hon.and hclear
    refine (exec_inv_of (I := fun s => Reachable startStep (ready w starts) s ∧ Told starts k s ∧
      RejectedGone starts k s) ?_
      ⟨.refl _ _, ⟨fun _ _ _ _ h => absurd h List.not_mem_nil, fun _ _ _ h => absurd h List.not_mem_nil⟩,
        fun _ _ _ _ _ _ h => absurd h List.not_mem_nil⟩ hboth h).2.2
    rintro s ev s' ⟨⟨es, hes⟩, htold, hs⟩ ⟨hev, hun⟩ hstep
    exact ⟨⟨es ++ [ev], (exec_snoc_eq_some _).mpr ⟨s, hes, hstep⟩⟩, told_step htold hev hstep,
      rejected_step hes htold hs hev hun hstep⟩
  refine hgone i e hp lease sv token hissue l.reservation ?_
  rw [grant_of_get hl, ServiceLease.grant_reserved hstate, hgen]

/-! ## Two runs -/

theorem resolves_known {ctx : ServiceCtx} {ref : String} {project : ProjectRecord} {cs : List Choice}
    {p : ProjectRecord}
    (hp : w.projects.get ref = some project) (h : ResolvesTo ctx ref w cs p) : p = project := by
  obtain ⟨cs₁, cs₂, w₁, rfl, hrun⟩ := h
  obtain rfl := Filed.key_of_get hp
  cases (ends_run (resolveProject_known hp) hrun).1
  rfl

theorem known_resolves {ctx : ServiceCtx} {ref : String} {project : ProjectRecord} {cs : List Choice}
    (hp : w.projects.get ref = some project) (hcs : cs ≠ []) : ResolvesTo ctx ref w cs project := by
  obtain ⟨c, cs, rfl⟩ := List.exists_cons_of_ne_nil hcs
  obtain rfl := Filed.key_of_get hp
  refine ⟨[c], cs, w, rfl, ?_⟩
  unfold resolveProject Store.getProject
  rw [if_pos (Filed.valid_of_get hp)]
  simp only [perform, Prog.call_bind, run, handle, Option.bind_some, Prog.ret_bind, hp, Prog.pure_eq]

end

def webStart : StartCall := { ctx := { env := {} }, projectRef := "p", name := "web" }

/-- The project of the starts is registered; a release meets a free lock and a clock, and nothing is bound. -/
def smooth (s : Starts Unit) : StartEvent Unit → Bool
  | .turn i turn =>
    (s.hub.state.projects.get "p").isSome && match s.progs i with
      | .call (.release c input) _ => c.projectRef = "p" && !turn.choices.isEmpty &&
          (trace handle (releaseService c.ctx c.projectRef c.name input) turn.choices s.hub.state).all
            fun x => x.2.ok && x.2.ms = 0
      | .call (.bind _ _) _ => false
      | _ => true
  | .outside _ => true

theorem onService_of_smooth {s : Starts Unit} {ev : StartEvent Unit}
    (h : (s.hub.state.projects.get "p").isSome = true) :
    OnService (fun _ => webStart) ("p", "web") s ev := by
  cases ev with
  | outside ev => trivial
  | turn i turn =>
    obtain ⟨project, hp⟩ := Option.isSome_iff_exists.mp h
    refine ⟨rfl, fun p hresolves => ?_⟩
    rw [resolves_known hp hresolves]
    exact Filed.key_of_get hp

theorem unhindered_of_smooth {s : Starts Unit} {ev : StartEvent Unit} (h : smooth s ev = true) :
    Unhindered ("p", "web") s ev := by
  cases ev with
  | outside ev => trivial
  | turn i turn =>
    simp only [smooth, Bool.and_eq_true] at h
    obtain ⟨hproject, h⟩ := h
    obtain ⟨project, hp⟩ := Option.isSome_iff_exists.mp hproject
    cases hprog : s.progs i with
    | call op k =>
      rw [hprog] at h
      cases op with
      | release c input =>
        simp only [Unhindered, hprog]
        simp only [Bool.and_eq_true, decide_eq_true_eq, Bool.not_eq_true', List.isEmpty_eq_false_iff,
          List.all_eq_true] at h
        obtain ⟨⟨href, hcs⟩, hgrants⟩ := h
        intro _
        refine ⟨⟨project, known_resolves (by rw [href]; exact hp) hcs⟩, fun x hx => ?_⟩
        obtain ⟨hok, hms⟩ := hgrants x hx
        unfold Grants
        split
        · exact hok
        · rw [IsDate, hms]; decide
        · trivial
      | bind c input => cases h
      | _ => simp only [Unhindered, hprog]
    | _ => simp only [Unhindered, hprog]

def startTurns (launched : Except String String) (answers : Nat) : List (StartEvent Unit) :=
  [.turn () { choices := List.replicate 16 {} }, .turn () {}, .turn () { launched },
    .turn () { choices := List.replicate answers {} }]

theorem starts_sound_failed_launch : ∃ s : Starts Unit,
    exec startStep (ready workshop fun _ => webStart) (startTurns (.error "boom") 8) = some s ∧
    (∃ e, s.progs () = .throw e) ∧ LaunchesOnce s ∧ StartedOwns ("p", "web") s ∧
    ∀ i e, s.progs i = .throw e → ∀ lease sv token, (i, issue webStart lease sv token) ∈ s.calls →
      ∀ l, s.hub.state.leases.get ("p", "web") = some l → l.state = .reserved → l.generation ≠ lease.generation := by
  have hsmooth : AllSteps startStep (fun s ev => smooth s ev = true ∧ (s.hub.state.projects.get "p").isSome = true)
      (ready workshop fun _ : Unit => webStart) (startTurns (.error "boom") 8) := by decide +kernel
  have hrun : (exec startStep (ready workshop fun _ : Unit => webStart) (startTurns (.error "boom") 8)).map
      (fun s => match s.progs () with | .throw _ => true | _ => false) = some true := by decide +kernel
  obtain ⟨s, hs, hthrew⟩ := Option.map_eq_some_iff.mp hrun
  obtain ⟨hlaunches, howns, hgone⟩ := starts_sound (fun _ : Unit => webStart) ("p", "web") workshop _ s hs
    (hsmooth.mono fun s ev h => onService_of_smooth h.2)
  refine ⟨s, hs, ?_, hlaunches, howns, hgone (hsmooth.mono fun s ev h => unhindered_of_smooth h.1)⟩
  split at hthrew
  · next e he => exact ⟨e, he⟩
  · cases hthrew

/-- A launch that resolves with a unit no record knows: the start rejects and leaves its
reservation, which no clock reading of the run is past. -/
theorem start_leaves_reservation : ∃ (s : Starts Unit) (e : StartError) (lease l : ServiceLease) (sv : ServiceView)
    (token : String) (r : Reservation),
    exec startStep (ready workshop fun _ => webStart) (startTurns (.ok "ghost") 7) = some s ∧
    AllSteps startStep (OnService (fun _ => webStart) ("p", "web")) (ready workshop fun _ => webStart)
      (startTurns (.ok "ghost") 7) ∧
    s.progs () = .throw e ∧ ((), issue webStart lease sv token) ∈ s.calls ∧
    s.hub.state.leases.get ("p", "web") = some l ∧ l.state = .reserved ∧ l.generation = lease.generation ∧
    l.reservation = some r ∧ r.token = token ∧ 0 < r.expiresAt := by
  have hsmooth : AllSteps startStep (fun s _ => (s.hub.state.projects.get "p").isSome = true)
      (ready workshop fun _ : Unit => webStart) (startTurns (.ok "ghost") 7) := by decide +kernel
  have hrun : (exec startStep (ready workshop fun _ : Unit => webStart) (startTurns (.ok "ghost") 7)).map (fun s =>
      (match s.progs () with | .throw _ => true | _ => false, s.calls.filterMap
        fun x => x.2.issued.map (·.generation))) =
      some (true, [1]) := by decide +kernel
  have hleft : (exec startStep (ready workshop fun _ : Unit => webStart) (startTurns (.ok "ghost") 7)).map (fun s =>
      (s.hub.state.leases.get ("p", "web")).map fun l =>
        (decide (l.state = .reserved), l.generation, l.reservation.map fun r => decide (0 < r.expiresAt))) =
      some (some (true, 1, some true)) := by decide +kernel
  obtain ⟨s, hs, hend⟩ := Option.map_eq_some_iff.mp hrun
  obtain ⟨hthrew, hissued⟩ := Prod.mk.inj hend
  rw [hs] at hleft
  have hlease := Option.some.inj hleft
  have hon : AllSteps startStep (OnService (fun _ : Unit => webStart) ("p", "web")) (ready workshop fun _ => webStart)
      (startTurns (.ok "ghost") 7) := hsmooth.mono fun s ev h => onService_of_smooth h
  split at hthrew
  swap
  · cases hthrew
  next e he =>
  obtain ⟨l, hl, hstate⟩ := Option.map_eq_some_iff.mp hlease
  simp only [Prod.mk.injEq] at hstate
  obtain ⟨hstate, hgen, hres⟩ := hstate
  obtain ⟨r, hr, hres⟩ := Option.map_eq_some_iff.mp hres
  have hmem : 1 ∈ s.calls.filterMap fun x => x.2.issued.map (·.generation) := by
    rw [hissued]
    exact List.mem_singleton_self _
  obtain ⟨⟨i, d⟩, hd, hlease⟩ := List.mem_filterMap.mp hmem
  obtain ⟨lease, hlease, hone⟩ := Option.map_eq_some_iff.mp hlease
  obtain ⟨sv, token, rfl⟩ := stage_issued (stages hs i) (mem_callsOf.mpr hd) hlease
  obtain ⟨-, hreserved, htoken', hle⟩ := (told hs hon).issued i lease sv token hd
  refine ⟨s, e, lease, l, sv, token, r, hs, hon, he, hd, hl, of_decide_eq_true hstate, hgen.trans hone.symm, hr, ?_,
    of_decide_eq_true hres⟩
  have hsame := reservedAs_of_grant rfl hreserved htoken' hle
    (by rw [grant_of_get hl, ServiceLease.grant_reserved (of_decide_eq_true hstate), hgen, hone])
  obtain ⟨l', hl', -, -, htoken''⟩ := hsame
  rw [hl] at hl'
  cases hl'
  rw [hr] at htoken''
  exact Option.some.inj htoken''

end Cyberlegion
