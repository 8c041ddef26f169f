import Cyberlegion.ServiceFencing

/-!
# Refused calls

What a service call that throws leaves behind. The lease and the mailboxes are as
they were. The records are too, unless the call is an acquire of a service whose
endpoint has no record: `load` files one before the guards run.
-/

namespace Cyberlegion

open Effects Runs

/-! ## What the outside answered -/

/-- The lock that was granted, and the calls after it. -/
def grantedLock : List (Call × Choice) → Option (String × List (Call × Choice))
  | [] => none
  | (.acquireLock name, c) :: calls => if c.ok then some (name, calls) else grantedLock calls
  | _ :: calls => grantedLock calls

def firstReading : List (Call × Choice) → Option Int
  | [] => none
  | (.now, c) :: _ => some c.ms
  | _ :: calls => firstReading calls

def IsDate (ms : Int) : Prop := ms.natAbs ≤ 8640000000000000

/-- The service's lock was granted when its endpoint had no record, and the clock then read a date. -/
def FindsNoEndpoint (name : String) (w : World) (calls : List (Call × Choice)) : Prop :=
  ∃ p rest ms, grantedLock calls = some (lockName p name, rest) ∧ w.agents.get (serviceEndpointId p name) = none ∧
    firstReading rest = some ms ∧ IsDate ms

theorem grantedLock_append {calls more : List (Call × Choice)} (h : ∀ x ∈ calls, ProjectCall x.1) :
    grantedLock (calls ++ more) = grantedLock more := by
  induction calls with
  | nil => rfl
  | cons x calls ih =>
    obtain ⟨op, c⟩ := x
    have hop : ProjectCall op := h _ List.mem_cons_self
    have hrest := ih fun x hx => h x (List.mem_cons_of_mem _ hx)
    cases op with
    | acquireLock name => exact hop.elim
    | _ => exact hrest

theorem firstReading_append {calls more : List (Call × Choice)} {ms : Int} (h : firstReading calls = some ms) :
    firstReading (calls ++ more) = some ms := by
  induction calls with
  | nil => cases h
  | cons x calls ih =>
    obtain ⟨op, c⟩ := x
    cases op with
    | now => exact h
    | _ => exact ih h

theorem firstReading_skip {calls more : List (Call × Choice)} (h : firstReading calls = none) :
    firstReading (calls ++ more) = firstReading more := by
  induction calls with
  | nil => rfl
  | cons x calls ih =>
    obtain ⟨op, c⟩ := x
    cases op with
    | now => cases h
    | _ => exact ih h

theorem lockName_inj {p p' name : String} (h : lockName p name = lockName p' name) : p = p' := by
  have hlist := congrArg String.toList h
  simp only [lockName, toString, String.toList_append, List.append_assoc, List.append_cancel_left_eq,
    List.append_cancel_right_eq] at hlist
  exact String.toList_inj.mp hlist

/-! ## The calls that write no record -/

section
variable {ctx : ServiceCtx} {A : Call → Choice → Prop} {w w' : World} {project : ProjectRecord}
variable {endpoint rec : AgentRecord} {lease : ServiceLease} {name ref : String} {l t u : List (Call × Choice)}

abbrev WritesNone : Call → Prop := fun op => op.writes = false

theorem writesNone_perform {op : Call} (h : op.writes = false) : (perform op).Only WritesNone := only_perform h

theorem writesNone_nowIso : nowIso.Only WritesNone := (writesNone_perform rfl).bind fun _ => only_iso

theorem writesNone_isLive : (isLive ctx rec).Only WritesNone := by
  unfold isLive
  split
  · trivial
  · split
    · trivial
    · unfold sessionLive
      split
      · trivial
      · split
        · trivial
        · exact (writesNone_perform rfl).bind fun _ => trivial

theorem writesNone_controlOf : (controlOf rec).Only WritesNone := by
  unfold controlOf
  split
  · trivial
  · refine (writesNone_perform rfl).bind fun pane => ?_
    split <;> trivial

theorem writesNone_view : (view ctx project endpoint lease).Only WritesNone := by
  unfold view
  split
  · trivial
  · exact (writesNone_perform rfl).bind fun _ => trivial
  · have howner : (holderRecord lease).Only WritesNone := by
      unfold holderRecord
      split
      · exact writesNone_perform rfl
      · trivial
    refine howner.bind fun owner => ?_
    split
    · trivial
    · refine writesNone_controlOf.bind fun control => writesNone_isLive.bind fun live => ?_
      split <;> trivial

theorem writesNone_vacantLease {p : String} :
    (vacantLease p name).Only WritesNone := writesNone_nowIso.bind fun _ => trivial

theorem writesNone_write : (write lease).Only WritesNone := by
  refine writesNone_nowIso.bind fun t => ?_
  have hput : ∀ next : ServiceLease, (Store.putServiceLease next).Only WritesNone := by
    intro next
    unfold Store.putServiceLease
    split
    · split
      · exact writesNone_perform rfl
      · trivial
    · trivial
  exact (hput _).bind fun _ => trivial

theorem writesNone_reserve {input : AcquireInput} {s : Loaded} : (reserve ctx name input s).Only WritesNone := by
  refine (writesNone_perform rfl).bind fun now => (writesNone_perform rfl).bind fun token => ?_
  exact only_iso.bind fun _ => only_iso.bind fun _ => writesNone_write.bind fun _ => writesNone_view.bind
    fun _ => trivial

theorem writesNone_liveUnit {id : String} : (liveUnit ctx id).Only WritesNone := by
  refine (writesNone_perform rfl).bind fun unit => ?_
  split
  · trivial
  · refine writesNone_isLive.bind fun live => ?_
    split <;> trivial

/-! ## The calls of a part of a call -/

/-- Every way the program ends meets `Q`, with the calls it made added to those before. -/
abbrev Logs {α : Type} (p : HubM α) (Q : Except HubError α → World → List (Call × Choice) → Prop) (w : World)
    (l : List (Call × Choice)) : Prop :=
  wp (logged handle) (fun _ _ => True) (fun _ _ => True) p (fun r s => ∃ t, s.2 = l ++ t ∧ Q r s.1 t) (w, l)

theorem logs_mono {α : Type} {p : HubM α} {Q R : Except HubError α → World → List (Call × Choice) → Prop}
    (hp : Logs p Q w l) (h : ∀ r w' t, Q r w' t → R r w' t) : Logs p R w l :=
  wp_mono hp fun r s ⟨t, ht, hq⟩ => ⟨t, ht, h r s.1 t hq⟩

theorem logs_bind {α β : Type} {p : HubM α} {f : α → HubM β}
    {R : Except HubError α → World → List (Call × Choice) → Prop}
    {Q : Except HubError β → World → List (Call × Choice) → Prop} (hp : Logs p R w l)
    (hok : ∀ a w' t, R (.ok a) w' t → Logs (f a) (fun r w'' u => Q r w'' (t ++ u)) w' (l ++ t))
    (herr : ∀ e w' t, R (.error e) w' t → Q (.error e) w' t) : Logs (p >>= f) Q w l := by
  refine (wp_bind p f).mpr (wp_mono hp fun r s h => ?_)
  obtain ⟨w', l'⟩ := s
  obtain ⟨t, rfl, hr⟩ := h
  cases r with
  | ok a =>
    refine wp_mono (hok a w' t hr) fun r' s' h' => ?_
    obtain ⟨u, hu, hq⟩ := h'
    exact ⟨t ++ u, by rw [hu, List.append_assoc], hq⟩
  | error e => exact ⟨t, rfl, herr e w' t hr⟩

theorem logs_ret {α : Type} {a : α} {Q : Except HubError α → World → List (Call × Choice) → Prop}
    (h : Q (.ok a) w []) :
    Logs (pure a) Q w l := ⟨[], (List.append_nil l).symm, h⟩

theorem logs_throw {α : Type} {e : HubError} {Q : Except HubError α → World → List (Call × Choice) → Prop}
    (h : Q (.error e) w []) : Logs (throw e) Q w l := ⟨[], (List.append_nil l).symm, h⟩

theorem logs_call {α : Type} {op : Call} {k : op.Res → HubM α}
    {Q : Except HubError α → World → List (Call × Choice) → Prop}
    (h : ∀ c r w', handle op c w = some (r, w') →
      Logs (k r) (fun r w'' t => Q r w'' ((op, c) :: t)) w' (l ++ [(op, c)])) :
    Logs (.call op k) Q w l := by
  refine ⟨trivial, fun c r s _ hr => ?_⟩
  obtain ⟨w', hop, rfl⟩ := logged_cases hr
  refine wp_mono (h c r w' hop) fun r' s' h' => ?_
  obtain ⟨t, ht, hq⟩ := h'
  exact ⟨(op, c) :: t, by rw [ht, List.append_assoc]; rfl, hq⟩

theorem logs_only {α : Type} {P : Call → Prop} {p : HubM α} {Q : Except HubError α → World → Prop} (hp : p.Only P)
    (hq : Ends (fun _ _ => True) p Q w) : Logs p (fun r w' t => Q r w' ∧ ∀ x ∈ t, P x.1) w l := by
  have hcalls : wp (logged handle) (fun _ _ => True) (fun _ _ => True) p
      (fun _ s => ∃ t, s.2 = l ++ t ∧ ∀ x ∈ t, P x.1) (w, l) := by
    refine wp_only (I := fun s : World × List (Call × Choice) => ∃ t, s.2 = l ++ t ∧ ∀ x ∈ t, P x.1) hp
      (fun op c s r s' hop hs hr => ?_)
      (fun _ _ _ _ => trivial) ⟨[], (List.append_nil l).symm, fun _ hx => absurd hx List.not_mem_nil⟩
    obtain ⟨w', -, rfl⟩ := logged_cases hr
    obtain ⟨t, ht, hP⟩ := hs
    refine ⟨t ++ [(op, c)], by rw [ht, List.append_assoc], fun x hx => ?_⟩
    rcases List.mem_append.mp hx with hx | hx
    · exact hP x hx
    · rw [List.mem_singleton.mp hx]; exact hop
  have hlift : wp (logged handle) (fun _ _ => True) (fun _ _ => True) p (fun r s => Q r s.1) (w, l) := wp_lift hq
  have hboth : wp (logged handle) (fun _ _ => True) (fun _ _ => True) p
      (fun r s => Q r s.1 ∧ ∃ t, s.2 = l ++ t ∧ ∀ x ∈ t, P x.1) (w, l) :=
    wp_weaken (wp_and hlift hcalls) fun _ _ _ => trivial
  refine wp_mono hboth fun r s h => ?_
  obtain ⟨hr, t, ht, hP⟩ := h
  exact ⟨t, ht, hr, hP⟩

theorem logs_writesNone {α : Type} {p : HubM α} (hp : p.Only WritesNone) :
    Logs p (fun _ w' _ => w'.agents = w.agents) w l := by
  refine logs_mono (logs_only hp
    (wp_only (I := fun s : World => s.agents = w.agents) hp ?_ (fun _ _ _ _ => trivial) rfl))
    fun _ _ _ h => h.1
  intro op c s r s' hop hs hr
  rw [(handle_registry hop hr).1, hs]

/-! ## The endpoint record -/

theorem safeId_endpoint {p : String} (hp : safeId p) (hname : isServiceName name = true) :
    safeId (serviceEndpointId p name) := by
  have hchars : ¬name.toList.any unsafeChar := by
    rw [List.any_eq_true]
    rintro ⟨c, hc, hbad⟩
    have hlead : ∀ c : Char, (('a' ≤ c ∧ c ≤ 'z') ∨ ('0' ≤ c ∧ c ≤ '9')) ∨ c = '_' ∨ c = '-' →
        unsafeChar c = false := by
      intro c h
      refine decide_eq_false fun hbad => ?_
      rcases hbad with rfl | rfl | rfl <;> revert h <;> decide
    unfold isServiceName at hname
    cases hcs : name.toList with
    | nil => rw [hcs] at hc; cases hc
    | cons d cs =>
      rw [hcs] at hc hname
      simp only [decide_eq_true_eq, List.all_eq_true] at hname
      obtain ⟨hd, -, hall⟩ := hname
      rw [hlead c ?_] at hbad
      · cases hbad
      · rcases List.mem_cons.mp hc with rfl | hc
        · exact .inl hd
        · rcases hall c hc with h | h
          · exact .inl h
          · exact .inr h
  have hlist : (serviceEndpointId p name).toList = "svc-".toList ++ (p.toList ++ ("-".toList ++ name.toList)) := by
    simp only [serviceEndpointId, toString, String.toList_append, List.append_assoc]
  have hshort : ∀ y : String, y.toList.length < 3 → serviceEndpointId p name ≠ y := by
    intro y hy h
    have hlen := congrArg (fun s : String => s.toList.length) h
    simp only [hlist, List.length_append] at hlen
    have hfour : "svc-".toList.length = 4 := by decide
    omega
  refine decide_eq_true ⟨hshort _ (by decide), hshort _ (by decide), hshort _ (by decide), ?_⟩
  rw [hlist, List.any_append, List.any_append, List.any_append]
  simp only [Bool.or_eq_true, not_or]
  exact ⟨by decide, not_unsafe_of_safeId hp, by decide, hchars⟩

/-- What became of the endpoint record of a service, and the reading of the clock that decided it. -/
inductive Files (create : Bool) (id : String) (before agents : Registry) (t : List (Call × Choice)) : Prop
  | kept (h : ¬(create = true ∧ before.get id = none)) (hagents : agents = before)
  | undated (ms : Int) (hread : firstReading t = some ms) (hms : ¬IsDate ms) (hagents : agents = before)
  | filed (hcreate : create = true) (hnone : before.get id = none) (ms : Int) (hread : firstReading t = some ms)
      (hms : IsDate ms) (hget : agents.get id ≠ none)

theorem Files.after {create : Bool} {id : String} {before agents : Registry} (h : Files create id before agents t)
    (hu : firstReading u = none) : Files create id before agents (u ++ t) := by
  cases h with
  | kept h hagents => exact .kept h hagents
  | undated ms hread hms hagents => exact .undated ms (by rw [firstReading_skip hu]; exact hread) hms hagents
  | filed hcreate hnone ms hread hms hget =>
    exact .filed hcreate hnone ms (by rw [firstReading_skip hu]; exact hread) hms hget

theorem Files.append {create : Bool} {id : String} {before agents : Registry} (h : Files create id before agents t) :
    Files create id before agents (t ++ u) := by
  cases h with
  | kept h hagents => exact .kept h hagents
  | undated ms hread hms hagents => exact .undated ms (firstReading_append hread) hms hagents
  | filed hcreate hnone ms hread hms hget => exact .filed hcreate hnone ms (firstReading_append hread) hms hget

/-! ## Loading -/

theorem ends_after {α β : Type} {p : HubM α} {f : α → HubM β} {P : β → World → Prop}
    (hf : ∀ a w', Ends A (f a) (fun r w'' => OnOk (P · w'') r) w') :
    Ends A (p >>= f) (fun r w'' => OnOk (P · w'') r) w := by
  refine ends_bind (wp_only (I := fun _ : World => True) (Prog.only_true p) ?_ ?_ trivial) (fun a w' _ => hf a w') ?_
  · exact fun _ _ _ _ _ _ _ _ => trivial
  · exact fun _ _ _ _ => trivial
  · exact fun _ _ _ => trivial

theorem putProject_registers {rec : ProjectRecord} : Ends (fun _ _ => True) (Store.putProject rec >>= fun _ => pure rec)
    (fun r w' => OnOk (fun p => w'.projects.get p.id = some p) r) w := by
  unfold Store.putProject
  split
  · next hsafe =>
    refine ends_call fun c r w' _ hr => ?_
    simp only [handle, hsafe, dif_pos] at hr
    cases hr
    exact ends_pure (Filed.get_put_self w.projects _ hsafe)
  · exact ends_throw trivial

theorem registerProject_registers {input : Option String} : Ends (fun _ _ => True) (registerProject ctx.toCtx input)
    (fun r w' => OnOk (fun p => w'.projects.get p.id = some p) r) w := by
  unfold registerProject
  apply ends_after
  intro commonDir w1
  cases commonDir with
  | none => exact ends_throw trivial
  | some commonDir =>
    apply ends_after
    intro _ w2
    apply ends_after
    intro existing w3
    apply ends_after
    intro checkout w4
    apply ends_after
    intro registeredAt w5
    exact putProject_registers

theorem byPath_registers {dir : String} : Ends (fun _ _ => True) (byPath ctx.toCtx dir)
    (fun r w' => OnOk (fun p => w'.projects.get p.id = some p) r) w := by
  unfold byPath
  apply ends_after
  intro commonDir w1
  cases commonDir with
  | none => exact ends_throw trivial
  | some commonDir =>
    refine ends_bind getProject_finds (fun found w2 h => ?_) fun _ _ _ => trivial
    obtain ⟨rfl, hfound⟩ := h
    cases hfound
    cases hget : w2.projects.get (projectIdOf ctx.toCtx commonDir) with
    | none => exact registerProject_registers
    | some rec =>
      refine ends_pure ?_
      show w2.projects.get rec.id = some rec
      rw [Filed.key_of_get hget]; exact hget

theorem resolveProject_registers : Ends (fun _ _ => True) (resolveProject ctx.toCtx ref)
    (fun r w' => OnOk (fun p => w'.projects.get p.id = some p) r) w := by
  unfold resolveProject
  refine ends_bind getProject_finds (fun found w1 h => ?_) fun _ _ _ => trivial
  obtain ⟨rfl, hfound⟩ := h
  cases hfound
  cases hget : w1.projects.get ref with
  | some byId =>
    refine ends_pure ?_
    show w1.projects.get byId.id = some byId
    rw [Filed.key_of_get hget]; exact hget
  | none =>
    have hlisted : ∀ w2, Ends (fun _ _ => True) (byName ctx.toCtx ref)
        (fun r w' => OnOk (fun p => w'.projects.get p.id = some p) r) w2 := by
      intro w2
      unfold byName
      refine ends_read (fun _ => rfl) ?_
      split
      · next named hnamed =>
        have hmem : named ∈ (Projects.list w2.projects).filter (·.name = ref) := by
          rw [hnamed]; exact List.mem_singleton_self _
        exact ends_pure (Projects.mem_list.mp (List.mem_filter.mp hmem).1)
      · apply ends_after
        intro isDir w3
        split
        · exact byPath_registers
        · exact ends_throw trivial
      · exact ends_throw trivial
    show Ends _ (if looksLikePath ref then _ else _) _ w1
    split
    · apply ends_after
      intro isDir w2
      split
      · exact byPath_registers
      · exact hlisted w2
    · exact hlisted w1

theorem resolveProject_logs : Logs (resolveProject ctx.toCtx ref) (fun r w' t => (∀ x ∈ t, ProjectCall x.1) ∧
    w'.agents = w.agents ∧ OnOk (fun p => w'.projects.get p.id = some p) r) w l := by
  refine logs_mono (logs_only only_resolveProject (ends_and resolveProject_keeps resolveProject_registers))
    fun r w' t h => ?_
  obtain ⟨⟨⟨projects, rfl⟩, hreg⟩, hcalls⟩ := h
  exact ⟨hcalls, rfl, hreg⟩

theorem resolveProject_id (hp : w.projects.get project.id = some project) :
    Logs (resolveProject ctx.toCtx project.id) (fun r w' t => r = .ok project ∧ w' = w ∧
      ∃ c, t = [(.getProject project.id, c)]) w l := by
  unfold resolveProject Store.getProject
  rw [if_pos (Filed.valid_of_get hp)]
  refine logs_call fun c r w' hr => ?_
  cases hr
  rw [hp]
  exact logs_ret ⟨rfl, rfl, c, rfl⟩

theorem ensureEndpoint_logs (hp : safeId project.id) (hname : isServiceName name = true) :
    Logs (ensureEndpoint ctx project name)
    (fun _ w' t => Files true (serviceEndpointId project.id name) w.agents w'.agents t) w l := by
  unfold ensureEndpoint
  refine logs_call fun c r w' hr => ?_
  cases hr
  cases hget : w.agents.get (serviceEndpointId project.id name) with
  | some existing => exact logs_ret (.kept (by simp [hget]) rfl)
  | none =>
    refine logs_call fun c' r w' hr => ?_
    cases hr
    refine logs_call fun now r w' hr => ?_
    cases hr
    show Logs (iso now.ms >>= fun _ => _) _ w _
    unfold iso
    by_cases hms : now.ms.natAbs ≤ 8640000000000000
    · rw [if_pos hms]
      show Logs (Store.putAgent _ >>= fun _ => _) _ w _
      unfold Store.putAgent
      rw [if_pos (safeId_endpoint hp hname)]
      refine logs_call fun c'' r w' hr => ?_
      simp only [handle, safeId_endpoint hp hname, dif_pos] at hr
      cases hr
      refine logs_ret (.filed rfl hget now.ms rfl hms ?_)
      rw [Filed.get_put_self w.agents _ (safeId_endpoint hp hname)]
      exact Option.some_ne_none _
    · rw [if_neg hms]
      exact logs_throw (.undated now.ms rfl hms rfl)

theorem Files.changed {create : Bool} {id : String} {before agents : Registry} (h : Files create id before agents t) :
    agents = before ↔ ¬(create = true ∧ before.get id = none ∧ ∃ ms, firstReading t = some ms ∧ IsDate ms) := by
  cases h with
  | kept h hagents =>
    exact iff_of_true hagents fun ⟨hcreate, hnone, _⟩ => h ⟨hcreate, hnone⟩
  | undated ms hread hms hagents =>
    refine iff_of_true hagents ?_
    rintro ⟨-, -, ms', hread', hms'⟩
    rw [hread] at hread'
    cases hread'
    exact hms hms'
  | filed hcreate hnone ms hread hms hget =>
    refine iff_of_false (fun hagents => ?_) fun hnot => hnot ⟨hcreate, hnone, ms, hread, hms⟩
    rw [hagents] at hget
    exact hget hnone

theorem getServiceLease_logs {p : String} : Logs (Store.getServiceLease p name)
    (fun r w' t => w' = w ∧ firstReading t = none ∧ ∃ lease, r = .ok lease) w l := by
  unfold Store.getServiceLease
  split
  · refine logs_call fun c r w' hr => ?_
    cases hr
    exact logs_ret ⟨rfl, rfl, _, rfl⟩
  · exact logs_ret ⟨rfl, rfl, _, rfl⟩

theorem load_logs {create : Bool} (hp : w.projects.get project.id = some project) (hname : isServiceName name = true) :
    Logs (load ctx project.id name create)
      (fun _ w' t => Files create (serviceEndpointId project.id name) w.agents w'.agents t) w l := by
  unfold load assertServiceName
  rw [if_pos hname, pure_bind]
  refine logs_bind (resolveProject_id hp) ?_ ?_
  swap
  · rintro e w' t ⟨he, -⟩
    cases he
  rintro p w1 t ⟨hok, rfl, c, rfl⟩
  cases hok
  refine logs_bind getServiceLease_logs ?_ ?_
  swap
  · rintro e w' t ⟨-, -, lease, he⟩
    cases he
  rintro lease w1 t ⟨rfl, ht, -⟩
  have hsafe := Filed.valid_of_get hp
  refine logs_call fun c' r w2 hr => ?_
  cases hr
  have hskip : ∀ {agents : Registry} {u : List (Call × Choice)},
      Files create (serviceEndpointId project.id name) w1.agents agents u →
      Files create (serviceEndpointId project.id name) w1.agents agents ([(.getProject project.id, c)] ++
        (t ++ (Call.getAgent (serviceEndpointId project.id name), c') :: u)) := by
    intro agents u h
    refine h.after (u := [(.getAgent _, c')]) rfl |>.after ht |>.after rfl
  have hcreate : ∀ found : Option ServiceLease, Logs (loadVacant ctx project name create found)
      (fun _ w' u => Files create (serviceEndpointId project.id name) w1.agents w'.agents
        ([(.getProject project.id, c)] ++
        (t ++ (Call.getAgent (serviceEndpointId project.id name), c') :: u))) w1
      (l ++ [(.getProject project.id, c)] ++ t ++ [(.getAgent (serviceEndpointId project.id name), c')]) := by
    intro found
    unfold loadVacant
    split
    · next htrue =>
      subst htrue
      have hlease : (leaseOr project.id name found).Only WritesNone := by
        cases found with
        | some lease => trivial
        | none => exact writesNone_vacantLease
      have hrest : ∀ endpoint : AgentRecord, (do
          let lease ← leaseOr project.id name found
          return ({ project, endpoint, lease } : Loaded) : HubM Loaded).Only WritesNone :=
        fun endpoint => hlease.bind fun _ => trivial
      refine logs_bind (ensureEndpoint_logs hsafe hname) ?_ ?_
      · rintro endpoint w2 u hfiles
        refine logs_mono (logs_writesNone (hrest endpoint)) fun r w3 v hagents => ?_
        rw [hagents]
        exact hskip hfiles.append
      · rintro e w2 u hfiles
        exact hskip hfiles
    · next hfalse => exact logs_throw (hskip (.kept (fun h => hfalse h.1) rfl))
  cases lease with
  | none => exact hcreate none
  | some lease =>
    cases hendpoint : w1.agents.get (serviceEndpointId project.id name) with
    | none => exact hcreate (some lease)
    | some endpoint =>
      refine logs_ret (hskip (.kept (fun h => ?_) rfl))
      rw [h.2] at hendpoint; cases hendpoint

theorem logs_withLock {α : Type} {lock : String} {fn : HubM α}
    {Q : Except HubError α → World → List (Call × Choice) → Prop}
    (hrefused : ∀ c, c.ok = false → Q (.error (.lockTimeout lock)) w [(.acquireLock lock, c)])
    (hfn : ∀ c, c.ok = true → Logs fn (fun r w' t => ∀ locks d,
      Q r { w' with locks } ((.acquireLock lock, c) :: (t ++ [(.releaseLock lock, d)])))
      { w with locks := lock :: w.locks } (l ++ [(.acquireLock lock, c)])) :
    Logs (Store.withLock lock fn) Q w l := by
  refine logs_call fun c r w' hr => ?_
  simp only [handle] at hr
  split at hr
  · next hc =>
    split at hr
    · cases hr
    · cases hr
      refine (wp_bind (Prog.ret true) _).mpr ?_
      simp only [wp_ret, if_true]
      refine (wp_bind _ _).mpr ((wp_tryCatch _ _).mpr ?_)
      rw [← bind_pure_comp]
      refine (wp_bind _ _).mpr (wp_mono (hfn c hc) fun r s hq => ?_)
      obtain ⟨w', l'⟩ := s
      obtain ⟨t, rfl, hq⟩ := hq
      have hend : ∀ d : Choice, l ++ [(Call.acquireLock lock, c)] ++ t ++ [(Call.releaseLock lock, d)] =
          l ++ [(Call.acquireLock lock, c)] ++ (t ++ [(Call.releaseLock lock, d)]) := fun d => List.append_assoc _ _ _
      cases r with
      | ok a =>
        refine ⟨trivial, fun d _ s' _ hs => ?_⟩
        obtain ⟨_, hop, rfl⟩ := logged_cases hs
        cases hop
        exact ⟨t ++ [(.releaseLock lock, d)], hend d, hq _ d⟩
      | error e =>
        refine ⟨trivial, fun d _ s' _ hs => ?_⟩
        obtain ⟨_, hop, rfl⟩ := logged_cases hs
        cases hop
        exact ⟨t ++ [(.releaseLock lock, d)], hend d, hq _ d⟩
  · next hc =>
    cases hr
    exact logs_throw (hrefused c (Bool.eq_false_iff.mpr hc))

/-- A transition changes the records exactly when it is to create the service and finds no endpoint. -/
theorem transition_logs {α : Type} {create : Bool} {fn : Loaded → HubM α} (hfn : ∀ s, (fn s).Only WritesNone) :
    Logs (transition ctx ref name create fn)
      (fun _ w' t => w'.agents = w.agents ↔ ¬(create = true ∧ FindsNoEndpoint name w t)) w l := by
  unfold transition assertServiceName
  by_cases hname : isServiceName name = true
  swap
  · rw [if_neg hname]
    refine logs_throw (iff_of_true rfl ?_)
    rintro ⟨-, p, rest, ms, hlock, -⟩
    cases hlock
  rw [if_pos hname, pure_bind]
  refine logs_bind resolveProject_logs ?_ ?_
  swap
  · rintro e w' t ⟨hcalls, hagents, -⟩
    refine iff_of_true hagents ?_
    rintro ⟨-, p, rest, ms, hlock, -⟩
    rw [← List.append_nil t, grantedLock_append hcalls] at hlock
    cases hlock
  rintro project w1 t ⟨hcalls, hagents, hp⟩
  refine logs_withLock (fun c hc => ?_) fun c hc => ?_
  · refine iff_of_true hagents ?_
    rintro ⟨-, p, rest, ms, hlock, -⟩
    rw [grantedLock_append hcalls, grantedLock, hc] at hlock
    cases hlock
  · have hbody : Logs (load ctx project.id name create >>= fn)
        (fun _ w' t => Files create (serviceEndpointId project.id name) w1.agents w'.agents t)
        { w1 with locks := lockName project.id name :: w1.locks }
        (l ++ t ++ [(.acquireLock (lockName project.id name), c)]) := by
      refine logs_bind (load_logs (w := { w1 with locks := lockName project.id name :: w1.locks }) hp hname) ?_ ?_
      · rintro s w2 u hfiles
        refine logs_mono (logs_writesNone (hfn s)) fun r w3 v hsame => ?_
        rw [hsame]
        exact hfiles.append
      · exact fun e w2 u hfiles => hfiles
    refine logs_mono hbody fun r w2 u hfiles locks d => ?_
    have hlock : grantedLock (t ++ (Call.acquireLock (lockName project.id name), c) ::
        (u ++ [(.releaseLock (lockName project.id name), d)])) =
        some (lockName project.id name, u ++ [(.releaseLock (lockName project.id name), d)]) := by
      rw [grantedLock_append hcalls, grantedLock, if_pos hc]
    have hfinds : FindsNoEndpoint name w (t ++ (Call.acquireLock (lockName project.id name), c) ::
        (u ++ [(.releaseLock (lockName project.id name), d)])) ↔
        w.agents.get (serviceEndpointId project.id name) = none ∧
          ∃ ms, firstReading (u ++ [(.releaseLock (lockName project.id name), d)]) = some ms ∧ IsDate ms := by
      constructor
      · rintro ⟨p, rest, ms, hgranted, hnone, hread, hms⟩
        rw [hlock] at hgranted
        obtain ⟨hlockname, rfl⟩ := Prod.mk.inj (Option.some.inj hgranted)
        obtain rfl := lockName_inj hlockname
        exact ⟨hnone, ms, hread, hms⟩
      · rintro ⟨hnone, ms, hread, hms⟩
        exact ⟨_, _, ms, hlock, hnone, hread, hms⟩
    rw [hfinds, ← hagents]
    exact hfiles.append.changed

theorem writesNone_verify {input : OwnerInput} : (verifyOwnership ctx ref name input).Only WritesNone := by
  have hload : (load ctx ref name false).Only WritesNone := by
    unfold load assertServiceName
    split
    · refine (only_resolveProject.mono fun op hop => ?_).bind fun project => ?_
      · cases op with
        | putAgent | removeAgent | putPaneIndex | removePaneIndex | removeMailbox | putMessage => exact hop.elim
        | _ => rfl
      have hlease : (Store.getServiceLease project.id name).Only WritesNone := by
        unfold Store.getServiceLease
        split
        · exact writesNone_perform rfl
        · trivial
      refine hlease.bind fun lease => (writesNone_perform rfl).bind fun endpoint => ?_
      split <;> trivial
    · trivial
  refine hload.bind fun s => ?_
  show (if _ then _ else _ : HubM ServiceView).Only WritesNone
  split
  · trivial
  · exact writesNone_view

theorem writesNone_acquire {input : AcquireInput} {s : Loaded} : (do
    let current ← view ctx s.project s.endpoint s.lease
    match input.force with
    | some generation =>
      if generation ≠ s.lease.generation then
        stale (s!"cannot force: generation {generation} is not the current " ++ toString s.lease.generation)
      else reserve ctx name input s
    | none =>
      match current.health with
      | .healthy => return .resolved s.lease current
      | .starting => return .starting s.lease current
      | _ => reserve ctx name input s : HubM AcquireResult).Only WritesNone := by
  refine writesNone_view.bind fun current => ?_
  split
  · split
    · trivial
    · exact writesNone_reserve
  · split
    · trivial
    · trivial
    · exact writesNone_reserve

theorem call_logs (c : ServiceCall) : Logs c.prog (fun _ w' t =>
    w'.agents = w.agents ↔ ¬((∃ input, c.op = .acquire input) ∧ FindsNoEndpoint c.name w t)) w l := by
  have hmap : ∀ {α : Type} {p : HubM α} {f : α → ServiceAnswer} {P : World → List (Call × Choice) → Prop},
      Logs p (fun _ w' t => P w' t) w l → Logs (f <$> p) (fun _ w' t => P w' t) w l := by
    intro α p f P hp
    rw [← bind_pure_comp]
    refine logs_bind hp (fun a w' t h => logs_ret ?_) fun e w' t h => h
    rw [List.append_nil]; exact h
  obtain ⟨ctx, ref, name, op⟩ := c
  have hno : ∀ {P Q : Prop} {op : ServiceOp}, (∀ input, op ≠ .acquire input) →
      (P ↔ ¬(false = true ∧ Q)) → (P ↔ ¬((∃ input, op = .acquire input) ∧ Q)) := by
    intro P Q op hop h
    refine h.trans (iff_of_true (fun h => Bool.false_ne_true h.1) ?_)
    rintro ⟨⟨input, rfl⟩, -⟩
    exact hop input rfl
  have hlive : ∀ {id : String} {next : ServiceLease} {s : Loaded},
      (do let _ ← liveUnit ctx id; let next ← write next; view ctx s.project s.endpoint next :
        HubM ServiceView).Only WritesNone :=
    writesNone_liveUnit.bind fun _ => writesNone_write.bind fun _ => writesNone_view
  cases op with
  | acquire input =>
    refine hmap (logs_mono (transition_logs fun s => writesNone_acquire) fun r w' t h => h.trans ?_)
    exact not_congr (and_congr_left' (iff_of_true rfl ⟨input, rfl⟩))
  | bind input =>
    refine hmap (logs_mono (transition_logs fun s => ?_) fun r w' t => hno nofun)
    show (if _ then _ else _ : HubM ServiceView).Only WritesNone
    split
    · trivial
    · exact hlive
  | release input =>
    refine hmap (logs_mono (transition_logs fun s => ?_) fun r w' t => hno nofun)
    show (if _ then _ else _ : HubM ServiceView).Only WritesNone
    split
    · exact writesNone_write.bind fun _ => writesNone_view
    · trivial
  | handoff input =>
    refine hmap (logs_mono (transition_logs fun s => ?_) fun r w' t => hno nofun)
    show (if _ then _ else _ : HubM ServiceView).Only WritesNone
    split
    · trivial
    · exact hlive
  | verify input =>
    refine hmap (logs_mono (logs_writesNone writesNone_verify) fun r w' t hagents => ?_)
    exact hno nofun (iff_of_true hagents fun h => Bool.false_ne_true h.1)

end

/-- A call that throws leaves the lease, the mailboxes and the records, unless it is an
acquire that finds no endpoint record. -/
theorem refused_unchanged_iff (c : ServiceCall) (w w' : World) (cs : List Choice) (e : HubError)
    (h : run handle c.prog cs w = some (.error e, w')) :
    (w'.leases = w.leases ∧ w'.mailboxes = w.mailboxes ∧ w'.agents = w.agents) ↔
      ¬((∃ input, c.op = .acquire input) ∧ FindsNoEndpoint c.name w (trace handle c.prog cs w)) := by
  obtain ⟨t, ht, hiff⟩ := wp_logged_run (call_logs (w := w) (l := []) c) (fun _ _ => trivial) h
  rw [List.nil_append, List.nil_append] at ht
  rw [← ht] at hiff
  have hloads : Loads w w' := by
    have hout := outcome_of_run h
    cases hout with
    | threw _ hw => exact hw
  rw [← hiff]
  exact ⟨fun h => h.2.2, fun h => ⟨hloads.leases, hloads.mailboxes, h⟩⟩

theorem refused_unchanged_release : ∃ e w',
    run handle (ServiceCall.prog ⟨{ env := {} }, "p", "web", .release ⟨1, none, some "a"⟩⟩)
    (List.replicate 6 {}) workshop =
      some (.error e, w') ∧
    w'.leases = workshop.leases ∧ w'.mailboxes = workshop.mailboxes ∧ w'.agents = workshop.agents := by
  have hrefused : (run handle (ServiceCall.prog ⟨{ env := {} }, "p", "web", .release ⟨1, none, some "a"⟩⟩)
      (List.replicate 6 {}) workshop).map (·.1.isOk) = some false := by decide +kernel
  obtain ⟨⟨r, w'⟩, hrun, hr⟩ := Option.map_eq_some_iff.mp hrefused
  cases r with
  | ok answer => cases hr
  | error e =>
    refine ⟨e, w', hrun, (refused_unchanged_iff _ _ _ _ _ hrun).mpr ?_⟩
    rintro ⟨⟨input, hop⟩, -⟩
    cases hop

/-- A forced acquire that names a stale generation is refused, and the service that was
never started has an endpoint from then on. -/
theorem refused_acquire_files : ∃ (c : ServiceCall) (w w' : World) (cs : List Choice) (message : String),
    run handle c.prog cs w = some (.error (.ownership .stale message), w') ∧
    w.leases.get ("p", "web") = none ∧ w.agents.get "svc-p-web" = none ∧ w'.agents.get "svc-p-web" ≠ none := by
  have hstale : (run handle (ServiceCall.prog ⟨{ env := {} }, "p", "web", .acquire { force := some 3 }⟩)
      (List.replicate 11 {}) workshop).map
      (fun r => (match r.1 with | .error (.ownership .stale _) => true | _ => false,
        (r.2.agents.get "svc-p-web").isSome)) = some (true, true) := by decide +kernel
  obtain ⟨⟨r, w'⟩, hrun, hr⟩ := Option.map_eq_some_iff.mp hstale
  obtain ⟨hr, hfiled⟩ := Prod.mk.inj hr
  split at hr
  · next message hmessage =>
    obtain rfl : r = _ := hmessage
    exact ⟨_, workshop, w', _, message, hrun, by decide, by decide, Option.isSome_iff_ne_none.mp hfiled⟩
  · cases hr

end Cyberlegion
