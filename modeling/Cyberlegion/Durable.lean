import Cyberlegion.Operations

/-!
# Durable addresses

A standing owner and a service endpoint outlive every session: no sweep marks one
exited, no runtime verb stops one, and only a close deletes a standing owner. The one
verb that asks no record's kind is `register`, which writes over whatever record its
caller's environment names.
-/

namespace Cyberlegion

open Effects Runs

/-- Nobody registers as a stored standing owner or service. -/
def RegistersAsUnit (w : World) (o : Operation) (_ : List (Call × Choice)) : Prop :=
  match o with
  | .verb ⟨ctx, .register _⟩ => ∀ rec, w.self ctx = some rec → rec.kind = .session
  | _ => True

def Operation.closes (o : Operation) (id : String) : Prop :=
  ∃ ctx input, o = .verb ⟨ctx, .close input⟩ ∧ input.id = id

structure Lasts (rec rec' : AgentRecord) : Prop where
  kind : rec'.kind = rec.kind
  active : rec'.status = .active
  service : rec.kind = .service → rec'.service = rec.service

/-- A mailbox that is there stays, and loses no message. -/
def Holds (box box' : Option InboxSnapshot) : Prop :=
  ∀ b, box = some b → ∃ b', box' = some b' ∧ b.unread <:+ b'.unread ∧ b'.read = b.read

/-- Between the hub `w` and the end of a run from it, every durable record and its mailbox
last; a standing one may be closed. -/
def Durable (w : World) (s : OpRun) : Prop :=
  ∀ id rec, w.agents.get id = some rec → rec.kind ≠ .session →
    (rec.kind = .standing ∧ ∃ e ∈ s.log, e.call.closes id) ∨
      ∃ rec', s.state.agents.get id = some rec' ∧ Lasts rec rec' ∧
        Holds (w.mailboxes.lookup id) (s.state.mailboxes.lookup id)

def WellKept (id : String) (stored : Option AgentRecord) : Prop :=
  ∀ rec, stored = some rec → rec.kind ≠ .session →
    rec.status = .active ∧ (rec.kind = .service → ∃ project name, id = serviceEndpointId project name)

section
variable {A : Call → Choice → Prop} {w w' : World} {o : Operation} {id : String} {old new : Option AgentRecord}
variable {rec : AgentRecord} {box box' box'' : Option InboxSnapshot}

theorem Holds.refl : Holds box box := fun b hb => ⟨b, hb, List.suffix_rfl, rfl⟩

theorem Holds.trans (h : Holds box box') (h' : Holds box' box'') : Holds box box'' := by
  intro b hb
  obtain ⟨b', hb', hunread, hread⟩ := h b hb
  obtain ⟨b'', hb'', hunread', hread'⟩ := h' b' hb'
  exact ⟨b'', hb'', hunread.trans hunread', hread'.trans hread⟩

theorem kind_of_runtime (h : rec.kind.hasRuntime = true) : rec.kind = .session := by
  obtain ⟨hstanding, hservice⟩ := of_decide_eq_true h
  cases hkind : rec.kind with
  | session => rfl
  | standing => exact absurd hkind hstanding
  | service => exact absurd hkind hservice

theorem kind_of_prunable (h : isPrunable rec = true) : rec.kind = .session := by
  obtain ⟨hindependent, -, -⟩ := of_decide_eq_true h
  cases hkind : rec.kind with
  | session => rfl
  | standing => exact absurd (decide_eq_true (.inl hkind)) hindependent
  | service => exact absurd (decide_eq_true (.inr hkind)) hindependent

theorem standing_ne_endpoint {handle project name : String} : standingId handle ≠ serviceEndpointId project name := by
  intro h
  have hsecond := congrArg (fun s : String => s.toList[1]?) h
  simp only [standingId, serviceEndpointId, toString, String.toList_append] at hsecond
  have hleft : "standing-".toList = ['s', 't', 'a', 'n', 'd', 'i', 'n', 'g', '-'] := by decide
  have hright : "svc-".toList = ['s', 'v', 'c', '-'] := by decide
  rw [hleft, hright] at hsecond
  simp only [List.cons_append, List.getElem?_cons_succ, List.getElem?_cons_zero, Option.some.injEq] at hsecond
  exact absurd hsecond (by decide)

/-! ## One change of one record -/

theorem change_kept (h : Change A w o id old new) (hold : WellKept id old) : WellKept id new := by
  intro rec' hrec' hkind
  cases h with
  | seen rec t => cases hrec'; exact hold rec rfl hkind
  | converses ctx session rec c ho => cases hrec'; exact hold rec rfl hkind
  | exits rec hprunable => cases hrec'; exact absurd (kind_of_prunable hprunable) hkind
  | adopts rec hsession => cases hrec'; exact absurd hsession hkind
  | enlists ctx input rec pane ho hrec => cases hrec'; exact absurd hrec.kind hkind
  | registers ctx input old rec ho hwho hrec => cases hrec'; exact absurd hrec.kind hkind
  | halts rec hruntime => cases hrec'; exact absurd (kind_of_runtime hruntime) hkind
  | binds rec pane t hruntime => cases hrec'; exact absurd (kind_of_runtime hruntime) hkind
  | reaps ctx input rec ho hid hservice => cases hrec'
  | refreshes ctx input old rec ho hid hrec =>
    cases hrec'
    exact ⟨hrec.status, fun hservice => by rw [hrec.kind] at hservice; cases hservice⟩
  | presents rec presence ho hstanding => cases hrec'; exact hold rec rfl hkind
  | serves c rec ho hrec =>
    cases hrec'
    obtain ⟨project, name, -, hid⟩ := hrec.service
    exact ⟨hrec.status, fun _ => ⟨project, name, hid⟩⟩

/-- A registration that goes over a durable record is one under its own id. -/
theorem registers_session {ctx : Ctx} {input : RegisterInput} {tr : List (Call × Choice)}
    (hget : w.agents.get id = some rec)
    (hmeet : RegistersAsUnit w (.verb ⟨ctx, .register input⟩) tr) (hwho : Registers w ctx id) :
    rec.kind = .session := by
  unfold Registers at hwho
  cases hself : w.selfId ctx with
  | none =>
    rw [hself] at hwho
    rw [hwho.1] at hget
    cases hget
  | some self =>
    rw [hself] at hwho
    refine hmeet rec ?_
    rw [World.self, hself, Option.bind_some, ← hwho, hget]

theorem change_lasts {tr : List (Call × Choice)} {rec₀ : AgentRecord} (hget : w.agents.get id = some rec₀)
    (hmeet : RegistersAsUnit w o tr) (hkind : rec₀.kind ≠ .session)
    (hid : rec₀.kind = .service → ∃ project name, id = serviceEndpointId project name)
    (h : Change A w o id (some rec) new) (hrec : Lasts rec₀ rec) :
    (rec₀.kind = .standing ∧ o.closes id) ∨ ∃ rec', new = some rec' ∧ Lasts rec₀ rec' := by
  have hrec' : rec.kind ≠ .session := by rw [hrec.kind]; exact hkind
  cases h with
  | seen rec t => exact .inr ⟨_, rfl, hrec.kind, hrec.active, hrec.service⟩
  | converses ctx session rec c ho => exact .inr ⟨_, rfl, hrec.kind, hrec.active, hrec.service⟩
  | exits rec hprunable => exact absurd (kind_of_prunable hprunable) hrec'
  | registers ctx input old rec ho hwho hnew =>
    subst ho
    exact absurd (registers_session hget hmeet hwho) hkind
  | halts rec hruntime => exact absurd (kind_of_runtime hruntime) hrec'
  | binds rec pane t hruntime => exact absurd (kind_of_runtime hruntime) hrec'
  | reaps ctx input rec ho hclosed hservice =>
    rw [hrec.kind] at hservice
    refine .inl ⟨?_, ctx, input, ho, hclosed⟩
    cases hk : rec₀.kind with
    | session => exact absurd hk hkind
    | standing => rfl
    | service => exact absurd hk hservice
  | refreshes ctx input old rec' ho hstanding hnew =>
    cases hk : rec₀.kind with
    | session => exact absurd hk hkind
    | standing => exact .inr ⟨rec', rfl, hnew.kind.trans hk.symm, hnew.status, fun hs => by rw [hk] at hs; cases hs⟩
    | service =>
      obtain ⟨project, name, hendpoint⟩ := hid hk
      exact absurd (hstanding.symm.trans hendpoint) standing_ne_endpoint
  | presents rec presence ho hstanding => exact .inr ⟨_, rfl, hrec.kind, hrec.active, hrec.service⟩

/-! ## One operation -/

theorem moves_lasts {tr : List (Call × Choice)} (hw : WellKept id (w.agents.get id)) (hmeet : RegistersAsUnit w o tr)
    (h : Moves A w o w' id) (hget : w.agents.get id = some rec) (hkind : rec.kind ≠ .session) :
    (rec.kind = .standing ∧ o.closes id) ∨ ∃ rec', w'.agents.get id = some rec' ∧ Lasts rec rec' ∧
      Holds (w.mailboxes.lookup id) (w'.mailboxes.lookup id) := by
  obtain ⟨hactive, hid⟩ := hw rec hget hkind
  have hagents : (rec.kind = .standing ∧ o.closes id) ∨ ∃ rec', w'.agents.get id = some rec' ∧ Lasts rec rec' := by
    refine star_inv (P := fun stored => (rec.kind = .standing ∧ o.closes id) ∨ ∃ rec',
      stored = some rec' ∧ Lasts rec rec')
      h.agents ?_ (.inr ⟨rec, hget, rfl, hactive, fun _ => rfl⟩)
    rintro old new hstep (hclosed | ⟨rec', rfl, hlasts⟩)
    · exact .inl hclosed
    · exact change_lasts hget hmeet hkind hid hstep hlasts
  rcases hagents with hclosed | ⟨rec', hrec', hlasts⟩
  · exact .inl hclosed
  have hmail := h.mailbox
  generalize w'.mailboxes.lookup id = box at hmail ⊢
  cases hmail with
  | kept => exact .inr ⟨rec', hrec', hlasts, .refl⟩
  | sent input msg ho hto =>
    refine .inr ⟨rec', hrec', hlasts, fun b hb => ⟨_, rfl, ?_⟩⟩
    rw [hb]
    exact ⟨List.suffix_cons _ _, rfl⟩
  | reaped ctx input box ho hclosed hservice =>
    refine .inl ⟨?_, ctx, input, ho, hclosed⟩
    cases hk : rec.kind with
    | session => exact absurd hk hkind
    | standing => rfl
    | service => exact absurd hk (hservice rec hget)

theorem Lasts.trans {rec' rec'' : AgentRecord} (h : Lasts rec rec') (h' : Lasts rec' rec'') : Lasts rec rec'' :=
  ⟨h'.kind.trans h.kind, h'.active, fun hk => (h'.service (h.kind.trans hk)).trans (h.service hk)⟩

theorem durable_step {s s' : OpRun} {ev : OpEvent} (hw : ∀ id, WellKept id (s.state.agents.get id)) (hs : Durable w s)
    (hmeet : CallsMeet RegistersAsUnit handle Operation.prog s ev) (hstep : opStep s ev = some s') : Durable w s' := by
  intro id rec hget hkind
  rcases opStep_cases hstep with ⟨hlog, hsame⟩ | ⟨o, cs, r, rfl, hlog, hr⟩
  · rw [hlog, hsame.agents, hsame.mailboxes]
    exact hs id rec hget hkind
  rw [hlog]
  have hmeet : RegistersAsUnit s.state o (trace handle o.prog cs s.state) := hmeet
  rcases hs id rec hget hkind with ⟨hstanding, e, he, hcloses⟩ | ⟨rec', hget', hlasts, hholds⟩
  · exact .inl ⟨hstanding, e, List.mem_append_left _ he, hcloses⟩
  have hkind' : rec'.kind ≠ .session := by rw [hlasts.kind]; exact hkind
  rcases moves_lasts (hw id) hmeet (moves_run hr id) hget' hkind'
    with ⟨hstanding, hcloses⟩ | ⟨rec'', hget'', hlasts', hholds'⟩
  · refine .inl ⟨hlasts.kind.symm.trans hstanding, _, List.mem_append_right _ (List.mem_singleton_self _), hcloses⟩
  · exact .inr ⟨rec'', hget'', hlasts.trans hlasts', hholds.trans hholds'⟩

end

/-- In every run in which nobody registers as a stored standing owner or service, durable
records stay what they are, whatever the rest of the run does. -/
theorem durable_addresses (live : List (StorableMux × String)) (dirs : List String)
    (es es' : List OpEvent) (s t : OpRun)
    (hs : exec opStep (newOps live dirs) es = some s)
    (hmeet : AllSteps opStep (CallsMeet RegistersAsUnit handle Operation.prog) ⟨s.state, []⟩ es')
    (ht : exec opStep ⟨s.state, []⟩ es' = some t) : Durable s.state t := by
  have hkept : ∀ id, WellKept id (s.state.agents.get id) :=
    record_run (fun _ _ _ _ _ _ => change_kept) (fun id rec hrec => by cases hrec) hs
  refine (exec_inv_of (s := (⟨s.state, []⟩ : OpRun))
    (I := fun u : OpRun => (∀ id, WellKept id (u.state.agents.get id)) ∧ Durable s.state u)
    ?_ ⟨hkept, ?_⟩ hmeet ht).2
  · exact fun u ev u' ⟨hw, hdurable⟩ hcall hstep =>
      ⟨record_step (fun _ _ _ _ _ _ => change_kept) hw hstep, durable_step hw hdurable hcall hstep⟩
  · intro id rec hget hkind
    exact .inr ⟨rec, hget, ⟨rfl, (hkept id rec hget hkind).1, fun _ => rfl⟩, .refl⟩

def outsideAs (id : String) : Ctx := { env := { CYBERLEGION_AGENT_ID := id, CLAUDECODE := "1" } }

def registerHandle (handle : String) : OpEvent :=
  .call (.registerStanding (outsideAs "") { handle }) [{}, {}, {}, {}, {}, {}]

def registerAs (id : String) : OpEvent := .call (.verb ⟨outsideAs id, .register {}⟩) [{}, {}, {}, {}, {}]

theorem durable_owner : ∃ s t, exec opStep (newOps [] []) [registerHandle "ada"] = some s ∧
    exec opStep ⟨s.state, []⟩ [registerAs "u1"] = some t ∧ Durable s.state t := by
  have hstate : ((exec opStep (newOps [] []) [registerHandle "ada"]).bind fun s =>
      exec opStep ⟨s.state, []⟩ [registerAs "u1"]).isSome := by
    decide +kernel
  obtain ⟨t, ht⟩ := Option.isSome_iff_exists.mp hstate
  obtain ⟨s, hs, ht⟩ := Option.bind_eq_some_iff.mp ht
  refine ⟨s, t, hs, ht, durable_addresses [] [] _ _ s t hs ?_ ht⟩
  have hself : ((exec opStep (newOps [] []) [registerHandle "ada"]).map
      fun s => s.state.self (outsideAs "u1")) = some none := by
    decide +kernel
  rw [hs] at hself
  have hself : s.state.self (outsideAs "u1") = none := Option.some.inj hself
  have hnobody : ∀ rec, s.state.self (outsideAs "u1") = some rec → rec.kind = .session := by
    intro rec hrec
    cases hself.symm.trans hrec
  exact ⟨hnobody, fun _ _ => trivial⟩

/-- Outside any pane, a session whose environment names an owner registers over it. -/
theorem owner_overwritten : ∃ s t, exec opStep (newOps [] []) [registerHandle "ada"] = some s ∧
    exec opStep ⟨s.state, []⟩ [registerAs "standing-ada"] = some t ∧ ¬Durable s.state t := by
  have hstate : ((exec opStep (newOps [] []) [registerHandle "ada"]).bind fun s =>
      (exec opStep ⟨s.state, []⟩ [registerAs "standing-ada"]).map fun t =>
        ((s.state.agents.get "standing-ada").map (·.kind), (t.state.agents.get "standing-ada").map (·.kind),
          t.log.map (·.call))) =
          some (some .standing, some .session, [.verb ⟨outsideAs "standing-ada", .register {}⟩]) := by
    rfl
  obtain ⟨s, hs, ht⟩ := Option.bind_eq_some_iff.mp hstate
  obtain ⟨t, ht, hkinds⟩ := Option.map_eq_some_iff.mp ht
  obtain ⟨hbefore, hafter, hlog⟩ := Prod.mk.inj hkinds |>.imp_right Prod.mk.inj
  refine ⟨s, t, hs, ht, fun hdurable => ?_⟩
  obtain ⟨rec, hget, hkind⟩ := Option.map_eq_some_iff.mp hbefore
  rcases hdurable _ rec hget (by rw [hkind]; decide) with ⟨-, e, he, ctx, input, hcall, -⟩ | ⟨rec', hget', hlasts, -⟩
  · have hmem := List.mem_map_of_mem (f := (·.call)) he
    rw [hlog, List.mem_singleton, hcall] at hmem
    cases hmem
  · rw [hget', Option.map_some, Option.some.injEq, hlasts.kind, hkind] at hafter
    cases hafter

end Cyberlegion
