import Cyberlegion.Durable

/-!
# Distinct owners

A standing owner is filed under a slug of its handle. Where the slugs of two handles
differ and neither handle is the other's id, the two owners share nothing: record, home,
presence or mail.
-/

namespace Cyberlegion

open Effects Runs

/-- The operation leaves the owner's id to the owner: nobody registers as it, closes it, or
registers another handle with its slug. -/
def LeavesOwner (h : String) (w : World) (o : Operation) (_ : List (Call × Choice)) : Prop :=
  match o with
  | .verb ⟨ctx, .register _⟩ => w.selfId ctx ≠ some (standingId h)
  | .verb ⟨_, .close input⟩ => input.id ≠ standingId h
  | .registerStanding _ input => standingId input.handle = standingId h → input.handle = h
  | _ => True

def OpEntry.registers (e : OpEntry) (h : String) (rec : AgentRecord) : Prop :=
  ∃ ctx input, e.call = .registerStanding ctx input ∧ input.handle = h ∧ e.result = .ok (some rec)

/-- The owner's home after the entry: the one a registration of its handle gives, if it does. -/
def OpEntry.home (e : OpEntry) (h : String) (home : Option StandingHome) : Option StandingHome :=
  match e.call, e.result with
  | .registerStanding _ input, .ok _ => if input.handle = h then input.home.getD home else home
  | _, _ => home

/-- The owner's presence after the entry: the one a claim or a clear of its handle answers, if it does. -/
def OpEntry.presence (e : OpEntry) (h : String) (presence : Option String) : Option String :=
  match e.call, e.result with
  | .claim _ handle, .ok (some rec) => if handle = h then rec.presence else presence
  | .clear handle, .ok (some rec) => if handle = h then rec.presence else presence
  | _, _ => presence

def homeAfter (h : String) (home : Option StandingHome) (log : List OpEntry) : Option StandingHome :=
  log.foldl (fun home e => e.home h home) home

def presenceAfter (h : String) (presence : Option String) (log : List OpEntry) : Option String :=
  log.foldl (fun presence e => e.presence h presence) presence

def IsOwner (h : String) (home : Option StandingHome) (presence : Option String) (stored : Option AgentRecord) : Prop :=
  ∃ rec, stored = some rec ∧ rec.id = standingId h ∧ rec.handle = h ∧ rec.kind = .standing ∧ rec.home = home ∧
    rec.presence = presence

/-- The entry loses no mail of the owner, and brings it none that is sent to `other`. -/
def OpEntry.sparesMail (e : OpEntry) (h other : String) : Prop :=
  Holds (e.before.mailboxes.lookup (standingId h)) (e.after.mailboxes.lookup (standingId h)) ∧
    ∀ input, e.call = .send input → input.to = other →
      e.after.mailboxes.lookup (standingId h) = e.before.mailboxes.lookup (standingId h)

/-- From every registration of the owner on, its record stays its own, and so does its mail. -/
def OwnerKept (h other : String) (s : OpRun) : Prop :=
  ∀ log e log' rec, s.log = log ++ e :: log' → e.registers h rec →
    IsOwner h (homeAfter h rec.home log') (presenceAfter h rec.presence log') (s.state.agents.get (standingId h)) ∧
      ∀ e' ∈ log', e'.sparesMail h other

def DistinctOwners (h₁ h₂ : String) (s : OpRun) : Prop :=
  standingId h₁ ≠ standingId h₂ ∧ OwnerKept h₁ h₂ s ∧ OwnerKept h₂ h₁ s

/-- A standing record is filed under the slug of its handle. -/
def Slugged (id : String) (stored : Option AgentRecord) : Prop :=
  ∀ rec, stored = some rec → rec.kind = .standing → id = standingId rec.handle

section
variable {A : Call → Choice → Prop} {w w' : World} {o : Operation} {id h other : String} {old new : Option AgentRecord}
variable {home : Option StandingHome} {presence : Option String} {tr : List (Call × Choice)}

theorem change_slugged (hchange : Change A w o id old new) (hold : Slugged id old) : Slugged id new := by
  intro rec' hrec' hkind
  cases hchange with
  | seen rec t => cases hrec'; exact hold rec rfl hkind
  | converses ctx session rec c ho => cases hrec'; exact hold rec rfl hkind
  | exits rec hprunable => cases hrec'; exact hold rec rfl hkind
  | adopts rec hsession => cases hrec'; rw [hsession] at hkind; cases hkind
  | enlists ctx input rec pane ho hrec => cases hrec'; rw [hrec.kind] at hkind; cases hkind
  | registers ctx input old rec ho hwho hrec => cases hrec'; rw [hrec.kind] at hkind; cases hkind
  | halts rec hruntime => cases hrec'; exact hold rec rfl hkind
  | binds rec pane t hruntime => cases hrec'; exact hold rec rfl hkind
  | reaps ctx input rec ho hid hservice => cases hrec'
  | refreshes ctx input old rec ho hid hrec => cases hrec'; rw [hrec.handle]; exact hid
  | presents rec presence ho hstanding => cases hrec'; exact hold rec rfl hkind
  | serves c rec ho hrec => cases hrec'; rw [hrec.kind] at hkind; cases hkind

/-! ## One operation -/

theorem change_owner (hget : w.agents.get (standingId h) ≠ none) (hmeet : LeavesOwner h w o tr)
    (hregister : ∀ ctx input, o ≠ .registerStanding ctx input) (hclaim : ∀ ctx handle, o ≠ .claim ctx handle)
    (hclear : ∀ handle, o ≠ .clear handle) (hchange : Change A w o (standingId h) old new)
    (hold : IsOwner h home presence old) : IsOwner h home presence new := by
  obtain ⟨rec, rfl, hid, hhandle, hkind, hhome, hpresence⟩ := hold
  cases hchange with
  | seen rec t => exact ⟨_, rfl, hid, hhandle, hkind, hhome, hpresence⟩
  | converses ctx session rec c ho => exact ⟨_, rfl, hid, hhandle, hkind, hhome, hpresence⟩
  | exits rec hprunable => rw [kind_of_prunable hprunable] at hkind; cases hkind
  | registers ctx input old rec' ho hwho hrec =>
    subst ho
    unfold Registers at hwho
    cases hself : w.selfId ctx with
    | none => rw [hself] at hwho; exact absurd hwho.1 hget
    | some self => rw [hself] at hwho; exact absurd (hself.trans (congrArg some hwho.symm)) hmeet
  | halts rec hruntime => rw [kind_of_runtime hruntime] at hkind; cases hkind
  | binds rec pane t hruntime => rw [kind_of_runtime hruntime] at hkind; cases hkind
  | reaps ctx input rec ho hclosed hservice =>
    subst ho
    exact absurd hclosed hmeet
  | refreshes ctx input old rec' ho hslug hrec => exact absurd ho (hregister ctx input)
  | presents rec presence ho hstanding =>
    rcases ho with ⟨ctx, handle, ho⟩ | ⟨handle, ho⟩
    · exact absurd ho (hclaim ctx handle)
    · exact absurd ho (hclear handle)

theorem registers_owner {ctx : Ctx} {input : RegisterStandingInput} {r : Except HubError AgentRecord}
    (hmeet : LeavesOwner h w (.registerStanding ctx input) tr) (hwrites : StandingWrites w input r w')
    (hold : IsOwner h home presence (w.agents.get (standingId h))) :
    IsOwner h (OpEntry.home ⟨.registerStanding ctx input, tr, r.map some, w, w'⟩ h home) presence
      (w'.agents.get (standingId h)) := by
  obtain ⟨rec, hget, hid, hhandle, hkind, hhome, hpresence⟩ := hold
  rcases hwrites with ⟨hsame, e, rfl⟩ | ⟨new, rfl, hnew, hwrote⟩
  · rw [hsame.agents]
    exact ⟨rec, hget, hid, hhandle, hkind, hhome, hpresence⟩
  rw [hwrote.agents, hnew.id]
  by_cases hslug : standingId input.handle = standingId h
  · have hsame : input.handle = h := hmeet hslug
    rw [hslug, hget] at hnew
    rw [if_pos hslug.symm]
    refine ⟨new, rfl, hnew.id.trans hslug, hnew.handle.trans hsame, hnew.kind, ?_, hnew.presence.trans hpresence⟩
    rw [hnew.home, Option.bind_some, hhome]
    exact (if_pos hsame).symm
  · have hother : input.handle ≠ h := fun heq => hslug (congrArg standingId heq)
    rw [if_neg (Ne.symm hslug)]
    exact ⟨rec, hget, hid, hhandle, hkind, hhome.trans (if_neg hother).symm, hpresence⟩

theorem presents_owner {handle : String} {r : Except HubError AgentRecord} (hslugs : ∀ id, Slugged id (w.agents.get id))
    (hwrites : PresenceWrites w handle r w') (hold : IsOwner h home presence (w.agents.get (standingId h))) :
    IsOwner h home (match r with | .ok rec => if handle = h then rec.presence else presence | .error _ => presence)
      (w'.agents.get (standingId h)) := by
  obtain ⟨rec, hget, hid, hhandle, hkind, hhome, hpresence⟩ := hold
  rcases hwrites with ⟨hsame, e, rfl⟩ | ⟨found, presence', howner, rfl, hwrote⟩
  · rw [hsame.agents]
    exact ⟨rec, hget, hid, hhandle, hkind, hhome, hpresence⟩
  obtain ⟨hstored, hfound, hstanding⟩ := owner_spec howner
  by_cases hsame : handle = h
  · -- the handle's only standing record is the one under its slug
    have hslug : found.id = standingId h := by rw [hslugs _ found hstored hstanding, hfound, hsame]
    rw [hslug, hget] at hstored
    cases hstored
    simp only [if_pos hsame]
    rcases hwrote with ⟨hsame', hkept⟩ | hwrote
    · rw [hsame'.agents]
      exact ⟨rec, hget, hid, hhandle, hkind, hhome, hkept⟩
    · rw [hwrote.agents, if_pos hslug.symm]
      exact ⟨_, rfl, hid, hhandle, hkind, hhome, rfl⟩
  · have hother : standingId h ≠ found.id := by
      intro heq
      rw [← heq, hget] at hstored
      cases hstored
      exact hsame (hfound.symm.trans hhandle)
    simp only [if_neg hsame]
    rcases hwrote with ⟨hsame', -⟩ | hwrote
    · rw [hsame'.agents]
      exact ⟨rec, hget, hid, hhandle, hkind, hhome, hpresence⟩
    · rw [hwrote.agents, if_neg hother]
      exact ⟨rec, hget, hid, hhandle, hkind, hhome, hpresence⟩

theorem run_answered {p : HubM AgentRecord} {cs : List Choice} {r : Except HubError (Option AgentRecord)}
    {Q : Except HubError AgentRecord → World → Prop} (hp : Ends (fun _ _ => True) p Q w)
    (hr : run handle (do return some (← p)) cs w = some (r, w')) : ∃ answer, r = answer.map some ∧ Q answer w' := by
  have hends : Ends (fun _ _ => True) (do return some (← p)) (fun r w' => ∃ answer, r = answer.map some ∧
      Q answer w') w :=
    ends_bind hp (fun rec w' hq => ⟨.ok rec, rfl, hq⟩) fun e w' hq => ⟨.error e, rfl, hq⟩
  exact wp_run hends (fun _ _ => trivial) hr

theorem run_owner {cs : List Choice} {r : Except HubError (Option AgentRecord)}
    (hslugs : ∀ id, Slugged id (w.agents.get id))
    (hmeet : LeavesOwner h w o (trace handle o.prog cs w)) (hr : run handle o.prog cs w = some (r, w'))
    (hold : IsOwner h home presence (w.agents.get (standingId h))) :
    IsOwner h (OpEntry.home ⟨o, trace handle o.prog cs w, r, w, w'⟩ h home)
      (OpEntry.presence ⟨o, trace handle o.prog cs w, r, w, w'⟩ h presence) (w'.agents.get (standingId h)) := by
  have hother : (∀ ctx input, o ≠ .registerStanding ctx input) → (∀ ctx handle, o ≠ .claim ctx handle) →
      (∀ handle, o ≠ .clear handle) → IsOwner h home presence (w'.agents.get (standingId h)) := by
    intro hregister hclaim hclear
    have hget : w.agents.get (standingId h) ≠ none := by
      obtain ⟨rec, hget, -⟩ := hold
      rw [hget]; exact Option.some_ne_none rec
    refine star_inv (moves_run hr _).agents (fun old new hchange hold => ?_) hold
    exact change_owner hget hmeet hregister hclaim hclear hchange hold
  cases o with
  | registerStanding ctx input =>
    obtain ⟨answer, rfl, hwrites⟩ := run_answered registerStanding_writes hr
    exact registers_owner hmeet hwrites hold
  | claim ctx handle =>
    obtain ⟨answer, rfl, hwrites⟩ := run_answered claim_writes hr
    have howner := presents_owner hslugs hwrites hold
    cases answer <;> exact howner
  | clear handle =>
    obtain ⟨answer, rfl, hwrites⟩ := run_answered clear_writes hr
    have howner := presents_owner hslugs hwrites hold
    cases answer <;> exact howner
  | verb c => exact hother (fun _ _ h => by cases h) (fun _ _ h => by cases h) fun _ h => by cases h
  | send input => exact hother (fun _ _ h => by cases h) (fun _ _ h => by cases h) fun _ h => by cases h
  | service c => exact hother (fun _ _ h => by cases h) (fun _ _ h => by cases h) fun _ h => by cases h

theorem recipient_owner (hold : IsOwner h home presence (w.agents.get (standingId h))) (hne : other ≠ h)
    (hid : other ≠ standingId h) : w.recipient other ≠ some (standingId h) := by
  obtain ⟨rec, hget, -, hhandle, -⟩ := hold
  intro hto
  unfold World.recipient at hto
  split at hto
  · exact hid (Option.some.inj hto)
  unfold recipientAmong at hto
  cases hpick : pickLive other (matchHandle (Registry.list w.agents) other).live with
  | throw e => simp only [hpick] at hto; cases hto
  | call op k => simp only [hpick] at hto; cases hto
  | ret picked =>
    simp only [hpick] at hto
    cases picked with
    | none => cases hto
    | some found =>
      obtain ⟨hlisted, hfound⟩ := List.mem_filter.mp (mem_of_pickLive hpick)
      obtain ⟨hfound, -⟩ := of_decide_eq_true hfound
      have hstored := Registry.mem_list.mp hlisted
      rw [Option.some.inj hto, hget] at hstored
      cases hstored
      exact hne (hfound.symm.trans hhandle)

theorem run_sparesMail {cs : List Choice} {r : Except HubError (Option AgentRecord)}
    (hmeet : LeavesOwner h w o (trace handle o.prog cs w)) (hr : run handle o.prog cs w = some (r, w'))
    (hold : IsOwner h home presence (w.agents.get (standingId h))) (hne : other ≠ h) (hid : other ≠ standingId h) :
    OpEntry.sparesMail ⟨o, trace handle o.prog cs w, r, w, w'⟩ h other := by
  have hmail := (moves_run hr (standingId h)).mailbox
  unfold OpEntry.sparesMail
  simp only
  generalize w'.mailboxes.lookup (standingId h) = box at hmail ⊢
  cases hmail with
  | kept => exact ⟨.refl, fun _ _ _ => rfl⟩
  | sent input msg ho hto =>
    refine ⟨fun b hb => ⟨_, rfl, ?_⟩, fun input' ho' hother => ?_⟩
    · rw [hb]
      exact ⟨List.suffix_cons _ _, rfl⟩
    · cases ho.symm.trans ho'
      rw [hother] at hto
      exact absurd hto (recipient_owner hold hne hid)
  | reaped ctx input box ho hclosed hservice =>
    subst ho
    exact absurd hclosed hmeet

theorem run_registers {cs : List Choice} {r : Except HubError (Option AgentRecord)} {rec : AgentRecord}
    (hr : run handle o.prog cs w = some (r, w'))
    (hregisters : OpEntry.registers ⟨o, trace handle o.prog cs w, r, w, w'⟩ h rec) :
    IsOwner h rec.home rec.presence (w'.agents.get (standingId h)) := by
  obtain ⟨ctx, input, ho, hhandle, hresult⟩ := hregisters
  have ho : o = .registerStanding ctx input := ho
  subst ho
  obtain ⟨answer, hanswer, hwrites⟩ := run_answered registerStanding_writes hr
  have hresult : answer.map some = .ok (some rec) := hanswer.symm.trans hresult
  rcases hwrites with ⟨-, e, rfl⟩ | ⟨new, rfl, hnew, hwrote⟩
  · cases hresult
  · cases hresult
    have hid : rec.id = standingId h := hnew.id.trans (congrArg standingId hhandle)
    rw [hwrote.agents, if_pos hid.symm]
    exact ⟨rec, rfl, hid, hnew.handle.trans hhandle, hnew.kind, rfl, rfl⟩

end

/-! ## Every run -/

theorem snoc_split {α : Type} {l a b : List α} {x y : α} (h : l ++ [x] = a ++ y :: b) :
    (b = [] ∧ l = a ∧ x = y) ∨ ∃ b', b = b' ++ [x] ∧ l = a ++ y :: b' := by
  rcases List.eq_nil_or_concat' b with rfl | ⟨b', z, rfl⟩
  · have h := List.append_inj' h rfl
    exact .inl ⟨rfl, h.1, (List.cons.inj h.2).1⟩
  · have h : l ++ [x] = (a ++ y :: b') ++ [z] := by rw [h, List.append_assoc]; rfl
    have h := List.append_inj' h rfl
    rw [(List.cons.inj h.2).1]
    exact .inr ⟨b', rfl, h.1⟩

section
variable {s s' : OpRun} {ev : OpEvent} {h other : String}

theorem owner_step (hslugs : ∀ id, Slugged id (s.state.agents.get id)) (hs : OwnerKept h other s)
    (hmeet : CallsMeet (LeavesOwner h) handle Operation.prog s ev) (hne : other ≠ h) (hid : other ≠ standingId h)
    (hstep : opStep s ev = some s') : OwnerKept h other s' := by
  intro log e log' rec hlog hregisters
  rcases opStep_cases hstep with ⟨hsame, hstate⟩ | ⟨o, cs, r, rfl, hlog', hr⟩
  · rw [hstate.agents]
    exact hs log e log' rec (hsame.symm.trans hlog) hregisters
  rw [hlog'] at hlog
  rcases snoc_split hlog with ⟨rfl, -, rfl⟩ | ⟨log'', rfl, hbefore⟩
  · exact ⟨run_registers hr hregisters, fun e' he' => by cases he'⟩
  obtain ⟨howner, hmail⟩ := hs log e log'' rec hbefore hregisters
  refine ⟨?_, fun e' he' => ?_⟩
  · rw [homeAfter, presenceAfter, List.foldl_append, List.foldl_append]
    exact run_owner hslugs hmeet hr howner
  · rcases List.mem_append.mp he' with he' | he'
    · exact hmail e' he'
    · rw [List.mem_singleton.mp he']
      exact run_sparesMail hmeet hr howner hne hid

end

/-- Two handles with different slugs, neither of them the other's id, are two owners in
every run that leaves their ids to them. -/
theorem owners_distinct (live : List (StorableMux × String)) (dirs : List String) (es : List OpEvent) (s : OpRun)
    (h₁ h₂ : String) (hslug : sanitizePane h₁ ≠ sanitizePane h₂) (h₁₂ : h₁ ≠ standingId h₂)
    (h₂₁ : h₂ ≠ standingId h₁)
    (hmeet : AllSteps opStep
      (CallsMeet (fun w o tr => LeavesOwner h₁ w o tr ∧ LeavesOwner h₂ w o tr) handle Operation.prog)
      (newOps live dirs) es)
    (hs : exec opStep (newOps live dirs) es = some s) : DistinctOwners h₁ h₂ s := by
  have hne : h₁ ≠ h₂ := fun heq => hslug (congrArg sanitizePane heq)
  refine ⟨fun heq => hslug ?_, ?_⟩
  · have heq := congrArg String.toList heq
    simp only [standingId, String.toList_append, List.append_cancel_left_eq] at heq
    exact String.toList_inj.mp heq
  refine (exec_inv_of (s := newOps live dirs)
    (I := fun u : OpRun => (∀ id, Slugged id (u.state.agents.get id)) ∧ OwnerKept h₁ h₂ u ∧ OwnerKept h₂ h₁ u)
    ?_ ⟨?_, ?_, ?_⟩ hmeet hs).2
  · rintro u ev u' ⟨hslugs, hkept₁, hkept₂⟩ hcall hstep
    refine ⟨record_step (fun _ _ _ _ _ _ => change_slugged) hslugs hstep, ?_, ?_⟩
    · refine owner_step hslugs hkept₁ ?_ hne.symm h₂₁ hstep
      cases ev with
      | call o cs => exact hcall.1
      | other x => trivial
    · refine owner_step hslugs hkept₂ ?_ hne h₁₂ hstep
      cases ev with
      | call o cs => exact hcall.2
      | other x => trivial
  · intro id rec hrec
    cases hrec
  · intro log e log' rec hlog
    simp [newOps] at hlog
  · intro log e log' rec hlog
    simp [newOps] at hlog

theorem owners_ada_bob : ∃ s, exec opStep (newOps [] []) [registerHandle "ada", registerHandle "bob"] = some s ∧
    DistinctOwners "ada" "bob" s := by
  have hstate : (exec opStep (newOps [] []) [registerHandle "ada", registerHandle "bob"]).isSome := by
    decide +kernel
  obtain ⟨s, hs⟩ := Option.isSome_iff_exists.mp hstate
  refine ⟨s, hs, owners_distinct [] [] _ s "ada" "bob" (by decide) (by decide) (by decide) ?_ hs⟩
  have hids : standingId "ada" ≠ standingId "bob" := by decide
  exact ⟨⟨fun _ => rfl, fun heq => absurd heq hids⟩, fun _ _ => ⟨⟨fun heq => absurd heq.symm hids, fun _ => rfl⟩,
    fun _ _ => trivial⟩⟩

/-- Two handles with one slug: the second registration renames the first owner. -/
theorem owners_clobbered : ∃ s, exec opStep (newOps [] []) [registerHandle "a b", registerHandle "a_b"] = some s ∧
    (s.state.agents.get (standingId "a b")).map (·.handle) = some "a_b" ∧ ¬DistinctOwners "a b" "a_b" s := by
  have hstate : ((exec opStep (newOps [] []) [registerHandle "a b", registerHandle "a_b"]).map fun s =>
      (s.state.agents.get (standingId "a b")).map (·.handle)) = some (some "a_b") := by
    decide +kernel
  obtain ⟨s, hs, hhandle⟩ := Option.map_eq_some_iff.mp hstate
  refine ⟨s, hs, hhandle, fun hdistinct => hdistinct.1 (by decide)⟩

end Cyberlegion
