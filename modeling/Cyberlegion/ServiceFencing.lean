import Cyberlegion.ServiceSpec
import Cyberlegion.Lib.Fencing
import Cyberlegion.Lib.Log

/-!
# Service fencing

Clients call the service verbs in any order; each call runs alone, under the lock of
its service. Between two calls the rest of the hub may change at will: the clock, the
units, their sessions. A lease is a grant of the general machine, and every call
leaves it alone or makes one of the machine's moves.
-/

namespace Cyberlegion

open Effects Runs Fencing

/-! ## Runs of the service verbs -/

abbrev Entry := Effects.Entry ServiceCall Call Choice (Except HubError ServiceAnswer) World

abbrev ServiceRun := Effects.Logged ServiceCall Call Choice (Except HubError ServiceAnswer) World

abbrev ServiceEvent := LogEvent ServiceCall Choice World

/-- Other commands write no lease, and `decommission` refuses a service endpoint. -/
def others (next w : World) : Option World :=
  if w.leases.values.all fun l => (next.agents.get (serviceEndpointId l.project l.service)).isSome then
    some { next with leases := w.leases }
  else none

def serviceStep : ServiceRun → ServiceEvent → Option ServiceRun := logStep handle ServiceCall.prog others

def untouched (w : World) : ServiceRun := ⟨{ w with leases := .empty }, []⟩

section
variable {A : Call → Choice → Prop} {c : ServiceCall} {w w' : World} {r : Except HubError ServiceAnswer}
variable {k : String × String} {l next lease : ServiceLease} {s : ServiceRun} {es : List ServiceEvent} {e e' : Entry}

/-! ## The log of a run -/

theorem outcome_of_run {cs : List Choice} (h : run handle c.prog cs w = some (r, w')) :
    Outcome (fun op a => (op, a) ∈ trace handle c.prog cs w) c w w' r :=
  wp_run (call_spec c) (fun _ hx => hx) h

theorem others_cases {x : World} (h : others x w = some w') :
    (∀ l ∈ w.leases.values, x.agents.get (serviceEndpointId l.project l.service) ≠ none) ∧
      w' = { x with leases := w.leases } := by
  unfold others at h
  split at h
  · next hends =>
    cases h
    exact ⟨fun l hl => Option.isSome_iff_ne_none.mp (List.all_eq_true.mp hends l hl), rfl⟩
  · cases h

theorem outcomes (h : exec serviceStep (untouched w) es = some s) :
    ∀ e ∈ s.log, Outcome e.answered e.call e.before e.after e.result := by
  refine (log_run (I := fun _ => True) (D := fun _ _ _ => True) ?_ (fun _ _ _ _ _ => trivial) trivial ?_
    allSteps_true h).2
  · exact fun k cs u r u' _ _ hr => ⟨trivial, outcome_of_run hr⟩
  · intro e he; cases he

theorem linked (h : exec serviceStep (untouched w) es = some s) :
    Linked (·.before.leases) (·.after.leases) (Filed.empty : Leases) s.log s.state.leases := by
  have hstart : Linked (·.before.leases) (·.after.leases) (Filed.empty : Leases) (untouched w).log
      (untouched w).state.leases := rfl
  refine linked_run (f := World.leases) (fun x u u' hu => ?_) hstart h
  rw [(others_cases hu).2]

/-! ## Leases as grants -/

def ServiceLease.grant (l : ServiceLease) : Grant (Option Reservation) (Option String) where
  generation := l.generation
  authority := match l.state with
    | .vacant => .vacant
    | .reserved => .reserved l.reservation
    | .active => .active l.holder

/-- No lease yet is a vacant grant of generation 0. -/
def Leases.grant (leases : Leases) (k : String × String) : Grant (Option Reservation) (Option String) :=
  ((leases.get k).map ServiceLease.grant).getD ⟨0, .vacant⟩

def Leases.generation (leases : Leases) (k : String × String) : Nat := (leases.grant k).generation

theorem grant_of_get {leases : Leases} (h : leases.get k = some l) : leases.grant k = l.grant := by
  rw [Leases.grant, h]; rfl

theorem ServiceLease.grant_vacant (h : l.state = .vacant) : l.grant = ⟨l.generation, .vacant⟩ := by
  rw [grant, h]

theorem ServiceLease.grant_reserved (h : l.state = .reserved) :
    l.grant = ⟨l.generation, .reserved l.reservation⟩ := by
  rw [grant, h]

theorem ServiceLease.grant_active (h : l.state = .active) : l.grant = ⟨l.generation, .active l.holder⟩ := by
  rw [grant, h]

theorem CurrentLease.grant (h : CurrentLease w l) : w.leases.grant l.key = l.grant := by
  rcases h with h | ⟨h, hstate, hgen⟩
  · exact grant_of_get h
  · rw [Leases.grant, h, ServiceLease.grant_vacant hstate, hgen]; rfl

theorem Puts.get_key (h : Puts w w' next) : w'.leases.get next.key = some next := by
  obtain ⟨hv, h⟩ := h.lease
  rw [h, Filed.get_put_self]

theorem Puts.get_other (h : Puts w w' next) (hk : k ≠ next.key) : w'.leases.get k = w.leases.get k := by
  obtain ⟨hv, h⟩ := h.lease
  rw [h, Filed.get_put_ne _ _ _ hk]

theorem Puts.grant_other (h : Puts w w' next) (hk : k ≠ next.key) : w'.leases.grant k = w.leases.grant k := by
  rw [Leases.grant, Leases.grant, h.get_other hk]

theorem ReleaseInput.held {i : ReleaseInput} (h : i.matches l) : l.grant.authority ≠ .vacant := by
  rcases (of_decide_eq_true h).2 with ⟨hstate, -, -⟩ | ⟨hstate, -, -⟩
  · rw [ServiceLease.grant_reserved hstate]; nofun
  · rw [ServiceLease.grant_active hstate]; nofun

/-- A call leaves the grant of a service alone, or makes a move of it. -/
theorem Outcome.moves (h : Outcome A c w w' r) (k : String × String) :
    w'.leases.grant k = w.leases.grant k ∨ Move (w.leases.grant k) (w'.leases.grant k) := by
  have hput : ∀ {l next : ServiceLease}, Puts w w' next → next.key = l.key → CurrentLease w l →
      Move l.grant next.grant →
      w'.leases.grant k = w.leases.grant k ∨ Move (w.leases.grant k) (w'.leases.grant k) := by
    intro l next hw hkey hl hmove
    by_cases hk : k = next.key
    · subst hk
      right
      rw [grant_of_get hw.get_key, hkey, hl.grant]
      exact hmove
    · exact .inl (hw.grant_other hk)
  cases h with
  | threw _ hw => exact .inl (congrArg (Leases.grant · k) hw.leases)
  | resolved _ _ _ _ _ hw => exact .inl (congrArg (Leases.grant · k) hw.leases)
  | starting _ _ _ _ _ hw => exact .inl (congrArg (Leases.grant · k) hw.leases)
  | verified _ _ _ hw => exact .inl (congrArg (Leases.grant · k) hw.leases)
  | reserved i l next v r hop hw hkey hl hguard hgen hstate hholder hres =>
    refine hput hw hkey hl ?_
    rw [ServiceLease.grant_reserved hstate, hgen]
    exact .reserve l.generation _ _
  | bound i l next v hop hw hkey hl hguard hgen hstate hholder hv =>
    refine hput hw hkey (.inl hl) ?_
    rw [ServiceLease.grant_reserved hguard.1, ServiceLease.grant_active hstate, hgen]
    exact .bind _ _ _
  | released i l next v hop hw hkey hl hguard hgen hstate hv =>
    refine hput hw hkey (.inl hl) ?_
    rw [ServiceLease.grant_vacant hstate, hgen]
    exact .release l.generation _ (ReleaseInput.held hguard)
  | handedOff i l next v hop hw hkey hl hguard hgen hstate hholder hv =>
    refine hput hw hkey (.inl hl) ?_
    rw [ServiceLease.grant_active hguard.1, ServiceLease.grant_active hstate, hgen]
    exact .handoff _ _ _

theorem Outcome.le (h : Outcome A c w w' r) (k : String × String) : w.leases.grant k ≤ w'.leases.grant k := by
  rcases h.moves k with heq | hmove
  · exact le_of_eq heq.symm
  · exact hmove.le

/-! ## What the entries of a log say -/

def Entry.issued (e : Entry) : Option ServiceLease :=
  match e.result with
  | .ok (.acquired (.reserved lease _ _)) => some lease
  | _ => none

def Entry.handsOff (e : Entry) (k : String × String) : Prop :=
  ∃ input view, e.call.op = .handoff input ∧ e.result = .ok (.viewed view) ∧ view.lease.key = k

/-- The call reserved the service or handed it off. -/
def Entry.raises (e : Entry) (k : String × String) : Prop :=
  (∃ l, e.issued = some l ∧ l.key = k) ∨ e.handsOff k

def Entry.verified (e : Entry) (k : String × String) (unit : String) (generation : Nat) : Prop :=
  ∃ view, e.call.op = .verify ⟨unit, generation⟩ ∧ e.result = .ok (.viewed view) ∧ view.lease.key = k

def Entry.bound (e : Entry) (k : String × String) (generation : Nat) : Prop :=
  ∃ input view, e.call.op = .bind input ∧ e.result = .ok (.viewed view) ∧ view.lease.key = k ∧
    input.generation = generation

section
variable (h : Outcome e.answered e.call e.before e.after e.result)
include h

theorem Entry.issued_spec (he : e.issued = some l) : e.after.leases.get l.key = some l ∧
    l.state = .reserved ∧ l.generation = e.before.leases.generation l.key + 1 := by
  obtain ⟨call, trace, result, before, after⟩ := e
  cases h with
  | reserved i l₀ next v r hop hw hkey hl hguard hgen hstate hholder hres =>
    cases he
    refine ⟨hw.get_key, hstate, ?_⟩
    rw [hgen, Leases.generation, hkey, hl.grant]; rfl
  | _ => cases he

theorem Entry.handsOff_spec (he : e.handsOff k) :
    e.after.leases.generation k = e.before.leases.generation k + 1 := by
  obtain ⟨input, view, hop', hres, rfl⟩ := he
  rw [hres] at h
  cases h with
  | handedOff i l next v hop hw hkey hl hguard hgen hstate hholder hv =>
    rw [hv, Leases.generation, grant_of_get hw.get_key, Leases.generation, hkey, grant_of_get hl]
    exact hgen
  | bound _ _ _ _ hop | released _ _ _ _ hop | verified _ _ hop => cases hop.symm.trans hop'

theorem Entry.raises_spec (he : e.raises k) :
    e.after.leases.generation k = e.before.leases.generation k + 1 := by
  rcases he with ⟨l, hl, rfl⟩ | he
  · obtain ⟨hget, -, hgen⟩ := e.issued_spec h hl
    rw [← hgen, Leases.generation, grant_of_get hget]; rfl
  · exact e.handsOff_spec h he

theorem Entry.keeps_generation (he : ¬e.raises k) :
    e.after.leases.generation k = e.before.leases.generation k := by
  have hput : ∀ {l next : ServiceLease}, Puts e.before e.after next → next.key = l.key →
      e.before.leases.get l.key = some l → next.generation = l.generation →
      e.after.leases.generation k = e.before.leases.generation k := by
    intro l next hw hkey hl hgen
    by_cases hk : k = next.key
    · rw [hk, Leases.generation, grant_of_get hw.get_key, Leases.generation, hkey, grant_of_get hl]
      exact hgen
    · exact congrArg Grant.generation (hw.grant_other hk)
  obtain ⟨call, trace, result, before, after⟩ := e
  cases h with
  | threw _ hw => exact congrArg (Leases.generation · k) hw.leases
  | resolved _ _ _ _ _ hw => exact congrArg (Leases.generation · k) hw.leases
  | starting _ _ _ _ _ hw => exact congrArg (Leases.generation · k) hw.leases
  | verified _ _ _ hw => exact congrArg (Leases.generation · k) hw.leases
  | bound i l next v hop hw hkey hl hguard hgen => exact hput hw hkey hl hgen
  | released i l next v hop hw hkey hl hguard hgen => exact hput hw hkey hl hgen
  | reserved i l next v r hop hw =>
    refine congrArg Grant.generation (hw.grant_other fun hk => he (.inl ⟨next, rfl, hk.symm⟩))
  | handedOff i l next v hop hw hkey hl hguard hgen hstate hholder hv =>
    refine congrArg Grant.generation (hw.grant_other fun hk => he (.inr ⟨i, v, hop, rfl, ?_⟩))
    rw [hv, hk]

theorem Entry.verified_spec {unit : String} {g : Nat} (he : e.verified k unit g) :
    e.before.leases.grant k = ⟨g, .active (some unit)⟩ ∧ e.after.leases.grant k = ⟨g, .active (some unit)⟩ := by
  obtain ⟨view, hop', hres, rfl⟩ := he
  rw [hres] at h
  cases h with
  | verified i v hop hw hl hstate hholder hgen =>
    cases hop.symm.trans hop'
    have hgrant : view.lease.grant = ⟨g, .active (some unit)⟩ := by
      rw [ServiceLease.grant_active hstate, hholder, hgen]
    refine ⟨?_, ?_⟩
    · rw [grant_of_get hl, hgrant]
    · rw [hw.leases, grant_of_get hl, hgrant]
  | bound _ _ _ _ hop | released _ _ _ _ hop | handedOff _ _ _ _ hop => cases hop.symm.trans hop'

theorem Entry.bound_spec {g : Nat} (he : e.bound k g) : e.before.leases.generation k = g := by
  obtain ⟨input, view, hop', hres, rfl, rfl⟩ := he
  rw [hres] at h
  cases h with
  | bound i l next v hop hw hkey hl hguard hgen hstate hholder hv =>
    cases hop.symm.trans hop'
    rw [hv, hkey, Leases.generation, grant_of_get hl]
    exact hguard.2.1
  | released _ _ _ _ hop | handedOff _ _ _ _ hop | verified _ _ hop => cases hop.symm.trans hop'

end

/-! ## Fencing -/

/-- What a log must show of one service for its generations to fence. -/
structure Fenced (k : String × String) (log : List Entry) : Prop where
  /-- The generation never decreases. -/
  ascending : (∀ e ∈ log, e.before.leases.generation k ≤ e.after.leases.generation k) ∧
    log.Pairwise fun e e' => e.after.leases.generation k ≤ e'.before.leases.generation k
  raised : ∀ e ∈ log, e.raises k → e.after.leases.generation k = e.before.leases.generation k + 1
  kept : ∀ e ∈ log, ¬e.raises k → e.after.leases.generation k = e.before.leases.generation k
  /-- Two reservations never share a generation. -/
  reservations : log.Pairwise fun e e' => ∀ l l', e.issued = some l → l.key = k → e'.issued = some l' →
    l'.key = k → l.generation ≠ l'.generation
  holders : ∀ e ∈ log, ∀ e' ∈ log, ∀ l l', e.after.leases.get k = some l → l.state = .active →
    e'.after.leases.get k = some l' → l'.state = .active → l.generation = l'.generation → l.holder = l'.holder
  verified : ∀ e ∈ log, ∀ e' ∈ log, ∀ u u' g, e.verified k u g → e'.verified k u' g → u = u'
  /-- Once a generation is written, no call verifies or binds under an older one. -/
  refused : log.Pairwise fun e e' => ∀ g, g < e.after.leases.generation k →
    (∀ u, ¬e'.verified k u g) ∧ ¬e'.bound k g

theorem fenced_of_linked {log : List Entry} {leases leases' : Leases}
    (hlinked : Linked (·.before.leases) (·.after.leases) leases log leases')
    (hout : ∀ e ∈ log, Outcome e.answered e.call e.before e.after e.result) : Fenced k log := by
  have hup : ∀ e ∈ log, e.before.leases.grant k ≤ e.after.leases.grant k := fun e he => (hout e he).le k
  have hpair := hlinked.pairwise (f := (Leases.grant · k)) hup
  have htotal : ∀ {e e' : Entry} {g : Nat} {u u' : Option String}, e ∈ log → e' ∈ log →
      e.after.leases.grant k = ⟨g, .active u⟩ → e'.after.leases.grant k = ⟨g, .active u'⟩ → u = u' := by
    intro e e' g u u' he he' hu hu'
    rcases hlinked.total (f := (Leases.grant · k)) hup he he' with hle | hle
    · simp only [hu, hu'] at hle
      exact owner_unique hle
    · simp only [hu, hu'] at hle
      exact (owner_unique hle).symm
  refine ⟨⟨fun e he => generation_mono (hup e he), hpair.imp fun h => generation_mono h⟩,
    fun e he => e.raises_spec (hout e he), fun e he => e.keeps_generation (hout e he),
    ?_, ?_, ?_, ?_⟩
  · refine hpair.imp_of_mem fun he he' hle l l' hl hk hl' hk' => ?_
    obtain ⟨hget, -, -⟩ := Entry.issued_spec (hout _ he) hl
    obtain ⟨-, -, hgen⟩ := Entry.issued_spec (hout _ he') hl'
    have hmono := generation_mono hle
    rw [hk] at hget
    rw [hk'] at hgen
    rw [grant_of_get hget] at hmono
    have : l.grant.generation = l.generation := rfl
    simp only [Leases.generation] at hgen
    omega
  · intro e he e' he' l l' hl hs hl' hs' hgen
    refine htotal (g := l.generation) he he' ?_ ?_
    · rw [grant_of_get hl, ServiceLease.grant_active hs]
    · rw [grant_of_get hl', ServiceLease.grant_active hs', hgen]
  · intro e he e' he' u u' g hu hu'
    exact Option.some.inj (htotal he he' (e.verified_spec (hout e he) hu).2
      (e'.verified_spec (hout e' he') hu').2)
  · refine hpair.imp_of_mem fun he he' hle g hg => ?_
    have hmono := generation_mono hle
    simp only [Leases.generation] at hg
    refine ⟨fun u hu => ?_, fun hb => ?_⟩
    · rw [(Entry.verified_spec (hout _ he') hu).1] at hmono
      simp only at hmono
      omega
    · have hgen := Entry.bound_spec (hout _ he') hb
      simp only [Leases.generation] at hgen
      omega

/-- Service fencing: in every run of the service verbs the generations of a service
rise by one with each new authority, and no two holders answer for one generation. -/
theorem service_fenced (w : World) (es : List ServiceEvent) (s : ServiceRun)
    (h : exec serviceStep (untouched w) es = some s) (k : String × String) : Fenced k s.log :=
  fenced_of_linked (linked h) (outcomes h)

end

/-- A hub with one project and two units. -/
def workshop : World where
  agents := (Filed.put .empty
    { id := "a", handle := "a", cwd := "/p", status := .active, createdAt := 0, lastSeen := 0 }
    (by decide)).put { id := "b", handle := "b", cwd := "/p", status := .active, createdAt := 0, lastSeen := 0 }
    (by decide)
  projects := Filed.put .empty { id := "p", name := "p", root := "/p", commonDir := "/p/.git", registeredAt := 0 }
    (by decide)

def webCall (op : ServiceOp) (answers : Nat) : ServiceEvent :=
  .call ⟨{ env := {} }, "p", "web", op⟩ (List.replicate answers {})

theorem service_fenced_handoff : ∃ s, exec serviceStep (untouched workshop)
      [webCall (.acquire {}) 16, webCall (.bind ⟨1, "", "a"⟩) 11, webCall (.verify ⟨"a", 1⟩) 5,
        webCall (.handoff ⟨1, "a", "b"⟩) 11, webCall (.verify ⟨"a", 1⟩) 3] = some s ∧
    s.log.map (·.result.isOk) = [true, true, true, true, false] ∧ s.state.leases.generation ("p", "web") = 2 ∧
    Fenced ("p", "web") s.log := by
  have h : (exec serviceStep (untouched workshop)
      [webCall (.acquire {}) 16, webCall (.bind ⟨1, "", "a"⟩) 11, webCall (.verify ⟨"a", 1⟩) 5,
        webCall (.handoff ⟨1, "a", "b"⟩) 11, webCall (.verify ⟨"a", 1⟩) 3]).map
      (fun s => (s.log.map (·.result.isOk), s.state.leases.generation ("p", "web"))) =
      some ([true, true, true, true, false], 2) := by
    decide +kernel
  obtain ⟨s, hs, hlog⟩ := Option.map_eq_some_iff.mp h
  obtain ⟨hok, hgen⟩ := Prod.mk.inj hlog
  exact ⟨s, hs, hok, hgen, service_fenced workshop _ s hs ("p", "web")⟩

end Cyberlegion
