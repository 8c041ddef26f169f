import Cyberlegion.Operations
import Cyberlegion.Restart
import Cyberlegion.StandingHome

/-!
# What the home flags decide

Every home a registration sets was checked first, in the run that set it: the folder is there,
one launch is named and can be started, and the folder is no primary checkout. A registration that
any check refuses leaves the hub as it was.
-/

namespace Cyberlegion

open Effects

section
variable {files : String → Option String} {agentsDir : String → String} {ctx : Ctx} {flags : HomeFlags} {w : World}
variable {dir home : String} {harness agent : Option String} {launch : HomeLaunch}

/-- The launch is the one the flags name: a harness that passes the launch map's check, as the names every object
inherits do, or an agent whose definition resolves. -/
def Launchable (files : String → Option String) (agentsDir : String → String) (dir : String)
    (harness agent : Option String) :
    HomeLaunch → Prop
  | .harness h => harness = some h ∧ agent = none ∧ inLaunchMap h = true
  | .agent a => agent = some a ∧ harness = none ∧
      ∃ d, Definition.resolveAgentDef files dir (agentsDir dir) { name := some a } = .ok d

/-- Git finds no primary checkout for the folder, or one with another real path. -/
def NotPrimary (dir : String) (m : Calls) : Prop :=
  ∃ c, (.primaryRoot (some dir), c) ∈ m ∧ (c.text = none ∨ ∃ primary c₁ c₂, c.text = some primary ∧
    (.realpathSync primary, c₁) ∈ m ∧ (.realpathSync dir, c₂) ∈ m ∧ c₁.text ≠ c₂.text)

/-- What the flags make of a home. -/
inductive HomeDecision (files : String → Option String) (agentsDir : String → String) (ctx : Ctx)
    (flags : HomeFlags) (w : World)
    (m : Calls) : Option (Option StandingHome) → Prop
  | keeps (h : flags.homeFlag = false) (hlaunch : flags.standing = true → flags.harness = none) :
      HomeDecision files agentsDir ctx flags w m none
  | drops (hnamed : flags.named = true) (hclear : flags.clearHome = true)
      (h : flags.home = none ∧ flags.agent = none ∧ flags.harness = none) :
      HomeDecision files agentsDir ctx flags w m (some none)
  | sets {home : String} {launch : HomeLaunch} (hnamed : flags.named = true) (hclear : flags.clearHome = false)
      (hhome : flags.home = some home) (hdir : path.resolve ctx.cwd home ∈ w.dirs)
      (hlaunch : Launchable files agentsDir (path.resolve ctx.cwd home) flags.harness flags.agent launch)
      (hprimary : NotPrimary (path.resolve ctx.cwd home) m) :
      HomeDecision files agentsDir ctx flags w m (some (some ⟨path.resolve ctx.cwd home, launch⟩))

theorem reads_realpath {p : String} : (realpath p).Only (·.reads) := by
  refine (reads_perform rfl).bind fun r => ?_
  cases r <;> trivial

theorem reads_assertFolder : (assertFolder dir home).Only (·.reads) := by
  refine (reads_perform rfl).bind fun there => ?_
  split
  · exact (reads_perform rfl).bind fun _ => only_refuse
  · trivial

theorem only_homeLaunch : (homeLaunch files agentsDir dir harness agent).Only fun _ => False := by
  unfold homeLaunch
  split
  · exact only_refuse.bind fun _ => trivial
  · split <;> trivial
  · trivial

theorem reads_assertNotPrimary : (assertNotPrimary dir).Only (·.reads) := by
  refine (reads_perform rfl).bind fun primary => ?_
  cases primary with
  | none => trivial
  | some primary => exact reads_realpath.bind fun _ => reads_realpath.bind fun _ => only_refuse

theorem reads_resolveHomeFlags : (resolveHomeFlags files agentsDir ctx flags).Only (·.reads) := by
  unfold resolveHomeFlags
  refine only_refuse.bind fun _ => ?_
  split
  · trivial
  refine only_refuse.bind fun _ => only_refuse.bind fun _ => ?_
  split
  · trivial
  cases flags.home with
  | none => trivial
  | some home =>
    refine reads_assertFolder.bind fun _ => Prog.Only.bind (only_homeLaunch.mono fun _ h => h.elim) fun _ => ?_
    exact reads_assertNotPrimary.bind fun _ => trivial

theorem traces_refuse {α : Type} {cond : Prop} [Decidable cond] {e : HubError} {f : Unit → HubM α}
    {Q : Except HubError α → World → Calls → Prop} (herr : cond → Q (.error e) w [])
    (hok : ¬cond → Traces handle (f ()) w Q) :
    Traces handle (refuse cond e >>= f) w Q := by
  unfold refuse
  by_cases h : cond
  · rw [if_pos h]
    exact traces_throw.mpr (herr h)
  · rw [if_neg h]
    exact hok h

theorem reads_traces {α : Type} {p : HubM α} (hp : p.Only (·.reads)) : Traces handle p w fun _ w' _ => w' = w := by
  refine traces_wp (wp_only hp (I := fun w' => w' = w) (fun op c w₁ r w₂ hop hw₁ hr => ?_) (fun _ _ _ _ => trivial) rfl)
  rw [handle_reads hop hr, hw₁]

theorem traces_realpath {p : String} : Traces handle (realpath p) w fun r _ m =>
    ∀ real, r = .ok real → ∃ c, (.realpathSync p, c) ∈ m ∧ c.text = some real := by
  refine traces_call.mpr fun c r t hop => ?_
  have htext : c.text = r := by
    cases hop
    rfl
  cases r with
  | none => exact traces_throw.mpr fun _ h => by cases h
  | some real =>
    refine traces_ret.mpr fun real' h => ?_
    cases h
    exact ⟨c, List.mem_singleton_self _, htext⟩

theorem traces_assertNotPrimary :
    Traces handle (assertNotPrimary dir) w fun r _ m => r = .ok () → NotPrimary dir m := by
  refine traces_call.mpr fun c r t hop => ?_
  have htext : c.text = r := by
    cases hop
    rfl
  cases r with
  | none => exact traces_ret.mpr fun _ => ⟨c, List.mem_cons_self, .inl htext⟩
  | some primary =>
    refine traces_realpath.seq (fun real t' m hreal => ?_) fun e _ _ _ h => by cases h
    refine traces_realpath.seq (fun real' t'' m' hreal' => ?_) fun e _ _ _ h => by cases h
    unfold refuse
    split
    · exact traces_throw.mpr fun h => by cases h
    · next hne =>
      refine traces_ret.mpr fun _ => ?_
      obtain ⟨c₁, hmem₁, htext₁⟩ := hreal real rfl
      obtain ⟨c₂, hmem₂, htext₂⟩ := hreal' real' rfl
      refine ⟨c, List.mem_cons_self, .inr ⟨primary, c₁, c₂, htext, ?_, ?_, ?_⟩⟩
      · exact List.mem_cons_of_mem _ (List.mem_append_left _ hmem₁)
      · rw [List.append_nil]
        exact List.mem_cons_of_mem _ (List.mem_append_right _ hmem₂)
      · rw [htext₁, htext₂]
        exact fun h => hne (Option.some.inj h)

theorem traces_assertFolder : Traces handle (assertFolder dir home) w fun r _ _ => r = .ok () → dir ∈ w.dirs := by
  refine traces_call.mpr fun c r t hop => ?_
  cases hop
  by_cases hdir : dir ∈ w.dirs
  · exact fun _ _ _ _ _ => hdir
  · rw [decide_eq_false hdir]
    exact traces_throw.mpr fun h => by cases h

theorem traces_homeLaunch : Traces handle (homeLaunch files agentsDir dir harness agent) w fun r _ _ =>
    ∀ launch, r = .ok launch → Launchable files agentsDir dir harness agent launch := by
  unfold homeLaunch
  split
  · next h =>
    unfold refuse
    split
    · exact traces_throw.mpr fun _ h => by cases h
    · next hin =>
      refine traces_ret.mpr fun launch hl => ?_
      cases hl
      exact ⟨rfl, rfl, by simpa using hin⟩
  · next a =>
    split
    · next d hd =>
      refine traces_ret.mpr fun launch hl => ?_
      cases hl
      exact ⟨rfl, rfl, d, hd⟩
    · exact traces_throw.mpr fun _ h => by cases h
  · exact traces_throw.mpr fun _ h => by cases h

/-- What a run of the home flags decides, it has checked; it writes nothing. -/
theorem traces_resolveHomeFlags : Traces handle (resolveHomeFlags files agentsDir ctx flags) w fun r w' m =>
    w' = w ∧ (∀ x ∈ m, x.1.reads = true) ∧ OnOk (HomeDecision files agentsDir ctx flags w m) r := by
  suffices hdecides : Traces handle (resolveHomeFlags files agentsDir ctx flags) w fun r _ m =>
      OnOk (HomeDecision files agentsDir ctx flags w m) r from
    (reads_traces reads_resolveHomeFlags).and (reads_resolveHomeFlags.traces.and hdecides)
  unfold resolveHomeFlags
  refine traces_refuse (fun _ => trivial) fun hhome => ?_
  split
  · next hstanding =>
    refine traces_ret.mpr (.keeps ?_ fun h => absurd h hstanding)
    by_contra hflag
    refine hhome ⟨by simpa using hflag, fun hnamed => hstanding ?_⟩
    simp only [HomeFlags.named, decide_eq_true_eq] at hnamed
    exact hnamed.1
  next hstanding =>
  rw [not_not] at hstanding
  refine traces_refuse (fun _ => trivial) fun hboth => traces_refuse (fun _ => trivial) fun hlone => ?_
  split
  · next hclear =>
    have hnone : flags.home = none := by
      rw [← Option.not_isSome_iff_eq_none]
      exact fun h => hboth ⟨h, hclear⟩
    rw [hnone] at hlone
    refine traces_ret.mpr (.drops ?_ hclear ⟨hnone, ?_, ?_⟩)
    · by_contra hnamed
      exact hhome ⟨by simp [HomeFlags.homeFlag, hclear], hnamed⟩
    · rw [← Option.not_isSome_iff_eq_none]
      exact fun h => hlone ⟨rfl, .inl h⟩
    · rw [← Option.not_isSome_iff_eq_none]
      exact fun h => hlone ⟨rfl, .inr h⟩
  next hclear =>
  cases hgiven : flags.home with
  | none =>
    rw [hgiven] at hlone
    have hagent : flags.agent = none := by
      rw [← Option.not_isSome_iff_eq_none]
      exact fun h => hlone ⟨rfl, .inl h⟩
    refine traces_ret.mpr (.keeps ?_ fun _ => ?_)
    · simp [HomeFlags.homeFlag, hgiven, hagent, hclear]
    · rw [← Option.not_isSome_iff_eq_none]
      exact fun h => hlone ⟨rfl, .inr h⟩
  | some home =>
    refine ((reads_traces reads_assertFolder).and traces_assertFolder).seq (fun _ w₁ m₁ h₁ => ?_) fun _ _ _ _ => trivial
    obtain ⟨rfl, hdir⟩ := h₁
    refine ((reads_traces (only_homeLaunch.mono fun _ h => h.elim)).and traces_homeLaunch).seq
      (fun launch w₂ m₂ h₂ => ?_)
      fun _ _ _ _ => trivial
    obtain ⟨rfl, hlaunch⟩ := h₂
    refine traces_assertNotPrimary.seq (fun _ w₃ m₃ h₃ => traces_ret.mpr ?_) fun _ _ _ _ => trivial
    refine .sets ?_ (by simpa using hclear) hgiven (hdir rfl) (hlaunch launch rfl) ?_
    · by_contra hnamed
      exact hhome ⟨by simp [HomeFlags.homeFlag, hgiven], hnamed⟩
    · obtain ⟨c, hmem, htext⟩ := h₃ rfl
      have hin : ∀ x ∈ m₃, x ∈ m₁ ++ (m₂ ++ (m₃ ++ [])) := by
        intro x hx
        simp [hx]
      refine ⟨c, hin _ hmem, htext.imp id ?_⟩
      rintro ⟨primary, c₁, c₂, hprimary, hmem₁, hmem₂, hne⟩
      exact ⟨primary, c₁, c₂, hprimary, hin _ hmem₁, hin _ hmem₂, hne⟩

end

/-! ## The registration -/

/-- A registration of an owner fails with nothing written, or writes its record with the home decided. -/
def OwnerRegistered (files : String → Option String) (agentsDir : String → String) (ctx : Ctx)
    (flags : HomeFlags) (owner : String)
    (w : World) (r : Except HubError (Option AgentRecord)) (w' : World) (m : Calls) : Prop :=
  (Same w w' ∧ ∃ e, r = .error e) ∨ ∃ decided rec checked, checked <+: m ∧
    HomeDecision files agentsDir ctx flags w checked decided ∧
    r = .ok (some rec) ∧ Refreshes { handle := owner, home := decided } (w.agents.get (standingId owner)) rec ∧
    Wrote w rec.id (some rec) none none w'

theorem traces_unitRegister {files : String → Option String} {agentsDir : String → String} {ctx : Ctx}
    {flags : HomeFlags} {w : World}
    {owner : String} (hstanding : flags.standing = true) (hhandle : given flags.handle = some owner) :
    Traces handle (unitRegister files agentsDir ctx flags) w (OwnerRegistered files agentsDir ctx flags owner w) := by
  unfold unitRegister
  refine traces_resolveHomeFlags.seq (fun decided w₁ checked h₁ => ?_) fun e w₁ m h₁ => .inl ⟨?_, e, rfl⟩
  · obtain ⟨rfl, -, hdecided⟩ := h₁
    rw [if_pos hstanding]
    refine traces_call.mpr fun c agents w₂ hlist => ?_
    cases hlist
    simp only [hhandle]
    rw [← bind_pure_comp]
    refine (traces_wp registerStanding_writes).seq (fun rec w₃ m h₃ => traces_ret.mpr ?_) fun e w₃ m h₃ => ?_
    · rcases h₃ with ⟨-, e, he⟩ | ⟨rec', hrec', hrefreshes, hwrote⟩
      · cases he
      · cases hrec'
        exact .inr ⟨decided, rec, checked, List.prefix_append _ _, hdecided, rfl, hrefreshes, hwrote⟩
    · rcases h₃ with ⟨hsame, -⟩ | ⟨rec, hrec, -⟩
      · exact .inl ⟨hsame, e, rfl⟩
      · cases hrec
  · rw [h₁.1]
    exact Same.rfl

/-- A registration that answers has checked the home it stores; one that fails has stored nothing. -/
theorem registered_home (files : String → Option String) (agentsDir : String → String) (ctx : Ctx)
    (flags : HomeFlags) (owner : String)
    (hstanding : flags.standing = true) (hhandle : given flags.handle = some owner) (w w' : World) (cs : List Choice)
    (r : Except HubError (Option AgentRecord))
    (hrun : run handle (unitRegister files agentsDir ctx flags) cs w = some (r, w')) :
    OwnerRegistered files agentsDir ctx flags owner w r w'
    (trace handle (unitRegister files agentsDir ctx flags) cs w) :=
  traces_unitRegister hstanding hhandle cs r w' hrun

def samAtHome : HomeFlags := { standing := true, handle := some "sam", home := some "/w", harness := some "claude" }

theorem registered_home_sam : ∃ r w', run handle (unitRegister (fun _ => none) id { env := {} } samAtHome)
    (List.replicate 10 default)
      { dirs := ["/w"] } = some (r, w') ∧
    OwnerRegistered (fun _ => none) id { env := {} } samAtHome "sam" { dirs := ["/w"] } r w'
      (trace handle (unitRegister (fun _ => none) id { env := {} } samAtHome) (List.replicate 10 default)
        { dirs := ["/w"] }) := by
  have hruns : (run handle (unitRegister (fun _ => none) id { env := {} } samAtHome) (List.replicate 10 default)
      { dirs := ["/w"] }).isSome = true := by decide +kernel
  obtain ⟨⟨r, w'⟩, hrun⟩ := Option.isSome_iff_exists.mp hruns
  exact ⟨r, w', hrun, registered_home _ _ _ _ _ rfl (by decide) _ _ _ _ hrun⟩

end Cyberlegion
