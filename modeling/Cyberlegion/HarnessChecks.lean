import Cyberlegion.HomeSound

/-!
# The checks of a harness

A harness is named in four places: by a spawn, by the record of a unit that restarts, by the home
of a standing owner and by an agent definition. Each checks it against the launch map before it
does anything, three of them with an operator that also finds what every object inherits.
-/

namespace Cyberlegion

open Effects

/-! ## The four checks -/

def harnessKeys : List String := LAUNCH_MAP.map (·.1)

/-- Every run ends in an error, with nothing opened, torn down or written. -/
def TurnedAway {α : Type} (p : HubM α) (w : World) : Prop :=
  Traces handle p w fun r w' m => (∃ e, r = .error e) ∧ w' = w ∧ ∀ x ∈ m, x.1.reads = true

def homeBy (owner home h : String) : HomeFlags :=
  { standing := true, handle := some owner, home := some home, harness := some h }

/-- Git and the file system find the folder apart from a primary checkout. -/
def Elsewhere (primary : Option String) (real : String → String) : Call → Choice → Prop
  | .primaryRoot _, c => c.text = primary
  | .realpathSync p, c => c.text = some (real p)
  | _, _ => True

/-- The harness passes each check where the rest that is checked is in order. -/
structure Accepts (files : String → Option String) (agentsDir : String → String) (h : String) : Prop where
  spawn : ∀ input brief, input.harness = some h → input.brief = some brief →
    (given input.cwd = none ∨ given input.branch = none ∧
    given input.worktreePath = none ∧ given input.repo = none ∧ given input.base = none) →
      assertSpawns input = pure (h, brief)
  restart : ∀ w ctx ref rec, w.named ref = some rec → rec.harness = some h → rec.kind.hasRuntime = true →
    w.selfId ctx ≠ some rec.id → rec.cwd ∈ w.dirs →
    Ends (fun _ _ => True) (admitted ctx ref) (fun r w' => r = .ok rec ∧ w' = w) w
  home : ∀ w ctx owner home primary real, owner ≠ "" → path.resolve ctx.cwd home ∈ w.dirs →
    (∀ root, primary = some root → real root ≠ real (path.resolve ctx.cwd home)) →
      Ends (Elsewhere primary real) (resolveHomeFlags files agentsDir ctx (homeBy owner home h))
        (fun r w' => r = .ok (some (some ⟨path.resolve ctx.cwd home, .harness h⟩)) ∧ w' = w) w
  definition : ∀ path, ∃ harness : Harness, Definition.toHarness (some h) path = .ok (some harness) ∧ harness.name = h

/-- The harness is refused by each check, whatever else the call is given. -/
structure Refuses (files : String → Option String) (agentsDir : String → String) (h : String) : Prop where
  spawn : ∀ w ctx input, input.harness = some h → TurnedAway (Cyberlegion.spawn ctx input) w
  restart : ∀ w ctx ref rec fresh, w.named ref = some rec → rec.harness = some h →
    TurnedAway (restartUnit ctx ref fresh) w
  home : ∀ w ctx owner home, TurnedAway (resolveHomeFlags files agentsDir ctx (homeBy owner home h)) w
  definition : ∀ path, ∃ e, Definition.toHarness (some h) path = .error e

section
variable {files : String → Option String} {agentsDir : String → String} {h : String}

theorem lookup_harness : (LAUNCH_MAP.lookup h).isSome = decide (h ∈ harnessKeys) := by
  rw [Bool.eq_iff_iff, decide_eq_true_iff]
  simp only [LAUNCH_MAP, harnessKeys, List.lookup_cons, List.lookup_nil, List.map_cons, List.map_nil,
    List.mem_cons, List.not_mem_nil, or_false]
  by_cases h₁ : h = "claude"
  · subst h₁; decide
  by_cases h₂ : h = "cursor"
  · subst h₂; decide
  by_cases h₃ : h = "codex"
  · subst h₃; decide
  simp [h₁, h₂, h₃, beq_eq_false_iff_ne.mpr h₁, beq_eq_false_iff_ne.mpr h₂, beq_eq_false_iff_ne.mpr h₃]

theorem inLaunchMap_iff : inLaunchMap h = true ↔ h ∈ harnessKeys ∨ h ∈ inherited := by
  rw [inLaunchMap, lookup_harness]
  simp

theorem harnessKeys_nonempty (hkey : h ∈ harnessKeys) : h ≠ "" := by
  rintro rfl
  exact absurd hkey (by decide)

theorem toHarness_key (path : String) (hkey : h ∈ harnessKeys) :
    ∃ harness : Harness, Definition.toHarness (some h) path = .ok (some harness) ∧ harness.name = h := by
  simp only [harnessKeys, LAUNCH_MAP, List.map_cons, List.map_nil, List.mem_cons, List.not_mem_nil, or_false] at hkey
  rcases hkey with rfl | rfl | rfl
  · exact ⟨.claude, rfl, rfl⟩
  · exact ⟨.cursor, rfl, rfl⟩
  · exact ⟨.codex, rfl, rfl⟩

theorem toHarness_other (path : String) (hkey : h ∉ harnessKeys) :
    ∃ e, Definition.toHarness (some h) path = .error e := by
  have hnone : Definition.HARNESSES.find? (·.name = h) = none := by
    rw [List.find?_eq_none]
    intro harness _ hname
    rw [decide_eq_true_eq] at hname
    refine hkey (hname ▸ ?_)
    cases harness <;> decide
  unfold Definition.toHarness
  simp only [hnone]
  exact ⟨_, rfl⟩

theorem assertFolder_answers {w : World} {dir home : String} (hdir : dir ∈ w.dirs) :
    Answers handle (fun _ _ => True) (assertFolder dir home) w (.ok ()) := by
  refine answers_call trivial (fun _ => rfl) ?_
  rw [decide_eq_true hdir]
  refine answers_call trivial (fun _ => rfl) ?_
  rw [decide_eq_true hdir]
  exact answers_ret ()

theorem ends_realpath {w : World} {primary : Option String} {real : String → String} {p : String} :
    Ends (Elsewhere primary real) (realpath p) (fun r w' => r = .ok (real p) ∧ w' = w) w := by
  refine ⟨trivial, fun c r w' hc hr => ?_⟩
  have htext : c.text = some (real p) := hc
  cases hr
  rw [htext]
  exact ⟨rfl, rfl⟩

theorem ends_assertNotPrimary {w : World} {primary : Option String} {real : String → String} {dir : String}
    (hreal : ∀ root, primary = some root → real root ≠ real dir) :
    Ends (Elsewhere primary real) (assertNotPrimary dir) (fun r w' => r = .ok () ∧ w' = w) w := by
  refine ⟨trivial, fun c r w' hc hr => ?_⟩
  have htext : c.text = primary := hc
  cases hr
  rw [htext]
  cases primary with
  | none => exact ⟨rfl, rfl⟩
  | some root =>
    show Ends _ (realpath root >>= fun a => realpath dir >>= fun b => refuse (a = b) _) _ w
    refine wp_seq ends_realpath (fun a t ht => ?_) fun e t ht => by cases ht.1
    obtain ⟨ha, rfl⟩ := ht
    refine wp_seq ends_realpath (fun b t ht => ?_) fun e t ht => by cases ht.1
    obtain ⟨hb, rfl⟩ := ht
    cases ha
    cases hb
    unfold refuse
    rw [if_neg (hreal root rfl)]
    exact ⟨rfl, rfl⟩

theorem accepts_key (hkey : h ∈ harnessKeys) : Accepts files agentsDir h where
  spawn input brief hh hb hflags := by
    have hin : inLaunchMap h = true := inLaunchMap_iff.mpr (.inl hkey)
    unfold assertSpawns refuse
    rw [hh, hb, if_neg ?_, if_neg ?_, if_neg ?_]
    · rfl
    · rintro ⟨hcwd, hother⟩
      rcases hflags with hnone | ⟨h₁, h₂, h₃, h₄⟩
      · rw [hnone] at hcwd
        cases hcwd
      · simp [h₁, h₂, h₃, h₄] at hother
    · simp
    · simp [hin, harnessKeys_nonempty hkey]
  restart w ctx ref rec hn hh hkind hself hcwd := by
    refine wp_mono ends_admitted fun r w' hr => ⟨?_, hr.1⟩
    cases r with
    | error e =>
      refine absurd ⟨hkind, hself, ?_, hcwd⟩ (hr.2 rec hn)
      rw [hh]
      exact ⟨harnessKeys_nonempty hkey, inLaunchMap_iff.mpr (.inl hkey)⟩
    | ok rec' =>
      have hn' := hr.2.1
      rw [hn] at hn'
      cases hn'
      rfl
  home w ctx owner home primary real howner hdir hreal := by
    have hnamed : (homeBy owner home h).named = true := by simp [HomeFlags.named, homeBy, given, howner]
    have hlaunch : ∀ dir, homeLaunch files agentsDir dir (some h) none = pure (.harness h) := by
      intro dir
      simp only [homeLaunch, refuse, inLaunchMap_iff.mpr (.inl hkey), not_true_eq_false, if_false]
      rfl
    unfold resolveHomeFlags
    refine ends_refuse (fun hc => absurd hnamed hc.2) fun _ => ?_
    rw [if_neg (by simp [homeBy])]
    refine ends_refuse (fun hc => by cases hc.2) fun _ => ends_refuse (fun hc => by cases hc.1) fun _ => ?_
    rw [if_neg (by simp [homeBy])]
    refine (assertFolder_answers hdir).bind_of ?_
    show Ends _ (homeLaunch files agentsDir _ (some h) none >>= _) _ w
    rw [hlaunch, pure_bind]
    refine wp_seq (ends_assertNotPrimary hreal) (fun _ t ht => ?_) fun e t ht => by cases ht.1
    exact ⟨rfl, ht.2⟩
  definition path := toHarness_key path hkey

theorem refused_of_only {α : Type} {p : HubM α} {w : World} (hp : p.Only (·.reads))
    (herr : wp handle (fun _ _ => True) (fun _ _ => True) p (fun r _ => ∃ e, r = .error e) w) : TurnedAway p w :=
  (traces_wp herr).and ((reads_traces hp).and hp.traces)

theorem refuses_other (hkey : h ∉ harnessKeys) (hinherited : h ∉ inherited) : Refuses files agentsDir h where
  spawn w ctx input hh := by
    have hin : ¬inLaunchMap h = true := fun hin => (inLaunchMap_iff.mp hin).elim hkey hinherited
    have hcheck : assertSpawns input =
        .throw (.error ("spawn needs a --harness in the launch map (" ++ launchKeys ++ ")")) := by
      unfold assertSpawns refuse
      rw [hh, if_pos (.inr hin)]
      rfl
    unfold Cyberlegion.spawn
    rw [hcheck]
    refine refused_of_only ?_ ?_
    · exact (reads_perform rfl).bind fun _ => (asks_selectSessionAdapter.mono reads_of_asks).bind fun _ => trivial
    · refine ends_call fun _ _ w' _ _ => (wp_bind _ _).mpr (wp_mono (Q := fun _ _ => True) ?_ fun r _ _ => ?_)
      · exact wp_only (Prog.only_true _) (fun _ _ _ _ _ _ _ _ => trivial) (fun _ _ _ _ => trivial) trivial
      cases r with
      | ok mux => exact ⟨_, rfl⟩
      | error e => exact ⟨e, rfl⟩
  restart w ctx ref rec fresh hn hh := by
    rw [restartUnit_eq]
    refine traces_admitted.seq (fun rec' w' m hr => ?_) fun e w' m hr => ⟨⟨e, rfl⟩, hr.1.1, fun x hx => ?_⟩
    · obtain ⟨⟨rfl, hn', hrestarts⟩, -⟩ := hr
      rw [hn] at hn'
      cases hn'
      have hin := hrestarts.harness.2
      rw [hh] at hin
      exact ((inLaunchMap_iff.mp hin).elim hkey hinherited).elim
    · have hrefuses := hr.2 x hx
      obtain ⟨op, c⟩ := x
      cases op <;> first | rfl | cases hrefuses
  home w ctx owner home := by
    have hdecides : Traces handle (resolveHomeFlags files agentsDir ctx (homeBy owner home h)) w _ :=
      traces_resolveHomeFlags
    refine hdecides.mono fun r w' m hr => ⟨?_, hr.1, hr.2.1⟩
    cases r with
    | error e => exact ⟨e, rfl⟩
    | ok decided =>
      cases hr.2.2 with
      | keeps hflag => cases hflag
      | drops _ hclear => cases hclear
      | @sets _ launch _ _ _ _ hlaunch _ =>
        cases launch with
        | agent a => cases hlaunch.1
        | harness h' =>
          have heq : h = h' := Option.some.inj hlaunch.1
          rw [← heq] at hlaunch
          exact ((inLaunchMap_iff.mp hlaunch.2.2).elim hkey hinherited).elim
  definition path := toHarness_other path hkey

end

/-- The four checks agree that the harness is one of the launch map's. -/
def HarnessAgreed (files : String → Option String) (agentsDir : String → String) (h : String) : Prop :=
  (h ∈ harnessKeys → Accepts files agentsDir h) ∧ (h ∉ harnessKeys → Refuses files agentsDir h)

/-! ## What every object inherits -/

def spawnNaming (h : String) : SpawnInput :=
  { harness := some h, brief := some "task", command := some "true", cwd := some "/w", cwdOwnRepo := true }

def folderOnly : World := { dirs := ["/w"] }

def inTmux : List Choice :=
  [default, { mux := .tmux }, { text := some "u1" }, default, default, { text := some "%1" }] ++
  List.replicate 4 default

def opensNaming (h : String) : Bool :=
  match run handle (spawn { env := {} } (spawnNaming h)) inTmux folderOnly with
  | some (.ok _, w') => decide ((.tmux, "%1") ∈ w'.live)
  | _ => false

theorem opensNaming_inherited : ∀ h ∈ inherited, opensNaming h = true := List.all_eq_true.mp (by decide +kernel)

theorem not_turnedAway_of_opensNaming {h : String} (hopens : opensNaming h = true) :
    ¬TurnedAway (spawn { env := {} } (spawnNaming h)) folderOnly := by
  intro hrefused
  unfold opensNaming at hopens
  split at hopens
  · next hrun =>
    obtain ⟨e, he⟩ := (hrefused _ _ _ hrun).1
    cases he
  · cases hopens

theorem inherited_not_key : ∀ h ∈ inherited, h ∉ harnessKeys := by decide

/-- They agree exactly on the names that no object inherits. -/
theorem harness_checks_iff (files : String → Option String) (agentsDir : String → String) (h : String) :
    HarnessAgreed files agentsDir h ↔ h ∉ inherited := by
  constructor
  · intro hagreed hin
    have hrefuses := hagreed.2 (inherited_not_key h hin)
    exact not_turnedAway_of_opensNaming (opensNaming_inherited h hin)
      (hrefuses.spawn folderOnly { env := {} } (spawnNaming h) rfl)
  · intro hin
    exact ⟨accepts_key, fun hkey => refuses_other hkey hin⟩

/-- A spawn that names `constructor` opens a session, and an agent definition that does is refused. -/
theorem constructor_slips_through : opensNaming "constructor" = true ∧ "constructor" ∉ harnessKeys ∧
    (∃ e, Definition.toHarness (some "constructor") "a.md" = .error e) ∧
    ¬HarnessAgreed (fun _ => none) id "constructor" := by
  have hopens : opensNaming "constructor" = true := opensNaming_inherited _ (by decide)
  have hkey : "constructor" ∉ harnessKeys := by decide
  refine ⟨hopens, hkey, toHarness_other _ hkey, fun hagreed => ?_⟩
  exact not_turnedAway_of_opensNaming hopens
    ((hagreed.2 hkey).spawn folderOnly { env := {} } (spawnNaming "constructor") rfl)

end Cyberlegion
