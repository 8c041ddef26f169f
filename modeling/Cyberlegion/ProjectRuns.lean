import Cyberlegion.Project
import Cyberlegion.VerbSpec

/-!
# The record of a project

`projectAddress` of `participants.ts`, and the record of one repository over any sequence
of registrations, resolutions and addressings made from its checkouts.
-/

namespace Cyberlegion

open Effects Runs

def repoSubject (dir : String) : HubM (Option SubjectId) := do
  match ← perform (.exec "git" ["-C", dir, "remote", "get-url", "origin"]) with
  | none | some "" => return none
  | some remote =>
    match ← perform (.exec "gh" ["repo", "view", remote, "--json", "id", "--jq", ".id"]) with
    | none | some "" => return none
    | some id => return some ⟨"gh", id⟩

structure Channel where
  id : String
  handle : String

structure ProjectAddress where
  subject : SubjectId
  channel : Option Channel

/-- What `openCynapse` comes to: no cynapse, one whose store cannot be opened, or a store with
its `getChannelBySubject`. -/
inductive OpenedCynapse
  | absent
  | fails (message : String)
  | store (getChannelBySubject : SubjectId → Except String (Option Channel))

def subjectOf (project : ProjectRecord) : HubM (Option SubjectId) :=
  match project.subject with
  | some subject => return some subject
  | none => do
    match ← repoSubject project.root with
    | none => return none
    | some subject =>
      Store.putProject { project with subject := some subject }
      return some subject

def projectAddress (cynapse : OpenedCynapse) (project : ProjectRecord) : HubM (Option ProjectAddress) :=
  tryCatch (do
    match cynapse with
    | .absent => return none
    | .fails message => throw (.error message)
    | .store getChannelBySubject =>
      match ← subjectOf project with
      | none => return none
      | some subject =>
        match getChannelBySubject subject with
        | .ok channel => return some { subject, channel }
        | .error message => throw (.error message))
    fun _ => return none

namespace Registration

/-! ## What git and the file system answer -/

structure Git where
  exec : List String → Option String := fun _ => none
  realpath : String → Option String := some

/-- The answers are those of `git`; every other command answers as it likes. -/
def Git.answers (git : Git) : Call → Choice → Bool
  | .exec cmd args, c => cmd ≠ "git" ∨ c.text = git.exec args
  | .realpathSync p, c => c.text = git.realpath p
  | _, _ => true

def Git.canonical (git : Git) (ctx : Ctx) (p : String) : String := (git.realpath p).getD (path.resolve ctx.cwd p)

def Git.commonDir (git : Git) (ctx : Ctx) (dir : String) : Option String :=
  ((git.exec ["-C", dir, "rev-parse", "--path-format=absolute", "--git-common-dir"]).filter (· ≠ "")).map
    (git.canonical ctx)

/-- The root that the default checkout reports, if `dir` is in it: its git dir is the common dir. -/
def Git.defaultRoot (git : Git) (ctx : Ctx) (dir commonDir : String) : Option String :=
  match git.exec ["-C", dir, "rev-parse", "--path-format=absolute", "--git-dir"],
    git.exec ["-C", dir, "rev-parse", "--show-toplevel"] with
  | some gitDir, some top =>
    if gitDir ≠ "" ∧ top ≠ "" ∧ git.canonical ctx gitDir = commonDir then some (git.canonical ctx top) else none
  | _, _ => none

/-! ## Calls made from the checkouts of one repository -/

structure Repository where
  sha256 : String → String
  commonDir : String

@[irreducible] def Repository.id (repo : Repository) : String := "prj-" ++ slice (repo.sha256 repo.commonDir) 16

inductive ProjectVerb
  | register (dir : Option String)
  | resolve (ref : String)
  | address (cynapse : OpenedCynapse) (project : ProjectRecord)

structure ProjectEvent where
  ctx : Ctx
  git : Git
  verb : ProjectVerb
  choices : List Choice

structure ProjectRun where
  world : World := {}
  /-- The records of the repository that the calls have returned. -/
  returned : List ProjectRecord := []
  /-- The root that the default checkout reported last to a call that recorded it. -/
  reported : Option String := none

def ProjectVerb.prog (ctx : Ctx) : ProjectVerb → HubM (Option ProjectRecord)
  | .register dir => some <$> registerProject ctx dir
  | .resolve ref => some <$> resolveProject ctx ref
  | .address cynapse project => (fun _ => none) <$> projectAddress cynapse project

def ProjectVerb.dir (ctx : Ctx) : ProjectVerb → String
  | .register dir => path.resolve ctx.cwd (dir.getD ctx.cwd)
  | .resolve ref => path.resolve ctx.cwd ref
  | .address _ project => project.root

section
variable (repo : Repository)

def ProjectEvent.context (ev : ProjectEvent) : Ctx := { ev.ctx with sha256 := repo.sha256 }

def ProjectRun.record (s : ProjectRun) : Option ProjectRecord := s.world.projects.get repo.id

/-- The call is made from a checkout of the repository, or with a record of it that an earlier
call has returned. -/
def ProjectEvent.concerns (ev : ProjectEvent) (s : ProjectRun) : Bool :=
  match ev.verb with
  | .address _ project => project ∈ s.returned
  | verb => ev.git.commonDir (ev.context repo) (verb.dir (ev.context repo)) = some repo.commonDir

/-- The root that the call records if it returns: what the default checkout reports to a call
that registers, whether or not a record is there, or that resolves, if none is. -/
def ProjectEvent.reports (ev : ProjectEvent) (s : ProjectRun) : Option String :=
  let root := ev.git.defaultRoot (ev.context repo) (ev.verb.dir (ev.context repo)) repo.commonDir
  match ev.verb with
  | .register _ => root
  | .resolve _ => if (s.record repo).isNone then root else none
  | .address _ _ => none

def projectStep (s : ProjectRun) (ev : ProjectEvent) : Option ProjectRun :=
  let prog := ev.verb.prog (ev.context repo)
  if ev.concerns repo s ∧ (trace handle prog ev.choices s.world).all fun x => ev.git.answers x.1 x.2 then
    (run handle prog ev.choices s.world).map fun (r, world) =>
      match r with
      | .ok (some rec) =>
        if rec.commonDir = repo.commonDir then
          { world, returned := rec :: s.returned, reported := (ev.reports repo s).or s.reported }
        else { s with world }
      | _ => { s with world }
  else none

end

/-! ## What one call records -/

theorem ends_map {α β : Type} {A : Call → Choice → Prop} {w : World} {p : HubM α} {g : α → β}
    {R : Except HubError α → World → Prop} {Q : Except HubError β → World → Prop} (hp : Ends A p R w)
    (h : ∀ r w', R r w' → Q (r.map g) w') : Ends A (g <$> p) Q w := by
  rw [map_eq_pure_bind]
  refine (wp_bind _ _).mpr (wp_mono hp fun r w' hr => ?_)
  cases r with
  | ok a => exact h _ w' hr
  | error e => exact h _ w' hr

/-- The record that a registration writes over `old`. -/
structure Registered (repo : Repository) (defaultRoot : Option String) (old : Option ProjectRecord)
    (rec : ProjectRecord) :
    Prop where
  id : rec.id = repo.id
  commonDir : rec.commonDir = repo.commonDir
  subject : rec.subject = none
  registeredAt : ∀ o, old = some o → rec.registeredAt = o.registeredAt
  root : rec.root = defaultRoot.getD ((old.map (·.root)).getD (path.dirname repo.commonDir))

def Filing (w : World) (rec : ProjectRecord) (w' : World) : Prop :=
  ∀ id, w'.projects.get id = if id = rec.id then some rec else w.projects.get id

section
variable {α : Type} {git : Git} {ctx : Ctx} {repo : Repository} {w : World} {dir p : String} {rec : ProjectRecord}
variable {Q : Except HubError α → World → Prop}

theorem ends_git {args : List String} {f : Option String → HubM α}
    (h : Ends (git.answers · ·) (f (git.exec args)) Q w) :
    Ends (git.answers · ·) (perform (.exec "git" args) >>= f) Q w := by
  refine ends_call fun c r w' hc hr => ?_
  cases hr
  have htext : c.text = git.exec args := (of_decide_eq_true hc).resolve_left fun hne => hne rfl
  rw [htext]
  exact h

theorem ends_realOrResolved {f : String → HubM α} (h : Ends (git.answers · ·) (f (git.canonical ctx p)) Q w) :
    Ends (git.answers · ·) (realOrResolved ctx p >>= f) Q w := by
  unfold realOrResolved
  rw [bind_assoc]
  refine ends_call fun c r w' hc hr => ?_
  cases hr
  have htext : c.text = git.realpath p := of_decide_eq_true hc
  rw [htext]
  unfold Git.canonical at h
  cases hreal : git.realpath p with
  | none => rw [hreal] at h; exact h
  | some real => rw [hreal] at h; exact h

theorem ends_commonDirOf {f : Option String → HubM α} (h : Ends (git.answers · ·) (f (git.commonDir ctx dir)) Q w) :
    Ends (git.answers · ·) (commonDirOf ctx dir >>= f) Q w := by
  unfold commonDirOf
  rw [bind_assoc]
  apply ends_git
  unfold Git.commonDir at h
  cases hout : git.exec ["-C", dir, "rev-parse", "--path-format=absolute", "--git-common-dir"] with
  | none => rw [hout] at h; exact h
  | some out =>
    rw [hout] at h
    by_cases hempty : out = ""
    · subst hempty; exact h
    · have hkept : (some out).filter (fun out => decide (out ≠ "")) = some out :=
        Option.filter_some_pos (decide_eq_true hempty)
      rw [hkept] at h
      split
      · next heq => cases heq
      · next heq => cases heq; exact absurd rfl hempty
      · next heq =>
        cases heq
        rw [map_eq_pure_bind, bind_assoc]
        exact ends_realOrResolved h

theorem ends_defaultCheckoutOf {commonDir : String} {f : Checkout → HubM α}
    (h : Ends (git.answers · ·) (f (match git.defaultRoot ctx dir commonDir with
      | some root => ⟨root, true⟩
      | none => ⟨path.dirname commonDir, false⟩)) Q w) :
    Ends (git.answers · ·) (defaultCheckoutOf ctx dir commonDir >>= f) Q w := by
  unfold defaultCheckoutOf
  rw [bind_assoc]
  apply ends_git
  rw [bind_assoc]
  apply ends_git
  unfold Git.defaultRoot at h
  cases hdir : git.exec ["-C", dir, "rev-parse", "--path-format=absolute", "--git-dir"] with
  | none => rw [hdir] at h; exact h
  | some gitDir =>
    cases htop : git.exec ["-C", dir, "rev-parse", "--show-toplevel"] with
    | none => rw [hdir, htop] at h; exact h
    | some top =>
      rw [hdir, htop] at h
      by_cases hne : gitDir ≠ "" ∧ top ≠ ""
      · simp only [if_pos hne]
        rw [bind_assoc]
        apply ends_realOrResolved
        by_cases hcommon : git.canonical ctx gitDir = commonDir
        · rw [if_pos hcommon, bind_assoc]
          apply ends_realOrResolved
          simp only [if_pos (show gitDir ≠ "" ∧ top ≠ "" ∧ git.canonical ctx gitDir = commonDir from
            ⟨hne.1, hne.2, hcommon⟩)] at h
          exact h
        · rw [if_neg hcommon]
          simp only [if_neg (fun hall => hcommon hall.2.2 :
            ¬(gitDir ≠ "" ∧ top ≠ "" ∧ git.canonical ctx gitDir = commonDir))] at h
          exact h
      · simp only [if_neg hne]
        simp only [if_neg (fun hall => hne ⟨hall.1, hall.2.1⟩ :
          ¬(gitDir ≠ "" ∧ top ≠ "" ∧ git.canonical ctx gitDir = commonDir))] at h
        exact h

theorem ends_putProject {A : Call → Choice → Prop} {f : Unit → HubM α}
    (hok : ∀ w', Filing w rec w' → Ends A (f ()) Q w') (herr : ∀ e, Q (.error e) w) :
    Ends A (Store.putProject rec >>= f) Q w := by
  unfold Store.putProject
  split
  · next hsafe =>
    refine ends_call fun c r w' _ hr => ?_
    simp only [handle, hsafe, dif_pos] at hr
    cases hr
    exact hok _ fun id => Filed.get_put w.projects rec hsafe
  · exact herr _

theorem ends_getProject {A : Call → Choice → Prop} {id : String} {f : Option ProjectRecord → HubM α}
    (h : Ends A (f (w.projects.get id)) Q w) : Ends A (Store.getProject id >>= f) Q w := by
  refine (wp_bind _ _).mpr (wp_mono getProject_finds fun r w' hr => ?_)
  obtain ⟨rfl, rfl⟩ := hr
  exact h

end

/-- A registration throws with nothing written, or answers the record that it has written. -/
def Registers (repo : Repository) (defaultRoot : Option String) (w : World) (r : Except HubError ProjectRecord)
    (w' : World) : Prop :=
  (w' = w ∧ ∃ e, r = .error e) ∨
    ∃ rec, r = .ok rec ∧ Filing w rec w' ∧ Registered repo defaultRoot (w.projects.get repo.id) rec

/-- A resolution throws or answers a record that is there with nothing written, or registers the
repository, which has no record. -/
def Resolves (repo : Repository) (defaultRoot : Option String) (w : World) (r : Except HubError ProjectRecord)
    (w' : World) : Prop :=
  (w' = w ∧ OnOk (fun rec => w.projects.get rec.id = some rec) r) ∨
    w.projects.get repo.id = none ∧ Registers repo defaultRoot w r w'

/-- An addressing writes the record that it is given, with a subject, or nothing. -/
def Addresses (project : ProjectRecord) (w w' : World) : Prop :=
  w' = w ∨ project.subject = none ∧ ∃ subject, Filing w { project with subject := some subject } w'

section
variable {git : Git} {ctx : Ctx} {repo : Repository} {w w' : World} {dir ref : String} {rec : ProjectRecord}

theorem projectIdOf_eq (hsha : ctx.sha256 = repo.sha256) : projectIdOf ctx repo.commonDir = repo.id := by
  rw [projectIdOf, hsha, Repository.id]

theorem registerProject_ends {input : Option String} (hsha : ctx.sha256 = repo.sha256)
    (hcommon : git.commonDir ctx (path.resolve ctx.cwd (input.getD ctx.cwd)) = some repo.commonDir) :
    Ends (git.answers · ·) (registerProject ctx input)
      (Registers repo (git.defaultRoot ctx (path.resolve ctx.cwd (input.getD ctx.cwd)) repo.commonDir) w) w := by
  unfold registerProject Registers
  apply ends_commonDirOf
  rw [hcommon]
  refine ends_read (fun _ => rfl) ?_
  refine ends_getProject ?_
  apply ends_defaultCheckoutOf
  rw [projectIdOf_eq hsha]
  generalize git.defaultRoot ctx (path.resolve ctx.cwd (input.getD ctx.cwd)) repo.commonDir = defaultRoot
  have hroot : ∀ existing : Option ProjectRecord, (if (match defaultRoot with
        | some root => (⟨root, true⟩ : Checkout)
        | none => ⟨path.dirname repo.commonDir, false⟩).exact then (match defaultRoot with
        | some root => (⟨root, true⟩ : Checkout)
        | none => ⟨path.dirname repo.commonDir, false⟩).root else (existing.map (·.root)).getD (match defaultRoot with
        | some root => (⟨root, true⟩ : Checkout)
        | none => ⟨path.dirname repo.commonDir, false⟩).root) =
      defaultRoot.getD ((existing.map (·.root)).getD (path.dirname repo.commonDir)) := by
    intro existing
    cases defaultRoot <;> rfl
  cases hexisting : w.projects.get repo.id with
  | some existing =>
    simp only [Prog.pure_eq, Prog.ret_bind]
    refine ends_putProject ?_ ?_
    · intro w' hw
      refine .inr ⟨_, rfl, hw, rfl, rfl, rfl, ?_, hroot _⟩
      intro o ho
      cases ho
      rfl
    · exact fun e => .inl ⟨rfl, e, rfl⟩
  | none =>
    dsimp only
    refine ends_nowIso ?_ ?_
    · intro t
      refine ends_putProject ?_ ?_
      · exact fun w' hw => .inr ⟨_, rfl, hw, rfl, rfl, rfl, fun o ho => (by cases ho), hroot none⟩
      · exact fun e => .inl ⟨rfl, e, rfl⟩
    · exact fun e => .inl ⟨rfl, e, rfl⟩

theorem byPath_resolves (hsha : ctx.sha256 = repo.sha256)
    (hcommon : git.commonDir ctx (path.resolve ctx.cwd ref) = some repo.commonDir) :
    Ends (git.answers · ·) (byPath ctx (path.resolve ctx.cwd ref))
      (Resolves repo (git.defaultRoot ctx (path.resolve ctx.cwd ref) repo.commonDir) w) w := by
  unfold byPath
  apply ends_commonDirOf
  rw [hcommon]
  refine ends_getProject ?_
  rw [projectIdOf_eq hsha]
  cases hget : w.projects.get repo.id with
  | some rec =>
    refine ends_pure (.inl ⟨rfl, ?_⟩)
    show w.projects.get rec.id = some rec
    rw [Filed.key_of_get hget]
    exact hget
  | none =>
    have hsame : path.resolve ctx.cwd ((some (path.resolve ctx.cwd ref)).getD ctx.cwd) = path.resolve ctx.cwd ref :=
      path.resolve_resolve
    have hregisters := registerProject_ends (w := w) hsha (hsame.symm ▸ hcommon)
    rw [hsame] at hregisters
    exact wp_mono hregisters fun r w' h => .inr ⟨hget, h⟩

theorem resolveProject_resolves (hsha : ctx.sha256 = repo.sha256)
    (hcommon : git.commonDir ctx (path.resolve ctx.cwd ref) = some repo.commonDir) :
    Ends (git.answers · ·) (resolveProject ctx ref)
      (Resolves repo (git.defaultRoot ctx (path.resolve ctx.cwd ref) repo.commonDir) w) w := by
  have hthrows : ∀ e, Resolves repo (git.defaultRoot ctx (path.resolve ctx.cwd ref) repo.commonDir) w (.error e) w :=
    fun _ => .inl ⟨rfl, trivial⟩
  unfold resolveProject
  refine ends_getProject ?_
  cases hget : w.projects.get ref with
  | some byId =>
    refine ends_pure (.inl ⟨rfl, ?_⟩)
    show w.projects.get byId.id = some byId
    rw [Filed.key_of_get hget]
    exact hget
  | none =>
    dsimp only
    have hlisted : Ends (git.answers · ·) (byName ctx ref)
        (Resolves repo (git.defaultRoot ctx (path.resolve ctx.cwd ref) repo.commonDir) w) w := by
      unfold byName
      refine ends_read (fun _ => rfl) ?_
      split
      · next named hnamed =>
        have hmem : named ∈ (Projects.list w.projects).filter (·.name = ref) := by
          rw [hnamed]
          exact List.mem_singleton_self _
        exact ends_pure (.inl ⟨rfl, Projects.mem_list.mp (List.mem_filter.mp hmem).1⟩)
      · refine ends_read (fun _ => rfl) ?_
        split
        · exact byPath_resolves hsha hcommon
        · exact ends_throw (hthrows _)
      · exact ends_throw (hthrows _)
    by_cases hpath : looksLikePath ref = true
    · rw [if_pos hpath]
      refine ends_read (fun _ => rfl) ?_
      split
      · exact byPath_resolves hsha hcommon
      · exact hlisted
    · rw [if_neg hpath]
      exact hlisted

theorem subjectOf_addresses {A : Call → Choice → Prop} {project : ProjectRecord} :
    Ends A (subjectOf project) (fun _ w' => Addresses project w w') w := by
  unfold subjectOf
  cases hsubject : project.subject with
  | some subject => exact ends_pure (.inl rfl)
  | none =>
    dsimp only
    unfold repoSubject
    rw [bind_assoc]
    refine ends_call fun c r w' _ hr => ?_
    cases hr
    split
    · exact ends_pure (.inl rfl)
    · exact ends_pure (.inl rfl)
    · rw [bind_assoc]
      refine ends_call fun c' r' w' _ hr' => ?_
      cases hr'
      split
      · exact ends_pure (.inl rfl)
      · exact ends_pure (.inl rfl)
      · refine ends_putProject (fun w' hw => ?_) fun _ => .inl rfl
        exact ends_pure (.inr ⟨hsubject, _, hw⟩)

theorem projectAddress_addresses {A : Call → Choice → Prop} {cynapse : OpenedCynapse} {project : ProjectRecord} :
    Ends A (projectAddress cynapse project) (fun _ w' => Addresses project w w') w := by
  refine (wp_tryCatch _ _).mpr ?_
  cases cynapse with
  | absent => exact .inl rfl
  | fails message => exact .inl rfl
  | store getChannelBySubject =>
    refine (wp_bind _ _).mpr (wp_mono subjectOf_addresses fun r w' h => ?_)
    cases r with
    | error e => exact h
    | ok subject =>
      cases subject with
      | none => exact h
      | some subject =>
        dsimp only
        split
        · exact h
        · exact h

end

/-! ## Runs -/

section
variable (repo : Repository)

/-- A registration finds a record without a subject, if any, and an addressing is given a
record that has one, or finds no subject and the same root. -/
def ProjectVerb.Careful (record : Option ProjectRecord) : ProjectVerb → Prop
  | .register _ => ∀ rec ∈ record, rec.subject = none
  | .resolve _ => True
  | .address _ project => project.subject = none → ∀ rec ∈ record, rec.subject = none ∧ rec.root = project.root

instance (record : Option ProjectRecord) : ∀ verb, Decidable (ProjectVerb.Careful record verb)
  | .register _ => inferInstanceAs (Decidable (∀ rec ∈ record, rec.subject = none))
  | .resolve _ => inferInstanceAs (Decidable True)
  | .address _ project => 
    have : Decidable (∀ rec ∈ record, rec.subject = none ∧ rec.root = project.root) := Option.decidableForallMem record
    inferInstanceAs (Decidable (project.subject = none → ∀ rec ∈ record, rec.subject = none ∧
      rec.root = project.root))

def Careful (s : ProjectRun) (ev : ProjectEvent) : Prop := ev.verb.Careful (s.record repo)

instance (s : ProjectRun) (ev : ProjectEvent) : Decidable (Careful repo s ev) :=
  inferInstanceAs (Decidable (ev.verb.Careful (s.record repo)))

/-- The record of `s` is there in `t`, since the same time and with its subject. -/
def Follows (s t : ProjectRun) : Prop :=
  ∀ rec, s.record repo = some rec → ∃ rec', t.record repo = some rec' ∧ rec'.registeredAt = rec.registeredAt ∧
    ∀ subject, rec.subject = some subject → rec'.subject = some subject

/-- What registration is for, of a moment `s` of a run and a later one `t`: once a call has returned,
the hub has one record of the repository, under its id; what a record keeps is kept; and the root is
the one that the default checkout reported, once it has. -/
structure Converges (s t : ProjectRun) : Prop where
  one : t.returned ≠ [] → ∃ rec, t.record repo = some rec ∧
    ∀ rec', t.world.projects.get rec'.id = some rec' → (rec'.commonDir = repo.commonDir ↔ rec' = rec)
  follows : Follows repo s t
  root : ∀ root, t.reported = some root → ∃ rec, t.record repo = some rec ∧ rec.root = root

structure ProjectInv (s : ProjectRun) : Prop where
  own : ∀ rec, s.record repo = some rec → rec.commonDir = repo.commonDir
  only : ∀ rec, s.world.projects.get rec.id = some rec → rec.commonDir = repo.commonDir → rec.id = repo.id
  returned : ∀ rec ∈ s.returned, rec.id = repo.id ∧ rec.commonDir = repo.commonDir ∧
    ∃ rec', s.record repo = some rec' ∧ rec'.registeredAt = rec.registeredAt
  reported : ∀ root, s.reported = some root → ∃ rec, s.record repo = some rec ∧ rec.root = root

/-- What a call can do to the run. -/
inductive Does (s : ProjectRun) (ev : ProjectEvent) : ProjectRun → Prop
  | idle : Does s ev s
  | found (rec : ProjectRecord) (h : s.world.projects.get rec.id = some rec) (hcommon : rec.commonDir = repo.commonDir)
      (hreports : s.record repo ≠ none → ev.reports repo s = none) :
      Does s ev { s with returned := rec :: s.returned, reported := (ev.reports repo s).or s.reported }
  | filed (rec : ProjectRecord) (world : World) (hw : Filing s.world rec world)
      (hrec : Registered repo (ev.reports repo s) (s.record repo) rec)
      (hsubject : Careful repo s ev → ∀ old, s.record repo = some old → old.subject = none) :
      Does s ev { world, returned := rec :: s.returned, reported := (ev.reports repo s).or s.reported }
  | addressed (cynapse : OpenedCynapse) (project : ProjectRecord) (subject : SubjectId) (world : World)
      (hverb : ev.verb = .address cynapse project) (hmem : project ∈ s.returned) (hnone : project.subject = none)
      (hw : Filing s.world { project with subject := some subject } world) : Does s ev { s with world }

end

section
variable {repo : Repository} {s s' t : ProjectRun} {ev : ProjectEvent}

theorem projectStep_does (h : projectStep repo s ev = some s') : Does repo s ev s' := by
  unfold projectStep at h
  dsimp only at h
  split at h
  · next hadmitted =>
    obtain ⟨hconcerns, hanswers⟩ := hadmitted
    obtain ⟨⟨r, world⟩, hrun, hs⟩ := Option.map_eq_some_iff.mp h
    have hends : ∀ {Q : Except HubError (Option ProjectRecord) → World → Prop},
        Ends (ev.git.answers · ·) (ev.verb.prog (ev.context repo)) Q s.world → Q r world := fun hp =>
      wp_run hp (fun x hx => List.all_eq_true.mp hanswers x hx) hrun
    have hsha : (ev.context repo).sha256 = repo.sha256 := rfl
    have hregisters : ∀ {r' : Except HubError ProjectRecord}, r = r'.map some →
        Registers repo (ev.reports repo s) s.world r' world →
        (Careful repo s ev → ∀ old, s.record repo = some old → old.subject = none) → Does repo s ev s' := by
      intro r' hr hreg hsubject
      rcases hreg with ⟨rfl, e, rfl⟩ | ⟨rec, rfl, hw, hrec⟩
      · subst hr hs
        exact .idle
      · subst hr hs
        simp only [Except.map, hrec.commonDir, if_true]
        exact .filed rec world hw hrec hsubject
    unfold ProjectEvent.concerns at hconcerns
    cases hverb : ev.verb with
    | register dir =>
      rw [hverb] at hconcerns
      have hroot : ev.reports repo s = ev.git.defaultRoot (ev.context repo)
          (path.resolve (ev.context repo).cwd (dir.getD (ev.context repo).cwd)) repo.commonDir := by
        rw [ProjectEvent.reports, hverb]
        rfl
      have hprog : ∃ r', r = r'.map some ∧ Registers repo (ev.reports repo s) s.world r' world := by
        apply hends
        rw [hverb, hroot]
        exact ends_map (registerProject_ends hsha (of_decide_eq_true hconcerns)) fun r' _ hr' => ⟨r', rfl, hr'⟩
      obtain ⟨r', hr, hreg⟩ := hprog
      refine hregisters hr hreg fun hcareful => ?_
      rw [Careful, hverb] at hcareful
      exact hcareful
    | resolve ref =>
      rw [hverb] at hconcerns
      have hprog : ∃ r', r = r'.map some ∧ Resolves repo (ev.git.defaultRoot (ev.context repo)
          (path.resolve (ev.context repo).cwd ref) repo.commonDir) s.world r' world := by
        apply hends
        rw [hverb]
        exact ends_map (resolveProject_resolves hsha (of_decide_eq_true hconcerns)) fun r' _ hr' => ⟨r', rfl, hr'⟩
      obtain ⟨r', hr, hres⟩ := hprog
      rcases hres with ⟨rfl, hfound⟩ | ⟨hnone, hreg⟩
      · cases r' with
        | error e =>
          subst hr hs
          exact .idle
        | ok rec =>
          subst hr hs
          by_cases hcommon : rec.commonDir = repo.commonDir
          · simp only [Except.map, if_pos hcommon]
            refine .found rec hfound hcommon fun hsome => ?_
            rw [ProjectEvent.reports, hverb]
            exact if_neg fun hisNone => hsome (Option.isNone_iff_eq_none.mp hisNone)
          · simp only [Except.map, if_neg hcommon]
            exact .idle
      · have hrecord : s.record repo = none := hnone
        have hroot : ev.reports repo s = ev.git.defaultRoot (ev.context repo) (path.resolve (ev.context repo).cwd ref)
            repo.commonDir := by
          rw [ProjectEvent.reports, hverb]
          exact if_pos (Option.isNone_iff_eq_none.mpr hrecord)
        rw [← hroot] at hreg
        refine hregisters hr hreg fun _ old hold => ?_
        rw [hrecord] at hold
        cases hold
    | address cynapse project =>
      rw [hverb] at hconcerns
      have hprog : (∃ r' : Except HubError Unit, r = r'.map fun _ => none) ∧ Addresses project s.world world := by
        apply hends
        rw [hverb]
        refine ends_map projectAddress_addresses fun r' w' hr' => ⟨?_, hr'⟩
        cases r' with
        | ok _ => exact ⟨.ok (), rfl⟩
        | error e => exact ⟨.error e, rfl⟩
      obtain ⟨⟨r', hr⟩, hwrites⟩ := hprog
      have hs' : s' = { s with world } := by
        subst hr hs
        cases r' <;> rfl
      subst hs'
      rcases hwrites with rfl | ⟨hnone, subject, hw⟩
      · exact .idle
      · exact .addressed cynapse project subject world hverb (of_decide_eq_true hconcerns) hnone hw
  · cases h

theorem Follows.rfl : Follows repo s s := fun rec hrec => ⟨rec, hrec, Eq.refl _, fun _ hsubject => hsubject⟩

theorem Follows.trans (h : Follows repo s s') (h' : Follows repo s' t) : Follows repo s t := by
  intro rec hrec
  obtain ⟨rec', hrec', hat', hsubject'⟩ := h rec hrec
  obtain ⟨rec'', hrec'', hat'', hsubject''⟩ := h' rec' hrec'
  exact ⟨rec'', hrec'', hat''.trans hat', fun subject hs => hsubject'' subject (hsubject' subject hs)⟩

theorem Filing.record {rec : ProjectRecord} {world : World} {returned : List ProjectRecord} {reported : Option String}
    (hw : Filing s.world rec world) (hid : rec.id = repo.id) :
    ProjectRun.record repo { world, returned, reported } = some rec :=
  (hw repo.id).trans (if_pos hid.symm)

theorem ProjectInv.filing (hI : ProjectInv repo s) {rec : ProjectRecord} {world : World} {returned : List ProjectRecord}
    {reported : Option String} (hw : Filing s.world rec world) (hid : rec.id = repo.id)
    (hcommon : rec.commonDir = repo.commonDir)
    (hat : ∀ old, s.record repo = some old → rec.registeredAt = old.registeredAt)
    (hreturned : ∀ r ∈ returned, r = rec ∨ r ∈ s.returned)
    (hreported : ∀ root, reported = some root → rec.root = root) :
    ProjectInv repo { world, returned, reported } := by
  have hrecord : ProjectRun.record repo { world, returned, reported } = some rec := hw.record hid
  refine ⟨fun r hr => ?_, fun r hr hc => ?_, fun r hr => ?_, fun root hroot => ⟨rec, hrecord, hreported root hroot⟩⟩
  · rw [hrecord] at hr
    cases hr
    exact hcommon
  · by_cases hsame : r.id = rec.id
    · exact hsame.trans hid
    · have hget : s.world.projects.get r.id = some r := by
        rw [← hr]
        exact ((hw r.id).trans (if_neg hsame)).symm
      exact hI.only r hget hc
  · rcases hreturned r hr with rfl | hr
    · exact ⟨hid, hcommon, r, hrecord, rfl⟩
    · obtain ⟨hrid, hrcommon, old, hold, hrat⟩ := hI.returned r hr
      exact ⟨hrid, hrcommon, rec, hrecord, (hat old hold).trans hrat⟩

theorem project_step (hI : ProjectInv repo s) (hcareful : Careful repo s ev) (h : Does repo s ev s') :
    ProjectInv repo s' ∧ Follows repo s s' := by
  cases h with
  | idle => exact ⟨hI, .rfl⟩
  | found rec hget hcommon hreports =>
    have hid := hI.only rec hget hcommon
    have hrecord : s.record repo = some rec := by
      rw [ProjectRun.record, ← hid]
      exact hget
    have hnone : ev.reports repo s = none := hreports (by rw [hrecord]; exact Option.some_ne_none _)
    refine ⟨⟨hI.own, hI.only, fun r hr => ?_, fun root hroot => ?_⟩, .rfl⟩
    · rcases List.mem_cons.mp hr with rfl | hr
      · exact ⟨hid, hcommon, r, hrecord, rfl⟩
      · exact hI.returned r hr
    · rw [hnone, Option.none_or] at hroot
      exact hI.reported root hroot
  | filed rec world hw hrec hsubject =>
    refine ⟨hI.filing hw hrec.id hrec.commonDir hrec.registeredAt (fun r hr => List.mem_cons.mp hr)
      fun root hroot => ?_,
      fun old hold => ⟨rec, hw.record hrec.id, hrec.registeredAt old hold, fun subject hs => ?_⟩⟩
    · rw [hrec.root]
      cases hreports : ev.reports repo s with
      | some root' =>
        rw [hreports] at hroot
        cases hroot
        rfl
      | none =>
        rw [hreports, Option.none_or] at hroot
        obtain ⟨old, hold, hsame⟩ := hI.reported root hroot
        rw [hold]
        exact hsame
    · rw [hsubject hcareful old hold] at hs
      cases hs
  | addressed cynapse project subject world hverb hmem hnone hw =>
    obtain ⟨hid, hcommon, rec, hrec, hat⟩ := hI.returned project hmem
    rw [Careful, hverb] at hcareful
    obtain ⟨hbare, hroot⟩ := hcareful hnone rec hrec
    have hold : ∀ old, s.record repo = some old → old = rec := fun old h => Option.some.inj (h.symm.trans hrec)
    refine ⟨hI.filing hw hid hcommon (fun old h => ?_) (fun r hr => .inr hr) fun root hreported => ?_,
      fun old h => ⟨_, hw.record hid, ?_, fun subject' hs => ?_⟩⟩
    · rw [hold old h]
      exact hat.symm
    · obtain ⟨old, h, hsame⟩ := hI.reported root hreported
      rw [hold old h] at hsame
      exact hroot.symm.trans hsame
    · rw [hold old h]
      exact hat.symm
    · rw [hold old h, hbare] at hs
      cases hs

theorem ProjectInv.converges (hI : ProjectInv repo t) (h : Follows repo s t) : Converges repo s t := by
  refine ⟨fun hreturned => ?_, h, hI.reported⟩
  obtain ⟨first, hfirst⟩ := List.exists_mem_of_ne_nil _ hreturned
  obtain ⟨-, -, rec, hrec, -⟩ := hI.returned first hfirst
  refine ⟨rec, hrec, fun rec' hrec' => ⟨fun hcommon => ?_, fun hsame => ?_⟩⟩
  · have hid := hI.only rec' hrec' hcommon
    rw [hid] at hrec'
    exact Option.some.inj (hrec'.symm.trans hrec)
  · rw [hsame]
    exact hI.own rec hrec

end

/-- The hub has no record under the id of the repository, and none with its common dir. -/
def Unregistered (repo : Repository) (w : World) : Prop :=
  w.projects.get repo.id = none ∧ ∀ rec, w.projects.get rec.id = some rec → rec.commonDir ≠ repo.commonDir

theorem project_converges (repo : Repository) (w : World) (hw : Unregistered repo w) (es es' : List ProjectEvent)
    (s t : ProjectRun) (hcareful : AllSteps (projectStep repo) (Careful repo) { world := w } (es ++ es'))
    (hs : exec (projectStep repo) { world := w } es = some s) (ht : exec (projectStep repo) s es' = some t) :
    Converges repo s t := by
  obtain ⟨hcareful, hcareful'⟩ := hcareful.split hs
  have hstart : ProjectInv repo { world := w } := by
    refine ⟨fun rec hrec => ?_, fun rec hrec hcommon => absurd hcommon (hw.2 rec hrec),
      fun rec hrec => ?_, fun root hroot => ?_⟩
    · exact absurd (hrec.symm.trans hw.1) (Option.some_ne_none _)
    · cases hrec
    · cases hroot
  have hI : ProjectInv repo s :=
    exec_inv_of (fun _ _ _ hI hc hstep => (project_step hI hc (projectStep_does hstep)).1) hstart hcareful hs
  have hrun : ProjectInv repo t ∧ Follows repo s t := by
    refine exec_inv_of (I := fun u => ProjectInv repo u ∧ Follows repo s u)
      (fun u ev u' hu hc hstep => ?_) ⟨hI, .rfl⟩ hcareful' ht
    obtain ⟨hI', hfollows⟩ := project_step hu.1 hc (projectStep_does hstep)
    exact ⟨hI', hu.2.trans hfollows⟩
  exact hrun.1.converges hrun.2

/-! ## A repository with a linked worktree -/

def checkouts : Git where
  exec args :=
    match args with
    | [_, _, _, _, "--git-common-dir"] => some "/r/.git"
    | [_, dir, _, _, "--git-dir"] => some (if dir = "/r" then "/r/.git" else "/r/.git/worktrees/w")
    | [_, dir, _, "--show-toplevel"] => some dir
    | _ => some "https://example.com/o/r.git"

def repository : Repository where
  sha256 text := if text = "/r/.git" then "2d09593ea5e01029fe8e13090254ff314ec9b66e26226a0a5d5d468c2b362f36" else ""
  commonDir := "/r/.git"

def answers (texts : List String) : List Choice := texts.map fun text => { text := some text }

def mark : Choice := {}

def registers (dir : String) (choices : List Choice) : ProjectEvent :=
  { ctx := { env := {} }, git := checkouts, verb := .register (some dir), choices }

def firstRegistration : ProjectEvent :=
  registers "/r" (answers ["/r/.git", "/r/.git"] ++ [mark, mark] ++ answers ["/r/.git", "/r", "/r/.git", "/r"] ++
    [{ ms := 1000 }, mark])

def nextRegistration : ProjectEvent :=
  registers "/r" (answers ["/r/.git", "/r/.git"] ++ [mark, mark] ++
    answers ["/r/.git", "/r", "/r/.git", "/r"] ++ [mark])

def linkedRegistration : ProjectEvent :=
  registers "/w" (answers ["/r/.git", "/r/.git"] ++ [mark, mark] ++
    answers ["/r/.git/worktrees/w", "/w", "/r/.git/worktrees/w"] ++ [mark])

def record : ProjectRecord :=
  { id := repository.id, name := "r", root := "/r", commonDir := "/r/.git", registeredAt := 1000 }

def addressing : ProjectEvent :=
  { ctx := { env := {} }, git := checkouts, verb := .address (.store fun _ => .ok none) record,
    choices := answers ["https://example.com/o/r.git", "R_1"] ++ [mark] }

theorem unregistered_empty : Unregistered repository {} := ⟨rfl, fun _ h => by cases h⟩

theorem project_converges_linked :
    ∃ s t, exec (projectStep repository) {} [firstRegistration, linkedRegistration] = some s ∧
    exec (projectStep repository) s [addressing] = some t ∧ Converges repository s t := by
  have hcareful : AllSteps (projectStep repository) (Careful repository) { world := {} }
      ([firstRegistration, linkedRegistration] ++ [addressing]) := by
    decide +kernel
  have hruns : (exec (projectStep repository) {} ([firstRegistration, linkedRegistration] ++ [addressing])).isSome := by
    decide +kernel
  obtain ⟨t, ht⟩ := Option.isSome_iff_exists.mp hruns
  obtain ⟨s, hs, ht⟩ := (exec_append_eq_some _).mp ht
  exact ⟨s, t, hs, ht, project_converges repository {} unregistered_empty _ _ s t hcareful hs ht⟩

/-- A registration after the addressing. -/
theorem project_forgets_subject : Unregistered repository {} ∧
    ∃ s t, exec (projectStep repository) {} [firstRegistration, addressing] = some s ∧
      exec (projectStep repository) s [nextRegistration] = some t ∧ ¬Converges repository s t := by
  have hbefore : (exec (projectStep repository) {} [firstRegistration, addressing]).map (fun s => s.record repository) =
      some (some { record with subject := some ⟨"gh", "R_1"⟩ }) := by
    decide +kernel
  have hafter : (exec (projectStep repository) {} ([firstRegistration, addressing] ++ [nextRegistration])).map
      (fun s => s.record repository) = some (some record) := by
    decide +kernel
  obtain ⟨t, ht, hrecord'⟩ := Option.map_eq_some_iff.mp hafter
  obtain ⟨s, hs, ht⟩ := (exec_append_eq_some _).mp ht
  rw [hs] at hbefore
  refine ⟨unregistered_empty, s, t, hs, ht, fun h => ?_⟩
  obtain ⟨rec, hrec, -, hsubject⟩ := h.follows _ (Option.some.inj hbefore)
  rw [hrecord'] at hrec
  cases hrec
  cases hsubject _ rfl

end Registration

end Cyberlegion
