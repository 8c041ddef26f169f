import Cyberlegion.LockSound

/-!
# Recovery of an abandoned lock

Every call that ever touched the lock is dead, and one new call runs alone. It gets
the lock exactly when the directory is gone or carries a complete `holder.json`: a
directory left without one (a crash between `mkdir` and the end of the holder
write, or between the two halves of a remove) reads as an unknown holder, which is
never grounds to steal, so the call waits out its deadline and throws.
-/

namespace Cyberlegion.Lock

open Runs

/-- Every call but `p` is dead or never started, and `p` has not started. -/
structure Abandoned (s : St) (p : Proc) : Prop where
  new : s.pc p = .fresh
  dead : ∀ q, q ≠ p → s.pc q = .fresh ∨ s.pc q = .crashed

/-- The lock directory is gone, or its `holder.json` parses. -/
def Readable (s : St) : Prop := s.fs.lockDir = none ∨ (readHolder s.fs .lock).isSome

def solo (p : Proc) (env : Nat → Env) (n : Nat) : List Event :=
  (List.range n).map fun i => ⟨p, .step (env i)⟩

/-- `p` calls `acquireLock` and takes `n` steps with nothing else running. -/
def acquireSolo (p : Proc) (timeoutMs now : Int) (env : Nat → Env) (n : Nat) : List Event :=
  ⟨p, .acquire timeoutMs now⟩ :: solo p env n

theorem solo_succ (p : Proc) (env : Nat → Env) (n : Nat) :
    solo p env (n + 1) = ⟨p, .step (env 0)⟩ :: solo p (fun i => env (i + 1)) n := by
  simp only [solo, List.range_succ_eq_map, List.map_cons, List.map_map]
  rfl

section
variable {pid : Proc → Nat}

/-! ## Who a recorded pid belongs to -/

/-- Every complete `holder.json` names a call that has started. -/
structure Named (pid : Proc → Nat) (s : St) : Prop where
  content : ∀ f h, s.fs.content f = .json h → ∃ q, h.pid = pid q ∧ s.pc q ≠ .fresh
  writing : ∀ q f h, s.pc q = .writeHolder f h → h.pid = pid q

theorem named_init : Named pid init := ⟨fun _ _ h => (nomatch h), fun _ _ _ h => (nomatch h)⟩

theorem openHolder_content {fs fs' : Fs} {f g : File} {h : Holder} (ho : openHolder fs = some (f, fs'))
    (hg : fs'.content g = .json h) : fs.content g = .json h := by
  have ne : ∀ k, Function.update fs.content k .empty g = .json h → fs.content g = .json h := fun k hk => by
    rcases eq_or_ne g k with rfl | hne
    · simp at hk
    · rwa [Function.update_of_ne hne] at hk
  unfold openHolder at ho
  split at ho
  · cases ho
  · split at ho <;> (cases ho; exact ne _ hg)

theorem mkdirLock_content {fs fs' : Fs} (h : mkdirLock fs = some fs') : fs'.content = fs.content := by
  unfold mkdirLock at h
  split at h <;> cases h
  rfl

theorem renameToGrave_content {fs fs' : Fs} {p : Proc} (h : renameToGrave fs p = some fs') :
    fs'.content = fs.content := by
  unfold renameToGrave at h
  split at h <;> cases h
  rfl

theorem renameBack_content {fs fs' : Fs} {p : Proc} (h : renameBack fs p = some fs') :
    fs'.content = fs.content := by
  unfold renameBack at h
  split at h
  · cases h
  · simp only at h
    split at h
    · cases h; rfl
    · split at h <;> cases h
      rfl

theorem clear_content (fs : Fs) (pl : Place) : (fs.clear pl).content = fs.content := by
  cases pl <;> rfl

theorem fsStep_content {s s' : St} {p : Proc} {env : Env} (h : fsStep pid s p env = some s')
    {f : File} {hd : Holder} (hf : s'.fs.content f = .json hd) :
    s.fs.content f = .json hd ∨ s.pc p = .writeHolder f hd := by
  have keep : ∀ {fs c}, fs.content = s.fs.content → s.move fs p c = s' → s.fs.content f = .json hd := by
    rintro fs c he rfl; rw [← he]; exact hf
  unfold fsStep at h
  cases hp : s.pc p with
  | mkdir dl =>
    simp only [hp] at h
    split at h <;> rw [Option.some.injEq] at h
    · rename_i hm; exact .inl (keep (mkdirLock_content hm) h)
    · subst h; exact .inl hf
  | openHolder =>
    simp only [hp] at h
    split at h <;> cases h
    · rename_i ho; exact .inl (openHolder_content ho hf)
    · exact .inl hf
  | writeHolder g hg =>
    simp only [hp, Option.some.injEq] at h; subst h
    simp only [St.move, writeHolder] at hf
    rcases eq_or_ne f g with rfl | hne
    · rw [Function.update_self] at hf
      split at hf <;> cases hf
      exact .inr rfl
    · rw [Function.update_of_ne hne] at hf; exact .inl hf
  | capture dl =>
    simp only [hp] at h
    split at h <;> rw [Option.some.injEq] at h
    · rename_i hr; exact .inl (keep (renameToGrave_content hr) h)
    · subst h; exact .inl hf
  | restore dl =>
    simp only [hp] at h
    split at h <;> rw [Option.some.injEq] at h
    · rename_i hr; exact .inl (keep (renameBack_content hr) h)
    · subst h; exact .inl hf
  | rmFiles pl k =>
    simp only [hp] at h
    split at h <;> rw [Option.some.injEq] at h
    · subst h; exact .inl hf
    · subst h; exact .inl hf
  | rmDir pl k =>
    simp only [hp] at h
    split at h
    · cases h; exact .inl hf
    · split at h <;> rw [Option.some.injEq] at h
      · exact .inl (keep (clear_content _ _) h)
      · subst h; exact .inl hf
  | readHolder dl | readGrave dl =>
    simp only [hp] at h
    split at h <;> (cases h; exact .inl hf)
  | probeHolder n dl | probeGrave n dl | wait dl =>
    simp only [hp, Option.some.injEq] at h; subst h; exact .inl hf
  | _ => simp [hp] at h

theorem fsStep_started {s s' : St} {p : Proc} {env : Env} (h : fsStep pid s p env = some s') :
    s'.pc p ≠ .fresh ∧ ∀ f hd, s'.pc p = .writeHolder f hd → hd.pid = pid p := by
  have pcs : ∀ k : After, k.pc ≠ .fresh ∧ ∀ f hd, k.pc = .writeHolder f hd → hd.pid = pid p := by
    intro k; cases k <;> simp [After.pc]
  unfold fsStep at h
  repeat' split at h
  all_goals first | (cases h; done) | rw [Option.some.injEq] at h; subst h
  all_goals simp only [St.move, St.goto, Function.update_self]
  all_goals first
    | exact pcs _
    | simp

theorem step_started {s s' : St} {e : Event} (h : step pid s e = some s') :
    s'.pc e.proc ≠ .fresh ∧ ∀ f hd, s'.pc e.proc = .writeHolder f hd → hd.pid = pid e.proc := by
  cases hact : e.act with
  | step env => simp only [step, hact] at h; exact fsStep_started h
  | _ =>
    simp only [step, hact] at h
    split at h <;> cases h
    simp [St.goto]

theorem step_content {s s' : St} {e : Event} (h : step pid s e = some s') {f : File} {hd : Holder}
    (hf : s'.fs.content f = .json hd) : s.fs.content f = .json hd ∨ s.pc e.proc = .writeHolder f hd := by
  cases hact : e.act with
  | step env => simp only [step, hact] at h; exact fsStep_content h hf
  | _ =>
    simp only [step, hact] at h
    split at h <;> cases h
    exact .inl hf

theorem named_step (s : St) (e : Event) (s' : St) (hn : Named pid s) (h : step pid s e = some s') :
    Named pid s' := by
  have hst := step_started h
  have start : ∀ q, s.pc q ≠ .fresh → s'.pc q ≠ .fresh := by
    intro q hq
    rcases eq_or_ne q e.proc with rfl | hne
    · exact hst.1
    · rwa [pc_other hne h]
  refine ⟨fun f hd hf => ?_, fun q f hd hq => ?_⟩
  · rcases step_content h hf with hf | hw
    · obtain ⟨q, he, hq⟩ := hn.content f hd hf
      exact ⟨q, he, start q hq⟩
    · exact ⟨e.proc, hn.writing _ f hd hw, hst.1⟩
  · rcases eq_or_ne q e.proc with rfl | hne
    · exact hst.2 f hd hq
    · rw [pc_other hne h] at hq; exact hn.writing q f hd hq

/-! ## A call that runs alone -/

/-- `p`, running alone, comes to a program counter with `P`. -/
def Comes (pid : Proc → Nat) (s : St) (p : Proc) (env : Nat → Env) (P : Pc → Prop) : Prop :=
  ∃ n s', exec (step pid) s (solo p env n) = some s' ∧ P (s'.pc p)

theorem Comes.now {s : St} {p : Proc} {env : Nat → Env} {P : Pc → Prop} (h : P (s.pc p)) :
    Comes pid s p env P := ⟨0, s, rfl, h⟩

theorem Comes.step {s t : St} {p : Proc} {env : Nat → Env} {P : Pc → Prop}
    (hs : fsStep pid s p (env 0) = some t) (h : Comes pid t p (fun i => env (i + 1)) P) :
    Comes pid s p env P := by
  obtain ⟨n, u, hn, hu⟩ := h
  refine ⟨n + 1, u, ?_, hu⟩
  rw [solo_succ, exec_cons_eq_some]
  exact ⟨t, hs, hn⟩

theorem comes_held_of_empty {s : St} {p : Proc} {env : Nat → Env} {dl : Int} (hp : s.pc p = .mkdir dl)
    (hl : s.fs.lockDir = none) : Comes pid s p env (· = .held) := by
  refine .step (t := s.move { s.fs with lockDir := some s.fs.nextDir, nextDir := s.fs.nextDir + 1 } p .openHolder)
    (by simp [fsStep, hp, mkdirLock, hl]) ?_
  cases hf : s.fs.holderFile s.fs.nextDir with
  | none =>
    refine .step (by simp [fsStep, St.move, openHolder, hf]; rfl) ?_
    refine .step (by simp [fsStep]; rfl) (.now ?_)
    simp [St.move]
  | some f =>
    refine .step (by simp [fsStep, St.move, openHolder, hf]; rfl) ?_
    refine .step (by simp [fsStep]; rfl) (.now ?_)
    simp [St.move]

theorem heldBy_dead {self n : Nat} {kill : Nat → KillResult} (hne : n ≠ self) (hk : kill n = .esrch) :
    heldByLiveOrUnknownPid self kill n = false := by
  simp [heldByLiveOrUnknownPid, probeProcess, hne, hk]

theorem comes_held_of_dead {s : St} {p : Proc} {env : Nat → Env} {dl : Int} {d : Dir} {h : Holder}
    (hp : s.pc p = .mkdir dl) (hl : s.fs.lockDir = some d) (hr : readHolder s.fs .lock = some h)
    (hne : h.pid ≠ pid p) (hk : ∀ i, (env i).kill h.pid = .esrch) : Comes pid s p env (· = .held) := by
  have hdead : ∀ i, heldByLiveOrUnknownPid (pid p) (env i).kill h.pid = false := fun i => heldBy_dead hne (hk i)
  let grave := Function.update s.fs.grave p (some d)
  -- what the capture takes is what was read, so the second reading agrees with the first
  have hr' : readHolder { s.fs with lockDir := none, grave := grave } (.grave p) = some h := by
    simpa [readHolder, Fs.at, hl, grave] using hr
  refine .step (t := s.goto p (.readHolder dl)) (by simp [fsStep, hp, mkdirLock, hl]) ?_
  refine .step (t := s.goto p (.probeHolder h.pid dl)) (by simp [fsStep, St.goto, hr]) ?_
  refine .step (t := s.goto p (.capture dl)) (by simp [fsStep, St.goto, hdead]) ?_
  refine .step (t := s.move { s.fs with lockDir := none, grave := grave } p (.readGrave dl))
    (by simp [fsStep, St.goto, St.move, renameToGrave, hl, grave]) ?_
  refine .step (t := s.move { s.fs with lockDir := none, grave := grave } p (.probeGrave h.pid dl))
    (by simp [fsStep, St.goto, St.move, hr']) ?_
  refine .step (t := s.move { s.fs with lockDir := none, grave := grave } p (.rmFiles (.grave p) (.reclaimed dl)))
    (by simp [fsStep, St.goto, St.move, hdead]) ?_
  refine .step (t := s.move
      { s.fs with lockDir := none, grave := grave, holderFile := Function.update s.fs.holderFile d none }
      p (.rmDir (.grave p) (.reclaimed dl)))
    (by simp [fsStep, St.move, Fs.at, grave]) ?_
  refine .step (t := s.move
      { s.fs with
        lockDir := none, grave := Function.update grave p none
        holderFile := Function.update s.fs.holderFile d none } p (.mkdir dl))
    (by simp [fsStep, St.move, Fs.at, Fs.clear, After.pc, grave]) ?_
  have hm : (Function.update s.pc p (.mkdir dl)) p = .mkdir dl := Function.update_self ..
  exact comes_held_of_empty hm rfl

/-! ## A directory without a readable holder -/

/-- Where a call stands that found a directory whose holder it cannot read. -/
def Pc.Stuck (dl : Int) (c : Pc) : Prop :=
  c = .mkdir dl ∨ c = .readHolder dl ∨ c = .wait dl ∨ c = .threw .timeout

/-- A stuck call only reads: the next step, if it has one, leaves the filesystem alone. -/
theorem stuck_step {s s' : St} {p : Proc} {dl : Int} {env : Env} (hu : ¬ Readable s)
    (hp : (s.pc p).Stuck dl) (h : fsStep pid s p env = some s') : s'.fs = s.fs ∧ (s'.pc p).Stuck dl := by
  rw [Readable, not_or] at hu
  obtain ⟨d, hd⟩ := Option.ne_none_iff_exists'.mp hu.1
  have hr : readHolder s.fs .lock = none := by simpa using hu.2
  rcases hp with hp | hp | hp | hp
  · simp only [fsStep, hp, mkdirLock, hd, Option.some.injEq] at h
    subst h; simp [St.goto, Pc.Stuck]
  · simp only [fsStep, hp, hr, Option.some.injEq] at h
    subst h; simp [St.goto, Pc.Stuck]
  · simp only [fsStep, hp, Option.some.injEq] at h
    subst h
    refine ⟨rfl, ?_⟩
    simp only [St.goto, Function.update_self]
    split <;> simp [Pc.Stuck]
  · simp [fsStep, hp] at h

theorem readable_congr {s s' : St} (h : s'.fs = s.fs) : Readable s' ↔ Readable s := by
  rw [Readable, Readable, h]

theorem stuck_solo {p : Proc} {dl : Int} {env : Nat → Env} : ∀ {n : Nat} {s s' : St}, ¬ Readable s →
    (s.pc p).Stuck dl → exec (step pid) s (solo p env n) = some s' → ¬ Readable s' ∧ (s'.pc p).Stuck dl := by
  intro n
  induction n generalizing env with
  | zero => intro s s' hu hp h; cases h; exact ⟨hu, hp⟩
  | succ n ih =>
    intro s s' hu hp h
    rw [solo_succ, exec_cons_eq_some] at h
    obtain ⟨t, ht, h⟩ := h
    obtain ⟨hfs, hpt⟩ := stuck_step hu hp ht
    exact ih (fun hr => hu ((readable_congr hfs).mp hr)) hpt h

theorem comes_timeout_of_late {s : St} {p : Proc} {dl : Int} {env : Nat → Env} (hu : ¬ Readable s)
    (hp : (s.pc p).Stuck dl) (hlate : ∀ i, dl < (env i).now) : Comes pid s p env (· = .threw .timeout) := by
  rw [Readable, not_or] at hu
  obtain ⟨d, hd⟩ := Option.ne_none_iff_exists'.mp hu.1
  have hr : readHolder s.fs .lock = none := by simpa using hu.2
  have late : ∀ {t : St} {env : Nat → Env}, t.pc p = .wait dl → (∀ i, dl < (env i).now) →
      Comes pid t p env (· = .threw .timeout) := fun {t env} ht hl =>
    .step (t := t.goto p (.threw .timeout)) (by simp [fsStep, ht, hl 0]) (.now (by simp [St.goto]))
  rcases hp with hp | hp | hp | hp
  · refine .step (t := s.goto p (.readHolder dl)) (by simp [fsStep, hp, mkdirLock, hd]) ?_
    refine .step (t := s.goto p (.wait dl)) (by simp [fsStep, St.goto, hr]) ?_
    exact late (by simp [St.goto]) fun i => hlate _
  · refine .step (t := s.goto p (.wait dl)) (by simp [fsStep, St.goto, hp, hr]) ?_
    exact late (by simp [St.goto]) fun i => hlate _
  · exact late hp hlate
  · exact .now hp

theorem comes_timeout {p : Proc} {dl : Int} : ∀ {N : Nat} {s : St} {env : Nat → Env}, ¬ Readable s →
    (s.pc p).Stuck dl → (∀ i, N ≤ i → dl < (env i).now) → Comes pid s p env (· = .threw .timeout) := by
  intro N
  induction N with
  | zero => intro s env hu hp hlate; exact comes_timeout_of_late hu hp fun i => hlate i (Nat.zero_le i)
  | succ N ih =>
    intro s env hu hp hlate
    cases hs : fsStep pid s p (env 0) with
    | none =>
      -- only a call that has thrown has no next step
      rcases hp with hp | hp | hp | hp
      · cases hm : mkdirLock s.fs <;> simp [fsStep, hp, hm] at hs
      · cases hr : readHolder s.fs .lock <;> simp [fsStep, hp, hr] at hs
      · simp [fsStep, hp] at hs
      · exact .now hp
    | some t =>
      obtain ⟨hfs, hpt⟩ := stuck_step hu hp hs
      exact .step hs (ih (fun hr => hu ((readable_congr hfs).mp hr)) hpt fun i hi => hlate (i + 1) (by omega))

theorem acquireSolo_start {s t : St} {p : Proc} {timeoutMs now : Int} {env : Nat → Env} {n : Nat}
    (hp : s.pc p = .fresh) : exec (step pid) s (acquireSolo p timeoutMs now env n) = some t ↔
      exec (step pid) (s.goto p (.mkdir (now + timeoutMs))) (solo p env n) = some t := by
  rw [acquireSolo, exec_cons_eq_some]
  simp [step, hp, Pc.mayAcquire]

theorem stuck_goto (s : St) (p : Proc) (dl : Int) : ((s.goto p (.mkdir dl)).pc p).Stuck dl :=
  .inl (Function.update_self ..)

theorem never_held_of_unreadable {s t : St} {p : Proc} {timeoutMs now : Int} {env : Nat → Env} {n : Nat}
    (hp : s.pc p = .fresh) (hu : ¬ Readable s)
    (h : exec (step pid) s (acquireSolo p timeoutMs now env n) = some t) : t.pc p ≠ .held := by
  intro hheld
  have hst := (stuck_solo (s := s.goto p _) hu (stuck_goto s p _) ((acquireSolo_start hp).mp h)).2
  simp [hheld, Pc.Stuck] at hst

end

/-- **Recovery.** After any run whose calls are all dead, a new call that runs alone
gets the lock if the lock directory is gone or carries a complete holder. Otherwise
it never gets it, and throws `LockTimeoutError` once the clock has passed its deadline. -/
theorem recovery_of_abandoned (pid : Proc → Nat) (hinj : Function.Injective pid) {es : List Event} {s : St}
    (h : exec (step pid) init es = some s) {p : Proc} (hs : Abandoned s p) (timeoutMs now : Int)
    (env : Nat → Env) (hk : ∀ i q, s.pc q = .crashed → (env i).kill (pid q) = .esrch) :
    (Readable s → ∃ n t, exec (step pid) s (acquireSolo p timeoutMs now env n) = some t ∧ t.pc p = .held) ∧
    (¬ Readable s →
      (∀ n t, exec (step pid) s (acquireSolo p timeoutMs now env n) = some t → t.pc p ≠ .held) ∧
      ((∃ N, ∀ i, N ≤ i → now + timeoutMs < (env i).now) →
        ∃ n t, exec (step pid) s (acquireSolo p timeoutMs now env n) = some t ∧ t.pc p = .threw .timeout)) := by
  have hp₁ : (s.goto p (.mkdir (now + timeoutMs))).pc p = .mkdir (now + timeoutMs) := Function.update_self ..
  constructor
  · simp only [acquireSolo_start hs.new]
    rintro (hl | hr)
    · exact comes_held_of_empty hp₁ hl
    · obtain ⟨hd, hr⟩ := Option.isSome_iff_exists.mp hr
      obtain ⟨d, hl⟩ : ∃ d, s.fs.lockDir = some d := by
        cases hl : s.fs.lockDir with
        | none => simp [readHolder, Fs.at, hl] at hr
        | some d => exact ⟨d, rfl⟩
      obtain ⟨f, hf⟩ : ∃ f, s.fs.content f = .json hd := by
        simp only [readHolder] at hr
        repeat' split at hr
        all_goals first | cases hr; done | skip
        rename_i hc
        cases hr; exact ⟨_, hc⟩
      -- the recorded pid is that of a started call, so of a dead one other than `p`
      obtain ⟨q, hq, hst⟩ := (exec_inv named_step named_init h).content f hd hf
      have hqp : q ≠ p := by rintro rfl; exact hst hs.new
      have hdead : s.pc q = .crashed := (hs.dead q hqp).resolve_left hst
      refine comes_held_of_dead hp₁ hl hr ?_ fun i => ?_
      · rw [hq]; exact fun he => hqp (hinj he)
      · rw [hq]; exact hk i q hdead
  · intro hu
    refine ⟨fun n t => never_held_of_unreadable hs.new hu, fun ⟨N, hN⟩ => ?_⟩
    simp only [acquireSolo_start hs.new]
    exact comes_timeout hu (stuck_goto s p _) hN

/-! ## Two crash points

Call 0 crashes while it holds, and right after its `mkdir`. -/

section Debris

theorem mem_crashAfter {n : Nat} : ∀ e ∈ crashAfter n, e.proc = 0 := by
  intro e he
  simp only [crashAfter, List.cons_append, List.mem_cons, List.mem_append, List.not_mem_nil, or_false] at he
  rcases he with rfl | he | rfl
  · rfl
  · rw [mem_steps he]
  · rfl

theorem pc_fresh_of_run {pid : Proc → Nat} {es : List Event} {s : St} {q : Proc} (hes : ∀ e ∈ es, q ≠ e.proc)
    (h : exec (step pid) init es = some s) : s.pc q = .fresh := by
  have keep : ∀ {s₀ : St}, s₀.pc q = .fresh → exec (step pid) s₀ es = some s → s.pc q = .fresh := by
    clear h
    induction es with
    | nil => intro s₀ h₀ h; cases h; exact h₀
    | cons e es ih =>
      intro s₀ h₀ h
      obtain ⟨s₁, h₁, h⟩ := (exec_cons_eq_some _).mp h
      exact ih (fun e' he => hes e' (.tail _ he)) (by rw [pc_other (hes e (.head _)) h₁]; exact h₀) h
  exact keep rfl h

theorem crashAfter_abandoned {n : Nat} {s : St} (h : exec (step racePid) init (crashAfter n) = some s)
    (h0 : s.pc 0 = .crashed) : Abandoned s 1 ∧ ∀ q, s.pc q = .crashed → zeroDead.kill (racePid q) = .esrch := by
  have others : ∀ q, q ≠ 0 → s.pc q = .fresh := fun q hq =>
    pc_fresh_of_run (fun e he => by rw [mem_crashAfter e he]; exact hq) h
  refine ⟨⟨others 1 (by decide), fun q _ => ?_⟩, fun q hq => ?_⟩
  · rcases eq_or_ne q 0 with rfl | hq
    · exact .inr h0
    · exact .inl (others q hq)
  · rcases eq_or_ne q 0 with rfl | hne
    · rfl
    · rw [others q hne] at hq; cases hq

/-- The debris of a crash right after `mkdir`: a directory without a holder. -/
theorem crashAfter_mkdir : ∃ s, exec (step racePid) init (crashAfter 1) = some s ∧ s.pc 0 = .crashed ∧
    ¬ Readable s := by
  have h : (exec (step racePid) init (crashAfter 1)).map (fun s => (s.pc 0, s.fs.lockDir, readHolder s.fs .lock)) =
      some (.crashed, some 0, none) := by decide
  obtain ⟨s, hs, hv⟩ := Option.map_eq_some_iff.mp h
  simp only [Prod.mk.injEq] at hv
  exact ⟨s, hs, hv.1, by simp [Readable, hv.2]⟩

end Debris

theorem recovery_of_crashed_holder : ∃ s, exec (step racePid) init (crashAfter 3) = some s ∧
    ∃ n t, exec (step racePid) s (acquireSolo 1 5000 10 (fun _ => zeroDead) n) = some t ∧ t.pc 1 = .held := by
  have h : (exec (step racePid) init (crashAfter 3)).map (fun s => (s.pc 0, (readHolder s.fs .lock).isSome)) =
      some (.crashed, true) := by decide
  obtain ⟨s, hs, hv⟩ := Option.map_eq_some_iff.mp h
  rw [Prod.mk.injEq] at hv
  obtain ⟨hab, hk⟩ := crashAfter_abandoned hs hv.1
  exact ⟨s, hs, (recovery_of_abandoned racePid racePid_injective hs hab 5000 10 _ fun _ => hk).1 (.inr hv.2)⟩

/-- Not every abandoned lock is recoverable: a crash right after `mkdir` leaves a
directory that no later call ever gets past. -/
theorem not_always_recoverable : ¬ ∀ (pid : Proc → Nat), Function.Injective pid → ∀ (es : List Event) (s : St),
    exec (step pid) init es = some s → AllSteps (step pid) (KillSound pid) init es →
    ∀ (p : Proc), Abandoned s p → ∀ (timeoutMs now : Int), 0 < timeoutMs → ∀ (env : Nat → Env),
    (∀ i q, s.pc q = .crashed → (env i).kill (pid q) = .esrch) →
    ∃ n t, exec (step pid) s (acquireSolo p timeoutMs now env n) = some t ∧ t.pc p = .held := by
  intro h
  obtain ⟨s, hs, h0, hu⟩ := crashAfter_mkdir
  obtain ⟨hab, hk⟩ := crashAfter_abandoned hs h0
  obtain ⟨n, t, ht, hheld⟩ := h racePid racePid_injective _ s hs (killSound_of_no_esrch crashAfter_alive) 1 hab
    5000 10 (by decide) (fun _ => zeroDead) fun _ => hk
  exact never_held_of_unreadable hab.new hu ht hheld

end Cyberlegion.Lock
