import Cyberlegion.Lock

/-!
# Mutual exclusion of the store lock

A call owns the lock directory from its `mkdir` to the end of its `release`. At
most one call owns, as long as no `tryReclaimStale` renames the directory away
from under an owner; nothing in the code prevents that rename, since the holder it
read as dead may be gone by then.
-/

namespace Cyberlegion.Lock

open Runs

def Pc.Owns : Pc → Prop
  | .openHolder | .writeHolder .. | .held => True
  | .rmFiles .lock _ | .rmDir .lock _ => True
  | _ => False

instance : DecidablePred Pc.Owns
  | .openHolder | .writeHolder .. | .held | .rmFiles .lock _ | .rmDir .lock _ => isTrue trivial
  | .fresh | .mkdir _ | .readHolder _ | .probeHolder .. | .capture _ | .readGrave _ | .probeGrave ..
  | .restore _ | .rmFiles (.grave _) _ | .rmDir (.grave _) _ | .wait _ | .released | .threw _
  | .crashed => isFalse id

def Pc.isCapture : Pc → Bool
  | .capture _ => true
  | _ => false

def Act.isStep : Act → Bool
  | .step _ => true
  | _ => false

/-- The rename of `tryReclaimStale` takes the directory at the lock path away. -/
def Captures (s : St) (e : Event) : Prop :=
  (s.pc e.proc).isCapture ∧ e.act.isStep ∧ s.fs.lockDir ≠ none

instance (s : St) (e : Event) : Decidable (Captures s e) :=
  inferInstanceAs (Decidable (_ ∧ _ ∧ _))

/-- No `tryReclaimStale` renames the lock directory away between the `mkdir` of a
live call and the end of its release. -/
def NoLiveCapture (s : St) (e : Event) : Prop := Captures s e → ∀ q, ¬ (s.pc q).Owns

variable {pid : Proc → Nat}

theorem After.pc_not_owns (k : After) : ¬ k.pc.Owns := by
  cases k <;> exact id

/-- What one filesystem step of `p` does to the ownership of the lock directory:
a `mkdir` that wins takes it, and every other step takes nothing and leaves the lock
path empty only where it was empty, where it captures, or where an owner ends. -/
def OwnsStep (s s' : St) (p : Proc) : Prop :=
  (s.fs.lockDir = none ∧ s'.fs.lockDir ≠ none) ∨
  (((s'.pc p).Owns → (s.pc p).Owns) ∧
    (s'.fs.lockDir = none → s.fs.lockDir = none ∨ (s.pc p).isCapture ∨ ((s.pc p).Owns ∧ ¬ (s'.pc p).Owns)))

theorem ownsStep_goto {s : St} {p : Proc} {c : Pc} (hc : c.Owns → (s.pc p).Owns) :
    OwnsStep s (s.goto p c) p :=
  .inr ⟨fun ho => hc (by simpa [St.goto] using ho), .inl⟩

theorem ownsStep_move {s : St} {fs : Fs} {p : Proc} {c : Pc} (hc : c.Owns → (s.pc p).Owns)
    (hl : fs.lockDir = none → s.fs.lockDir = none) : OwnsStep s (s.move fs p c) p :=
  .inr ⟨fun ho => hc (by simpa [St.move] using ho), fun hn => .inl (hl hn)⟩

theorem openHolder_lockDir {fs fs' : Fs} {f : File} (h : openHolder fs = some (f, fs')) :
    fs'.lockDir = fs.lockDir := by
  unfold openHolder at h
  split at h
  · cases h
  · split at h <;> (cases h; rfl)

theorem renameBack_lockDir {fs fs' : Fs} {p : Proc} (h : renameBack fs p = some fs') : fs'.lockDir ≠ none := by
  unfold renameBack at h
  split at h
  · cases h
  · simp only at h
    split at h
    · cases h; simp
    · split at h <;> cases h
      simp

theorem fsStep_owns {s s' : St} {p : Proc} {env : Env} (h : fsStep pid s p env = some s') : OwnsStep s s' p := by
  unfold fsStep at h
  cases hp : s.pc p with
  | mkdir dl =>
    simp only [hp, mkdirLock] at h
    cases hl : s.fs.lockDir with
    | none => simp only [hl, Option.some.injEq] at h; subst h; exact .inl ⟨hl, by simp [St.move]⟩
    | some d => simp only [hl, Option.some.injEq] at h; subst h; exact ownsStep_goto fun ho => ho.elim
  | openHolder =>
    simp only [hp] at h
    split at h
    · rename_i f fs ho
      cases h
      exact ownsStep_move (fun _ => by rw [hp]; trivial) (openHolder_lockDir ho ▸ id)
    · cases h; exact ownsStep_goto fun ho => ho.elim
  | writeHolder f hd =>
    simp only [hp, Option.some.injEq] at h; subst h
    exact ownsStep_move (fun _ => by rw [hp]; trivial) id
  | readHolder dl | readGrave dl =>
    simp only [hp] at h
    split at h <;> (cases h; exact ownsStep_goto fun ho => ho.elim)
  | probeHolder n dl | probeGrave n dl =>
    simp only [hp, Option.some.injEq] at h; subst h
    refine ownsStep_goto fun ho => ?_
    split at ho <;> exact ho.elim
  | capture dl =>
    simp only [hp] at h
    split at h <;> cases h
    · exact .inr ⟨fun ho => by simp [St.move, Pc.Owns] at ho, fun _ => .inr (.inl (by rw [hp]; rfl))⟩
    · exact ownsStep_goto fun ho => ho.elim
  | restore dl =>
    simp only [hp] at h
    split at h <;> cases h
    · rename_i fs hr
      exact ownsStep_move (fun ho => ho.elim) fun hn => absurd hn (renameBack_lockDir hr)
    · exact ownsStep_goto fun ho => ho.elim
  | rmFiles pl k =>
    simp only [hp] at h
    split at h <;> cases h
    · exact ownsStep_goto fun ho => absurd ho k.pc_not_owns
    · refine ownsStep_move (fun ho => ?_) id
      rw [hp]; cases pl <;> exact ho
  | rmDir pl k =>
    simp only [hp] at h
    split at h
    · cases h; exact ownsStep_goto fun ho => absurd ho k.pc_not_owns
    · split at h <;> cases h
      · refine .inr ⟨fun ho => absurd (by simpa [St.move] using ho) k.pc_not_owns, fun hn => ?_⟩
        cases pl with
        | lock => exact .inr (.inr ⟨by rw [hp]; trivial, by simpa [St.move] using k.pc_not_owns⟩)
        | grave q => exact .inl hn
      · refine ownsStep_goto fun ho => ?_
        rw [hp]
        split at ho
        · cases pl <;> exact ho
        · exact ho.elim
  | wait dl =>
    simp only [hp, Option.some.injEq] at h; subst h
    refine ownsStep_goto fun ho => ?_
    split at ho <;> exact ho.elim
  | _ => simp [hp] at h

/-! ## The invariant -/

/-- At most one call owns, and the lock path is not empty while one does. -/
structure Excl (s : St) : Prop where
  unique : ∀ p q, (s.pc p).Owns → (s.pc q).Owns → p = q
  present : ∀ p, (s.pc p).Owns → s.fs.lockDir ≠ none

theorem excl_of_no_owner {s : St} (h : ∀ q, ¬ (s.pc q).Owns) : Excl s :=
  ⟨fun p _ hp => absurd hp (h p), fun p hp => absurd hp (h p)⟩

theorem excl_init : Excl init := excl_of_no_owner fun _ h => h

/-- A step of a call that owns nothing afterwards, or owned before, keeps `Excl`
as long as it leaves the lock path to the other owners. -/
theorem Excl.update {s s' : St} {p : Proc} {c : Pc} (hi : Excl s) (hc : s'.pc = Function.update s.pc p c)
    (ho : c.Owns → (s.pc p).Owns)
    (hl : s'.fs.lockDir = none → s.fs.lockDir = none ∨ ((s.pc p).Owns ∧ ¬ c.Owns)) : Excl s' := by
  have back : ∀ q, (s'.pc q).Owns → (s.pc q).Owns := by
    intro q hq
    rw [hc] at hq
    rcases eq_or_ne q p with rfl | hne
    · rw [Function.update_self] at hq; exact ho hq
    · rwa [Function.update_of_ne hne] at hq
  refine ⟨fun a b ha hb => hi.unique a b (back a ha) (back b hb), fun q hq hn => ?_⟩
  rcases hl hn with hs | ⟨hp, hcn⟩
  · exact hi.present q (back q hq) hs
  · have hqp : q = p := hi.unique q p (back q hq) hp
    rw [hc, hqp, Function.update_self] at hq
    exact hcn hq

theorem Excl.take {s s' : St} {p : Proc} {c : Pc} (hi : Excl s) (hc : s'.pc = Function.update s.pc p c)
    (hs : s.fs.lockDir = none) (hs' : s'.fs.lockDir ≠ none) : Excl s' := by
  have only : ∀ q, (s'.pc q).Owns → q = p := by
    intro q hq
    by_contra hne
    rw [hc, Function.update_of_ne hne] at hq
    exact hi.present q hq hs
  exact ⟨fun a b ha hb => (only a ha).trans (only b hb).symm, fun _ _ => hs'⟩

theorem excl_step (s : St) (e : Event) (s' : St) (hi : Excl s) (hn : NoLiveCapture s e)
    (h : step pid s e = some s') : Excl s' := by
  obtain ⟨p, act⟩ := e
  cases act with
  | acquire t now =>
    simp only [step] at h
    split at h
    · cases h; exact hi.update rfl (fun ho => ho.elim) .inl
    · cases h
  | step env =>
    have h' : fsStep pid s p env = some s' := h
    obtain ⟨c, hc⟩ := fsStep_pc h'
    have hcp : s'.pc p = c := by rw [hc, Function.update_self]
    rcases fsStep_owns h' with ⟨hs, hs'⟩ | ⟨ho, hl⟩
    · exact hi.take hc hs hs'
    rw [hcp] at ho hl
    by_cases hcap : Captures s ⟨p, .step env⟩
    · -- no live call owns the captured directory, so there is no owner left to protect
      have free := hn hcap
      refine excl_of_no_owner fun q hq => ?_
      rw [hc] at hq
      rcases eq_or_ne q p with rfl | hne
      · rw [Function.update_self] at hq; exact free q (ho hq)
      · rw [Function.update_of_ne hne] at hq; exact free q hq
    · refine hi.update hc ho fun hnone => ?_
      rcases hl hnone with hs | hdl | hend
      · exact .inl hs
      · by_contra hcon
        exact hcap ⟨hdl, rfl, fun hs => hcon (.inl hs)⟩
      · exact .inr hend
  | release =>
    simp only [step] at h
    split at h
    · rename_i hh
      cases h; exact hi.update rfl (fun _ => by rw [hh]; trivial) .inl
    · cases h
  | crash =>
    simp only [step] at h
    split at h
    · cases h
    · cases h; exact hi.update rfl (fun ho => ho.elim) .inl

/-- **Mutual exclusion.** In a run in which no `tryReclaimStale` renames the lock
directory away from a live owner, at most one call has returned and not released. -/
theorem exclusive_of_no_live_capture (pid : Proc → Nat) {es : List Event} {s : St}
    (h : exec (step pid) init es = some s) (hn : AllSteps (step pid) NoLiveCapture init es)
    {p q : Proc} (hp : s.pc p = .held) (hq : s.pc q = .held) : p = q :=
  (exec_inv_of excl_step excl_init hn h).unique p q (by rw [hp]; trivial) (by rw [hq]; trivial)

theorem noLiveCapture_of_mem {L : List Proc} {s : St} {es : List Event} (hfresh : ∀ q, q ∉ L → s.pc q = .fresh)
    (hL : ∀ e ∈ es, e.proc ∈ L)
    (h : AllSteps (step pid) (fun s e => Captures s e → ∀ q ∈ L, ¬ (s.pc q).Owns) s es) :
    AllSteps (step pid) NoLiveCapture s es := by
  induction es generalizing s with
  | nil => trivial
  | cons e es ih =>
    refine ⟨fun hcap q ho => ?_, fun s' hs => ih (fun q hq => ?_) (fun e' he => hL e' (.tail _ he)) (h.2 s' hs)⟩
    · by_cases hq : q ∈ L
      · exact h.1 hcap q hq ho
      · rw [hfresh q hq] at ho; exact ho
    · have hne : q ≠ e.proc := by rintro rfl; exact hq (hL e (.head _))
      rw [pc_other hne hs]; exact hfresh q hq

/-! ## The race

Call 0 crashed while it held. Calls 1 and 2 both read its pid as dead; call 2
reclaims and makes a new directory, and call 1's rename then takes that one: its
`holder.json` is not written yet, so the capture is dropped and both go on. -/

theorem crashed_step {s s' : St} {e : Event} {p : Proc} (hp : s.pc p = .crashed)
    (h : step pid s e = some s') : s'.pc p = .crashed := by
  rcases eq_or_ne p e.proc with rfl | hne
  · -- a dead call has no step but a crash, which it has had
    cases hact : e.act <;> simp [step, fsStep, hact, hp, Pc.mayAcquire] at h
  · rw [pc_other hne h]; exact hp

theorem killSound_of_crashed {p : Proc} (hinj : Function.Injective pid) {s : St} {es : List Event}
    (hp : s.pc p = .crashed)
    (hes : ∀ e ∈ es, ∀ env, e.act = .step env → ∀ n, env.kill n = .esrch → n = pid p) :
    AllSteps (step pid) (KillSound pid) s es := by
  induction es generalizing s with
  | nil => trivial
  | cons e es ih =>
    refine ⟨fun env he q hq => ?_, fun s' hs => ih (crashed_step hp hs) fun e' he' => hes e' (.tail _ he')⟩
    rw [hinj (hes e (.head _) env he _ hq)]; exact hp

theorem killSound_of_no_esrch {s : St} {es : List Event}
    (hes : ∀ e ∈ es, ∀ env, e.act = .step env → ∀ n, env.kill n ≠ .esrch) :
    AllSteps (step pid) (KillSound pid) s es := by
  induction es generalizing s with
  | nil => trivial
  | cons e es ih =>
    exact ⟨fun env he q hq => absurd hq (hes e (.head _) env he _), fun s' _ => ih fun e' he' => hes e' (.tail _ he')⟩

section Race

def racePid (p : Proc) : Nat := 100 + p

theorem racePid_injective : Function.Injective racePid := fun _ _ h => Nat.add_left_cancel h

def allAlive : Env := { now := 0, kill := fun _ => .delivered }

def zeroDead : Env := { now := 10, kill := fun n => if n = racePid 0 then .esrch else .delivered }

def steps (p : Proc) (env : Env) (n : Nat) : List Event := List.replicate n ⟨p, .step env⟩

def crashAfter (n : Nat) : List Event := ⟨0, .acquire 5000 0⟩ :: steps 0 allAlive n ++ [⟨0, .crash⟩]

/-- Call 1 reads the dead holder; call 2 reclaims the lock and makes its own directory;
call 1 then captures that directory, and both write a holder and return. -/
def race : List Event :=
  ⟨1, .acquire 5000 10⟩ :: steps 1 zeroDead 3 ++
  ⟨2, .acquire 5000 10⟩ :: steps 2 zeroDead 9 ++
  steps 1 zeroDead 7 ++ steps 2 zeroDead 2

theorem mem_steps {p : Proc} {env : Env} {n : Nat} {e : Event} (h : e ∈ steps p env n) :
    e = ⟨p, .step env⟩ := List.eq_of_mem_replicate h

theorem crashAfter_alive {n : Nat} : ∀ e ∈ crashAfter n, ∀ env, e.act = .step env → ∀ k, env.kill k ≠ .esrch := by
  intro e he env hact k
  simp only [crashAfter, List.cons_append, List.mem_cons, List.mem_append, List.not_mem_nil, or_false] at he
  rcases he with rfl | he | rfl
  · cases hact
  · rw [mem_steps he] at hact; cases hact; simp [allAlive]
  · cases hact

theorem killSound_race : AllSteps (step racePid) (KillSound racePid) init (crashAfter 3 ++ race) := by
  refine AllSteps.append (killSound_of_no_esrch crashAfter_alive) fun u hu =>
    killSound_of_crashed racePid_injective (p := 0) ?_ ?_
  · have hp : (exec (step racePid) init (crashAfter 3)).map (fun s => s.pc 0) = some .crashed := by decide
    rw [hu] at hp; exact Option.some.inj hp
  · intro e he env hact n hn
    have hz : env = zeroDead := by
      simp only [race, List.cons_append, List.append_assoc, List.mem_cons, List.mem_append] at he
      rcases he with rfl | he | rfl | he | he | he
      · cases hact
      · rw [mem_steps he] at hact; cases hact; rfl
      · cases hact
      all_goals rw [mem_steps he] at hact; cases hact; rfl
    subst hz
    by_contra hne
    simp [zeroDead, hne] at hn

theorem race_both_held :
    (exec (step racePid) init (crashAfter 3 ++ race)).map (fun s => (s.pc 1, s.pc 2)) = some (.held, .held) := by
  decide

def reclaim : List Event := ⟨1, .acquire 5000 10⟩ :: steps 1 zeroDead 11

theorem reclaim_held :
    (exec (step racePid) init (crashAfter 3 ++ reclaim)).map (fun s => s.pc 1) = some .held := by decide

end Race

theorem exclusive_reclaim : ∃ s, exec (step racePid) init (crashAfter 3 ++ reclaim) = some s ∧
    s.pc 1 = .held ∧ ∀ q, s.pc q = .held → q = 1 := by
  obtain ⟨s, hs, hpc⟩ := Option.map_eq_some_iff.mp reclaim_held
  refine ⟨s, hs, hpc, fun q hq => exclusive_of_no_live_capture racePid hs ?_ hq hpc⟩
  refine noLiveCapture_of_mem (L := [0, 1]) (fun _ _ => rfl) ?_ (by decide)
  decide

/-- The lock is not exclusive over all runs: in the race, calls 1 and 2 both hold it. -/
theorem not_exclusive : ¬ ∀ (pid : Proc → Nat) (es : List Event) (s : St), exec (step pid) init es = some s →
    AllSteps (step pid) (KillSound pid) init es → ∀ p q, s.pc p = .held → s.pc q = .held → p = q := by
  intro h
  obtain ⟨s, hs, hpc⟩ := Option.map_eq_some_iff.mp race_both_held
  rw [Prod.mk.injEq] at hpc
  have := h racePid _ s hs killSound_race 1 2 hpc.1 hpc.2
  cases this

end Cyberlegion.Lock
