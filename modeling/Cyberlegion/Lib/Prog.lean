import Cyberlegion.Lib.Runs

/-!
# Programs over a signature of calls

A program is a tree of calls: `call op k` makes the call `op` and goes on with
`k r` when it is answered `r`. A handler says how a state answers a call under a
choice of the surroundings (`none`: the surroundings cannot behave so). `run`
executes a program alone; `wp` is its weakest liberal precondition, with a
condition `Φ` on every call it makes.
-/

namespace Effects

inductive Prog (Op : Type) (Res : Op → Type) (ε : Type) (α : Type) : Type
  | ret (a : α)
  | throw (e : ε)
  | call (op : Op) (k : Res op → Prog Op Res ε α)

section
variable {Op : Type} {Res : Op → Type} {ε α β : Type}

namespace Prog

def bind : Prog Op Res ε α → (α → Prog Op Res ε β) → Prog Op Res ε β
  | ret a, f => f a
  | throw e, _ => throw e
  | call op k, f => call op fun r => bind (k r) f

def tryCatch : Prog Op Res ε α → (ε → Prog Op Res ε α) → Prog Op Res ε α
  | ret a, _ => ret a
  | throw e, f => f e
  | call op k, f => call op fun r => tryCatch (k r) f

def perform (op : Op) : Prog Op Res ε (Res op) := call op ret

instance : Monad (Prog Op Res ε) where
  pure := ret
  bind := bind

instance : MonadExceptOf ε (Prog Op Res ε) where
  throw := throw
  tryCatch := tryCatch

@[simp] theorem pure_eq (a : α) : (Pure.pure a : Prog Op Res ε α) = ret a := rfl

@[simp] theorem throw_eq (e : ε) : (MonadExcept.throw e : Prog Op Res ε α) = throw e := rfl

@[simp] theorem ret_bind (a : α) (f : α → Prog Op Res ε β) : (ret a >>= f) = f a := rfl

@[simp] theorem throw_bind (e : ε) (f : α → Prog Op Res ε β) : (throw e >>= f) = throw e := rfl

@[simp] theorem call_bind (op : Op) (k : Res op → Prog Op Res ε α) (f : α → Prog Op Res ε β) :
    (call op k >>= f) = call op fun r => k r >>= f := rfl

@[simp] theorem perform_bind (op : Op) (f : Res op → Prog Op Res ε β) :
    (perform op >>= f : Prog Op Res ε β) = call op f := rfl

instance : LawfulMonad (Prog Op Res ε) := LawfulMonad.mk'
  _ (fun x => by
    induction x with
    | ret _ | throw _ => rfl
    | call op k ih => exact congrArg (call op) (funext ih))
  (fun _ _ => rfl)
  (fun x _ _ => by
    induction x with
    | ret _ | throw _ => rfl
    | call op k ih => exact congrArg (call op) (funext ih))

def done : Prog Op Res ε α → Bool
  | call _ _ => false
  | _ => true

def value : Prog Op Res ε α → Option α
  | ret a => some a
  | _ => none

theorem value_eq_some {p : Prog Op Res ε α} {a : α} : p.value = some a ↔ p = ret a := by
  cases p <;> simp [value]

def returned : Prog Op Res ε α → Bool
  | ret _ => true
  | _ => false

theorem returned_iff {p : Prog Op Res ε α} : p.returned = true ↔ ∃ a, p = ret a := by
  cases p <;> simp [returned]

end Prog

def OnOk {ε α : Type} (P : α → Prop) : Except ε α → Prop
  | .ok a => P a
  | .error _ => True

/-! ## Execution alone -/

section
variable {σ C : Type} (h : (op : Op) → C → σ → Option (Res op × σ))

/-- Run a program alone, one choice of the surroundings for each call. -/
def run : Prog Op Res ε α → List C → σ → Option (Except ε α × σ)
  | .ret a, [], s => some (.ok a, s)
  | .throw e, [], s => some (.error e, s)
  | .call op k, c :: cs, s => (h op c s).bind fun p => run (k p.1) cs p.2
  | _, _, _ => none

/-- The calls that `run` makes, each with the choice that answers it. -/
def trace : Prog Op Res ε α → List C → σ → List (Op × C)
  | .call op k, c :: cs, s => (op, c) :: ((h op c s).map fun p => trace (k p.1) cs p.2).getD []
  | _, _, _ => []

/-- As long as the surroundings choose within `A`, every call of the program meets
`Φ` in the state it is made in, and every way it ends meets `Q`. -/
def wp (A : Op → C → Prop) (Φ : Op → σ → Prop) :
    Prog Op Res ε α → (Except ε α → σ → Prop) → σ → Prop
  | .ret a, Q, s => Q (.ok a) s
  | .throw e, Q, s => Q (.error e) s
  | .call op k, Q, s => Φ op s ∧ ∀ c r s', A op c → h op c s = some (r, s') → wp A Φ (k r) Q s'

variable {h} {A : Op → C → Prop} {Φ Ψ : Op → σ → Prop} {Q R : Except ε α → σ → Prop} {s : σ}

@[simp] theorem wp_ret (a : α) : wp h A Φ (.ret a) Q s ↔ Q (.ok a) s := Iff.rfl

@[simp] theorem wp_throw (e : ε) : wp h A Φ (.throw e) Q s ↔ Q (.error e) s := Iff.rfl

theorem wp_call (op : Op) (k : Res op → Prog Op Res ε α) :
    wp h A Φ (.call op k) Q s ↔
      Φ op s ∧ ∀ c r s', A op c → h op c s = some (r, s') → wp h A Φ (k r) Q s' := Iff.rfl

theorem wp_mono {p : Prog Op Res ε α} (hp : wp h A Φ p Q s) (hQ : ∀ r s, Q r s → R r s) : wp h A Φ p R s := by
  induction p generalizing s with
  | ret a => exact hQ _ _ hp
  | throw e => exact hQ _ _ hp
  | call op k ih => exact ⟨hp.1, fun c r s' hc hs => ih r (hp.2 c r s' hc hs)⟩

theorem wp_weaken {p : Prog Op Res ε α} (hp : wp h A Φ p Q s) (hΦ : ∀ op s, Φ op s → Ψ op s) :
    wp h A Ψ p Q s := by
  induction p generalizing s with
  | ret a => exact hp
  | throw e => exact hp
  | call op k ih => exact ⟨hΦ _ _ hp.1, fun c r s' hc hs => ih r (hp.2 c r s' hc hs)⟩

theorem wp_narrow {B : Op → C → Prop} {p : Prog Op Res ε α} (hp : wp h A Φ p Q s) (hB : ∀ op c, B op c → A op c) :
    wp h B Φ p Q s := by
  induction p generalizing s with
  | ret a => exact hp
  | throw e => exact hp
  | call op k ih => exact ⟨hp.1, fun c r s' hc hs => ih r (hp.2 c r s' (hB op c hc) hs)⟩

theorem wp_and {p : Prog Op Res ε α} (hp : wp h A Φ p Q s) (hq : wp h A Ψ p R s) :
    wp h A (fun op s => Φ op s ∧ Ψ op s) p (fun r s => Q r s ∧ R r s) s := by
  induction p generalizing s with
  | ret a => exact ⟨hp, hq⟩
  | throw e => exact ⟨hp, hq⟩
  | call op k ih => exact ⟨⟨hp.1, hq.1⟩, fun c r s' hc hs => ih r (hp.2 c r s' hc hs) (hq.2 c r s' hc hs)⟩

theorem wp_congr {p : Prog Op Res ε α} (hQ : ∀ r s, Q r s ↔ R r s) : wp h A Φ p Q s ↔ wp h A Φ p R s :=
  ⟨fun hp => wp_mono hp fun r s => (hQ r s).mp, fun hp => wp_mono hp fun r s => (hQ r s).mpr⟩

theorem wp_bind (p : Prog Op Res ε α) (f : α → Prog Op Res ε β) {Q : Except ε β → σ → Prop} :
    wp h A Φ (p >>= f) Q s ↔ wp h A Φ p
      (fun r s => match r with | .ok a => wp h A Φ (f a) Q s | .error e => Q (.error e) s) s := by
  induction p generalizing s with
  | ret a => rfl
  | throw e => rfl
  | call op k ih =>
    rw [Prog.call_bind, wp_call, wp_call]
    simp only [ih]

theorem wp_seq {p : Prog Op Res ε α} {f : α → Prog Op Res ε β} {R : Except ε α → σ → Prop}
    {Q : Except ε β → σ → Prop}
    (hp : wp h A Φ p R s) (hok : ∀ a t, R (.ok a) t → wp h A Φ (f a) Q t)
    (herr : ∀ e t, R (.error e) t → Q (.error e) t) : wp h A Φ (p >>= f) Q s := by
  refine (wp_bind p f).mpr (wp_mono hp fun r t hr => ?_)
  cases r with
  | ok a => exact hok a t hr
  | error e => exact herr e t hr

theorem wp_tryCatch (p : Prog Op Res ε α) (f : ε → Prog Op Res ε α) :
    wp h A Φ (tryCatch p f) Q s ↔ wp h A Φ p
      (fun r s => match r with | .ok a => Q (.ok a) s | .error e => wp h A Φ (f e) Q s) s := by
  induction p generalizing s with
  | ret a => rfl
  | throw e => rfl
  | call op k ih =>
    show wp h A Φ (.call op fun r => tryCatch (k r) f) Q s ↔ _
    rw [wp_call, wp_call]
    simp only [ih]

theorem wp_run {p : Prog Op Res ε α} (hp : wp h A Φ p Q s) {cs : List C} {r : Except ε α} {s' : σ}
    (hA : ∀ x ∈ trace h p cs s, A x.1 x.2) (hr : run h p cs s = some (r, s')) : Q r s' := by
  induction p generalizing s cs with
  | ret a =>
    cases cs with
    | nil => cases hr; exact hp
    | cons _ _ => cases hr
  | throw e =>
    cases cs with
    | nil => cases hr; exact hp
    | cons _ _ => cases hr
  | call op k ih =>
    cases cs with
    | nil => cases hr
    | cons c cs =>
      obtain ⟨⟨r', t⟩, ht, hr⟩ := Option.bind_eq_some_iff.mp hr
      rw [trace, ht] at hA
      exact ih r' (hp.2 c r' t (hA (op, c) List.mem_cons_self) ht)
        (fun x hx => hA x (List.mem_cons_of_mem _ hx)) hr

theorem wp_iff_run {p : Prog Op Res ε α} :
    wp h (fun _ _ => True) (fun _ _ => True) p Q s ↔ ∀ cs r t, run h p cs s = some (r, t) → Q r t := by
  constructor
  · intro hp cs r t hr
    exact wp_run hp (fun _ _ => trivial) hr
  · intro hrun
    induction p generalizing s with
    | ret a => exact hrun [] _ _ rfl
    | throw e => exact hrun [] _ _ rfl
    | call op k ih =>
      refine ⟨trivial, fun c r s' _ hop => ih r fun cs r' t hr => hrun (c :: cs) r' t ?_⟩
      rw [run, hop]
      exact hr

theorem wp_trace {p : Prog Op Res ε α} (hp : wp h A Φ p Q s) {cs : List C}
    (hA : ∀ x ∈ trace h p cs s, A x.1 x.2) : ∀ x ∈ trace h p cs s, ∃ t, Φ x.1 t := by
  induction p generalizing s cs with
  | ret a => intro x hx; cases hx
  | throw e => intro x hx; cases hx
  | call op k ih =>
    cases cs with
    | nil => intro x hx; cases hx
    | cons c cs =>
      intro x hx
      rcases List.mem_cons.mp hx with rfl | hx
      · exact ⟨s, hp.1⟩
      · cases hop : h op c s with
        | none => rw [hop] at hx; cases hx
        | some r =>
          rw [trace, hop] at hA
          rw [hop] at hx
          refine ih r.1 (hp.2 c r.1 r.2 (hA (op, c) List.mem_cons_self) hop) ?_ x hx
          exact fun y hy => hA y (List.mem_cons_of_mem _ hy)

/-! ## One way a program may end, and programs that end in one way only -/

variable (h) in
/-- For some choices of the surroundings within `A` the program ends in `r` and `t`. -/
def MayIn (A : Op → C → Prop) (p : Prog Op Res ε α) (s : σ) (r : Except ε α) (t : σ) : Prop :=
  ∃ cs, run h p cs s = some (r, t) ∧ ∀ x ∈ trace h p cs s, A x.1 x.2

variable (h) in
/-- For some choices within `A` the program makes the call `op`, answered `c`. -/
def Makes (A : Op → C → Prop) (p : Prog Op Res ε α) (s : σ) (op : Op) (c : C) : Prop :=
  ∃ cs, (op, c) ∈ trace h p cs s ∧ ∀ x ∈ trace h p cs s, A x.1 x.2

variable (h) in
abbrev May (p : Prog Op Res ε α) (s : σ) (r : Except ε α) (t : σ) : Prop := MayIn h (fun _ _ => True) p s r t

section
variable {t u : σ} {f : α → Prog Op Res ε β}

theorem mayIn_ret (a : α) : MayIn h A (.ret a : Prog Op Res ε α) s (.ok a) s := ⟨[], rfl, nofun⟩

theorem mayIn_call {op : Op} {k : Res op → Prog Op Res ε α} {c : C} {a : Res op} {r : Except ε α} (hc : A op c)
    (hop : h op c s = some (a, t)) (hk : MayIn h A (k a) t r u) : MayIn h A (.call op k) s r u := by
  obtain ⟨cs, hcs, hA⟩ := hk
  refine ⟨c :: cs, ?_, ?_⟩
  · rw [run, hop]
    exact hcs
  · rw [trace, hop]
    intro x hx
    rcases List.mem_cons.mp hx with rfl | hx
    · exact hc
    · exact hA x hx

theorem run_bind {p : Prog Op Res ε α} {a : α} {cs ds : List C} (hp : run h p cs s = some (.ok a, t)) :
    run h (p >>= f) (cs ++ ds) s = run h (f a) ds t ∧
      trace h (p >>= f) (cs ++ ds) s = trace h p cs s ++ trace h (f a) ds t := by
  induction p generalizing s cs with
  | ret b =>
    cases cs with
    | nil => cases hp; exact ⟨rfl, rfl⟩
    | cons _ _ => cases hp
  | throw e =>
    cases cs with
    | nil => cases hp
    | cons _ _ => cases hp
  | call op k ih =>
    cases cs with
    | nil => cases hp
    | cons c cs =>
      obtain ⟨⟨b, s'⟩, hop, hp⟩ := Option.bind_eq_some_iff.mp hp
      obtain ⟨hrun, htrace⟩ := ih b hp
      rw [Prog.call_bind, List.cons_append, run, trace, trace, hop]
      exact ⟨hrun, congrArg _ htrace⟩

theorem run_bind_cases {p : Prog Op Res ε α} {cs : List C} {r : Except ε β} (hr : run h (p >>= f) cs s = some (r, u)) :
    (∃ e, r = .error e ∧ run h p cs s = some (.error e, u)) ∨
      ∃ cs₁ cs₂ a t, cs = cs₁ ++ cs₂ ∧ run h p cs₁ s = some (.ok a, t) ∧
        run h (f a) cs₂ t = some (r, u) := by
  induction p generalizing s cs with
  | ret a => exact .inr ⟨[], cs, a, s, rfl, rfl, hr⟩
  | throw e =>
    cases cs with
    | nil => cases hr; exact .inl ⟨e, rfl, rfl⟩
    | cons _ _ => cases hr
  | call op k ih =>
    cases cs with
    | nil => cases hr
    | cons c cs =>
      obtain ⟨⟨b, s'⟩, hop, hr⟩ := Option.bind_eq_some_iff.mp hr
      rcases ih b hr with ⟨e, he, hp⟩ | ⟨cs₁, cs₂, a, t, rfl, hp, hf⟩
      · exact .inl ⟨e, he, by rw [run, hop]; exact hp⟩
      · exact .inr ⟨c :: cs₁, cs₂, a, t, rfl, by rw [run, hop]; exact hp, hf⟩

theorem run_map {p : Prog Op Res ε α} {g : α → β} {cs : List C} :
    run h (g <$> p) cs s = (run h p cs s).map fun q => (q.1.map g, q.2) := by
  rw [← bind_pure_comp]
  induction p generalizing s cs with
  | ret a => cases cs <;> rfl
  | throw e => cases cs <;> rfl
  | call op k ih =>
    cases cs with
    | nil => rfl
    | cons c cs =>
      rw [Prog.call_bind, run, run]
      cases hop : h op c s with
      | none => rfl
      | some q => exact ih q.1

theorem MayIn.bind {p : Prog Op Res ε α} {a : α} {r : Except ε β} (hp : MayIn h A p s (.ok a) t)
    (hf : MayIn h A (f a) t r u) : MayIn h A (p >>= f) s r u := by
  obtain ⟨cs, hcs, hA⟩ := hp
  obtain ⟨ds, hds, hB⟩ := hf
  obtain ⟨hrun, htrace⟩ := run_bind (f := f) hcs
  refine ⟨cs ++ ds, hrun.trans hds, fun x hx => ?_⟩
  rw [htrace] at hx
  exact (List.mem_append.mp hx).elim (hA x) (hB x)

theorem makes_call {op : Op} {k : Res op → Prog Op Res ε α} {c : C} (hc : A op c) : Makes h A (.call op k) s op c := by
  have hend : ∀ q : Prog Op Res ε α, ∀ t, trace h q [] t = [] := by
    intro q t
    cases q <;> rfl
  have htrace : trace h (.call op k) [c] s = [(op, c)] := by
    rw [trace]
    cases h op c s with
    | none => rfl
    | some p => exact congrArg _ (hend _ _)
  refine ⟨[c], ?_, ?_⟩
  · rw [htrace]; exact List.mem_singleton_self _
  · rw [htrace]
    intro x hx
    rw [List.mem_singleton.mp hx]; exact hc

theorem MayIn.makes {p : Prog Op Res ε α} {a : α} {op : Op} {c : C} (hp : MayIn h A p s (.ok a) t)
    (hf : Makes h A (f a) t op c) : Makes h A (p >>= f) s op c := by
  obtain ⟨cs, hcs, hA⟩ := hp
  obtain ⟨ds, hop, hB⟩ := hf
  obtain ⟨-, htrace⟩ := run_bind (f := f) hcs
  refine ⟨cs ++ ds, ?_, fun x hx => ?_⟩
  · rw [htrace]; exact List.mem_append_right _ hop
  · rw [htrace] at hx
    exact (List.mem_append.mp hx).elim (hA x) (hB x)

theorem may_ret (a : α) : May h (.ret a : Prog Op Res ε α) s (.ok a) s := mayIn_ret a

theorem may_call {op : Op} {k : Res op → Prog Op Res ε α} {c : C} {a : Res op} {r : Except ε α}
    (hop : h op c s = some (a, t)) (hk : May h (k a) t r u) : May h (.call op k) s r u :=
  mayIn_call trivial hop hk

theorem May.bind {p : Prog Op Res ε α} {a : α} {r : Except ε β} (hp : May h p s (.ok a) t)
    (hf : May h (f a) t r u) : May h (p >>= f) s r u := MayIn.bind hp hf

/-- What holds of a program whatever the surroundings choose holds of its second
part after every way its first part may end. -/
theorem wp_of_may {p : Prog Op Res ε α} {a : α} {Q : Except ε β → σ → Prop}
    (hp : wp h (fun _ _ => True) Φ (p >>= f) Q s) (hm : May h p s (.ok a) t) :
    wp h (fun _ _ => True) Φ (f a) Q t := by
  obtain ⟨cs, hcs, -⟩ := hm
  exact wp_run ((wp_bind p f).mp hp) (fun _ _ => trivial) hcs

end

/-! ## Programs cut short -/

variable (h) in
/-- What is left of the program once its first calls are answered, and the state then. -/
def after : Prog Op Res ε α → List C → σ → Option (Prog Op Res ε α × σ)
  | p, [], s => some (p, s)
  | .call op k, c :: cs, s => (h op c s).bind fun q => after (k q.1) cs q.2
  | _, _ :: _, _ => none

variable (h) in
/-- The handler that keeps the calls made so far beside the state. -/
def logged (op : Op) (c : C) (s : σ × List (Op × C)) : Option (Res op × (σ × List (Op × C))) :=
  (h op c s.1).map fun q => (q.1, q.2, s.2 ++ [(op, c)])

theorem logged_cases {op : Op} {c : C} {u u' : σ × List (Op × C)} {r : Res op} (hr : logged h op c u = some (r, u')) :
    ∃ t, h op c u.1 = some (r, t) ∧ u' = (t, u.2 ++ [(op, c)]) := by
  obtain ⟨q, hq, hr⟩ := Option.map_eq_some_iff.mp hr
  cases hr
  exact ⟨q.2, hq, rfl⟩

theorem wp_logged_call {A : Op → C → Prop} {Φ : Op → σ × List (Op × C) → Prop}
    {Q : Except ε α → σ × List (Op × C) → Prop}
    {op : Op} {k : Res op → Prog Op Res ε α} {l : List (Op × C)} (hΦ : Φ op (s, l))
    (hk : ∀ c r t, A op c → h op c s = some (r, t) → wp (logged h) A Φ (k r) Q (t, l ++ [(op, c)])) :
    wp (logged h) A Φ (.call op k) Q (s, l) := by
  refine ⟨hΦ, fun c r u hc hr => ?_⟩
  obtain ⟨t, hop, rfl⟩ := logged_cases hr
  exact hk c r t hc hop

theorem wp_after {A : Op → C → Prop} {Φ : Op → σ × List (Op × C) → Prop}
    {Q : Except ε α → σ × List (Op × C) → Prop}
    {p q : Prog Op Res ε α} {cs : List C} {l : List (Op × C)} (hp : wp (logged h) A Φ p Q (s, l))
    (hA : ∀ x ∈ trace h p cs s, A x.1 x.2) (hq : after h p cs s = some (q, t)) :
    wp (logged h) A Φ q Q (t, l ++ trace h p cs s) := by
  induction cs generalizing p s l with
  | nil =>
    have htrace : trace h p [] s = [] := by cases p <;> rfl
    cases p <;> cases hq <;> rw [htrace, List.append_nil] <;> exact hp
  | cons c cs ih =>
    cases p with
    | ret a => cases hq
    | throw e => cases hq
    | call op k =>
      obtain ⟨⟨r, s'⟩, hr, hq⟩ := Option.bind_eq_some_iff.mp hq
      have htrace : trace h (.call op k) (c :: cs) s = (op, c) :: trace h (k r) cs s' := by
        simp only [trace, hr, Option.map_some, Option.getD_some]
      rw [htrace] at hA ⊢
      have hk := hp.2 c r (s', l ++ [(op, c)]) (hA _ List.mem_cons_self) (by simp only [logged, hr, Option.map_some])
      have hrest := ih hk (fun x hx => hA x (List.mem_cons_of_mem _ hx)) hq
      rw [List.append_assoc] at hrest
      exact hrest

def Prog.ended : Except ε α → Prog Op Res ε α
  | .ok a => ret a
  | .error e => throw e

theorem after_run {p : Prog Op Res ε α} {cs : List C} {r : Except ε α} (hr : run h p cs s = some (r, t)) :
    after h p cs s = some (Prog.ended r, t) := by
  induction cs generalizing p s with
  | nil => cases p <;> cases hr <;> rfl
  | cons c cs ih =>
    cases p with
    | ret a => cases hr
    | throw e => cases hr
    | call op k =>
      obtain ⟨⟨b, s'⟩, hop, hr⟩ := Option.bind_eq_some_iff.mp hr
      rw [after, hop]
      exact ih hr

theorem wp_logged_run {A : Op → C → Prop} {Φ : Op → σ × List (Op × C) → Prop}
    {Q : Except ε α → σ × List (Op × C) → Prop}
    {p : Prog Op Res ε α} {cs : List C} {l : List (Op × C)} {r : Except ε α} (hp : wp (logged h) A Φ p Q (s, l))
    (hA : ∀ x ∈ trace h p cs s, A x.1 x.2) (hr : run h p cs s = some (r, t)) : Q r (t, l ++ trace h p cs s) := by
  have hend := wp_after hp hA (after_run hr)
  cases r <;> exact hend

theorem wp_logged_trace {A : Op → C → Prop} {Φ : Op → σ × List (Op × C) → Prop}
    {Q : Except ε α → σ × List (Op × C) → Prop} {p : Prog Op Res ε α} {cs : List C}
    {l a b : List (Op × C)} {op : Op} {c : C}
    (hp : wp (logged h) A Φ p Q (s, l)) (hA : ∀ x ∈ trace h p cs s, A x.1 x.2)
    (ht : trace h p cs s = a ++ (op, c) :: b) : ∃ t, Φ op (t, l ++ a) := by
  induction p generalizing s cs l a with
  | ret _ | throw _ => cases a <;> cases ht
  | call op' k ih =>
    cases cs with
    | nil => cases a <;> cases ht
    | cons c' cs =>
      cases a with
      | nil =>
        have hop := (List.cons.inj ht).1
        cases hop
        exact ⟨s, (List.append_nil l).symm ▸ hp.1⟩
      | cons x a =>
        obtain ⟨hx, ht⟩ := List.cons.inj ht
        cases hr : h op' c' s with
        | none => rw [hr] at ht; cases a <;> cases ht
        | some q =>
          rw [trace, hr] at hA
          rw [hr] at ht
          have hk := hp.2 c' q.1 (q.2, l ++ [(op', c')]) (hA _ List.mem_cons_self)
            (by simp only [logged, hr, Option.map_some])
          have hrest := ih q.1 hk (fun y hy => hA y (List.mem_cons_of_mem _ hy)) ht
          rw [List.append_assoc, List.singleton_append, hx] at hrest
          exact hrest

theorem wp_lift {A : Op → C → Prop} {Q : Except ε α → σ → Prop} {p : Prog Op Res ε α} {l : List (Op × C)}
    (hp : wp h A (fun _ _ => True) p Q s) :
    wp (logged h) A (fun _ _ => True) p (fun r t => Q r t.1) (s, l) := by
  induction p generalizing s l with
  | ret a => exact hp
  | throw e => exact hp
  | call op k ih =>
    refine ⟨trivial, fun c r t hc hr => ?_⟩
    obtain ⟨s', hop, rfl⟩ := logged_cases hr
    exact ih r (hp.2 c r s' hc hop)

variable (h Φ) in
/-- Whatever the surroundings choose, the program ends in `r` and leaves the state alone. -/
def Answers (p : Prog Op Res ε α) (s : σ) (r : Except ε α) : Prop :=
  ∀ Q, wp h (fun _ _ => True) Φ p Q s ↔ Q r s

theorem answers_ret (a : α) : Answers h Φ (.ret a : Prog Op Res ε α) s (.ok a) := fun _ => Iff.rfl

theorem answers_call [Inhabited C] {op : Op} {k : Res op → Prog Op Res ε α} {a : Res op} {r : Except ε α}
    (hΦ : Φ op s) (hop : ∀ c, h op c s = some (a, s)) (hk : Answers h Φ (k a) s r) :
    Answers h Φ (.call op k) s r := by
  intro Q
  constructor
  · intro hp
    exact (hk Q).mp (hp.2 default a s trivial (hop default))
  · intro hQ
    refine ⟨hΦ, fun c b s' _ hc => ?_⟩
    rw [hop c] at hc
    cases hc
    exact (hk Q).mpr hQ

theorem Answers.bind {p : Prog Op Res ε α} {f : α → Prog Op Res ε β} {a : α} (hp : Answers h Φ p s (.ok a))
    {Q : Except ε β → σ → Prop} :
    wp h (fun _ _ => True) Φ (p >>= f) Q s ↔ wp h (fun _ _ => True) Φ (f a) Q s := by
  rw [wp_bind, hp]

theorem Answers.bind_of {p : Prog Op Res ε α} {f : α → Prog Op Res ε β} {a : α} (hp : Answers h Φ p s (.ok a))
    {Q : Except ε β → σ → Prop} (hf : wp h A Φ (f a) Q s) : wp h A Φ (p >>= f) Q s := by
  refine (wp_bind p f).mpr (wp_narrow ?_ fun _ _ _ => trivial)
  exact (hp _).mpr hf

theorem Answers.then {p : Prog Op Res ε α} {f : α → Prog Op Res ε β} {a : α} {r : Except ε β}
    (hp : Answers h Φ p s (.ok a)) (hf : Answers h Φ (f a) s r) : Answers h Φ (p >>= f) s r :=
  fun Q => hp.bind.trans (hf Q)

theorem Answers.fails {p : Prog Op Res ε α} {f : α → Prog Op Res ε β} {e : ε} (hp : Answers h Φ p s (.error e))
    {Q : Except ε β → σ → Prop} : wp h (fun _ _ => True) Φ (p >>= f) Q s ↔ Q (.error e) s := by
  rw [wp_bind, hp]

variable (h Φ) in
/-- Check the calls of a run against `Φ`. -/
def meets [∀ op s, Decidable (Φ op s)] : Prog Op Res ε α → List C → σ → Bool
  | .call op k, c :: cs, s => Φ op s ∧ (h op c s).all fun p => meets (k p.1) cs p.2
  | _, _, _ => true

theorem wp_meets [∀ op s, Decidable (Φ op s)] {p : Prog Op Res ε α} (hp : wp h (fun _ _ => True) Φ p Q s)
    (cs : List C) : meets h Φ p cs s = true := by
  induction p generalizing s cs with
  | ret a => rfl
  | throw e => rfl
  | call op k ih =>
    cases cs with
    | nil => rfl
    | cons c cs =>
      refine decide_eq_true ⟨hp.1, ?_⟩
      cases hop : h op c s with
      | none => rfl
      | some p => exact ih p.1 (hp.2 c p.1 p.2 trivial hop) cs

/-! ## What a program has done -/

/-- The calls made and their answers lead from one program to the other. -/
inductive Ran : Prog Op Res ε α → List ((op : Op) × Res op) → Prog Op Res ε α → Prop
  | nil (p : Prog Op Res ε α) : Ran p [] p
  | cons (op : Op) (k : Res op → Prog Op Res ε α) (r : Res op) {l : List ((op : Op) × Res op)} {q : Prog Op Res ε α}
      (h : Ran (k r) l q) : Ran (.call op k) (⟨op, r⟩ :: l) q

theorem Ran.snoc {p : Prog Op Res ε α} {l : List ((op : Op) × Res op)} {op : Op} {k : Res op → Prog Op Res ε α}
    (h : Ran p l (.call op k)) (r : Res op) : Ran p (l ++ [⟨op, r⟩]) (k r) := by
  generalize hq : Prog.call op k = q at h
  induction h with
  | nil p => subst hq; exact .cons op k r (.nil _)
  | cons op' k' r' h ih => exact .cons op' k' r' (ih hq)

/-! ## Interleaved execution -/

/-- Any number of programs over one state; the event `(i, c)` makes the next call
of program `i`. A program whose turn never comes has crashed. -/
def stepPool {ι : Type} [DecidableEq ι] (h : (op : Op) → C → σ → Option (Res op × σ))
    (s : σ × (ι → Prog Op Res ε α)) (e : ι × C) : Option (σ × (ι → Prog Op Res ε α)) :=
  match s.2 e.1 with
  | .call op k => (h op e.2 s.1).map fun p => (p.2, Function.update s.2 e.1 (k p.1))
  | _ => none

theorem stepPool_cases {ι : Type} [DecidableEq ι] {s t : σ × (ι → Prog Op Res ε α)} {e : ι × C}
    (hs : stepPool h s e = some t) :
    ∃ op k r, s.2 e.1 = .call op k ∧ h op e.2 s.1 = some (r, t.1) ∧ t.2 = Function.update s.2 e.1 (k r) := by
  unfold stepPool at hs
  cases hp : s.2 e.1 with
  | call op k =>
    rw [hp] at hs
    obtain ⟨⟨r, s'⟩, hr, rfl⟩ := Option.map_eq_some_iff.mp hs
    exact ⟨op, k, r, rfl, hr, rfl⟩
  | _ => rw [hp] at hs; cases hs

theorem stepPool_other {ι : Type} [DecidableEq ι] {s t : σ × (ι → Prog Op Res ε α)} {e : ι × C} {i : ι}
    (hs : stepPool h s e = some t) (hi : i ≠ e.1) : t.2 i = s.2 i := by
  obtain ⟨_, _, _, -, -, ht⟩ := stepPool_cases hs
  rw [ht, Function.update_of_ne hi]

/-! ## Programs that make only some calls -/

/-- Every call the program may still make, whatever it is answered, is in `P`. -/
def Prog.Only (P : Op → Prop) : Prog Op Res ε α → Prop
  | .call op k => P op ∧ ∀ r, (k r).Only P
  | _ => True

namespace Prog

variable {P : Op → Prop}

@[simp] theorem only_ret (a : α) : (ret a : Prog Op Res ε α).Only P := trivial

@[simp] theorem only_throw (e : ε) : (throw e : Prog Op Res ε α).Only P := trivial

theorem only_true (p : Prog Op Res ε α) : p.Only fun _ => True := by
  induction p with
  | call op k ih => exact ⟨trivial, ih⟩
  | _ => trivial

theorem Only.bind {p : Prog Op Res ε α} {f : α → Prog Op Res ε β} (hp : p.Only P) (hf : ∀ a, (f a).Only P) :
    (p >>= f).Only P := by
  induction p with
  | ret a => exact hf a
  | throw e => trivial
  | call op k ih => exact ⟨hp.1, fun r => ih r (hp.2 r)⟩

theorem Only.map {p : Prog Op Res ε α} {f : α → β} (hp : p.Only P) : (f <$> p).Only P := by
  rw [← bind_pure_comp]
  exact hp.bind fun _ => trivial

theorem Only.tryCatch {p : Prog Op Res ε α} {f : ε → Prog Op Res ε α} (hp : p.Only P) (hf : ∀ e, (f e).Only P) :
    (Prog.tryCatch p f).Only P := by
  induction p with
  | ret a => trivial
  | throw e => exact hf e
  | call op k ih => exact ⟨hp.1, fun r => ih r (hp.2 r)⟩

theorem Only.mono {Q : Op → Prop} {p : Prog Op Res ε α} (hp : p.Only P) (h : ∀ op, P op → Q op) : p.Only Q := by
  induction p with
  | call op k ih => exact ⟨h op hp.1, fun r => ih r (hp.2 r)⟩
  | _ => trivial

end Prog

/-! ## Programs that throw only at a failed call -/

/-- A call answered in `Bad` ends the program in a throw, and nothing else does. -/
def Prog.ThrowsOn (Bad : (op : Op) → Res op → Prop) : Prog Op Res ε α → Prop
  | .ret _ => True
  | .throw _ => False
  | .call op k => ∀ r, (Bad op r → ∃ e, k r = .throw e) ∧ (¬Bad op r → (k r).ThrowsOn Bad)

namespace Prog

variable {Bad : (op : Op) → Res op → Prop}

theorem throwsOn_call {op : Op} {k : Res op → Prog Op Res ε α} (hop : ∀ r, ¬Bad op r)
    (hk : ∀ r, (k r).ThrowsOn Bad) :
    (call op k).ThrowsOn Bad := fun r => ⟨fun hbad => absurd hbad (hop r), fun _ => hk r⟩

theorem ThrowsOn.bind {p : Prog Op Res ε α} {f : α → Prog Op Res ε β} (hp : p.ThrowsOn Bad)
    (hf : ∀ a, (f a).ThrowsOn Bad) : (p >>= f).ThrowsOn Bad := by
  induction p with
  | ret a => exact hf a
  | throw e => exact hp.elim
  | call op k ih =>
    intro r
    refine ⟨fun hbad => ?_, fun hgood => ih r ((hp r).2 hgood)⟩
    obtain ⟨e, he⟩ := (hp r).1 hbad
    exact ⟨e, congrArg (· >>= f) he⟩

theorem ThrowsOn.map {p : Prog Op Res ε α} {f : α → β} (hp : p.ThrowsOn Bad) : (f <$> p).ThrowsOn Bad := by
  rw [← bind_pure_comp]
  exact hp.bind fun _ => trivial

theorem throwsOn_tryCatch {p : Prog Op Res ε α} {f : ε → Prog Op Res ε α} (hp : p.Only fun op => ∀ r, ¬Bad op r)
    (hf : ∀ e, (f e).ThrowsOn Bad) : (Prog.tryCatch p f).ThrowsOn Bad := by
  induction p with
  | ret a => trivial
  | throw e => exact hf e
  | call op k ih => exact throwsOn_call hp.1 fun r => ih r (hp.2 r)

theorem Only.ran {P : Op → Prop} {p q : Prog Op Res ε α} (hp : p.Only P) {l : List ((op : Op) × Res op)}
    (h : Ran p l q) :
    ∀ x ∈ l, P x.1 := by
  induction h with
  | nil p => exact nofun
  | cons op k a h ih =>
    rw [List.forall_mem_cons]
    exact ⟨hp.1, ih (hp.2 a)⟩

/-- Such a program returns exactly where no call of its run failed. -/
theorem ThrowsOn.returns_iff {p : Prog Op Res ε α} (hp : p.ThrowsOn Bad) {l : List ((op : Op) × Res op)}
    {r : Except ε α}
    (h : Ran p l (ended r)) : (∃ a, r = .ok a) ↔ ∀ e ∈ l, ¬Bad e.1 e.2 := by
  generalize hq : ended r = q at h
  induction h with
  | nil p =>
    subst hq
    cases r with
    | ok a => exact ⟨fun _ => nofun, fun _ => ⟨a, rfl⟩⟩
    | error e => exact hp.elim
  | cons op k a h ih =>
    rw [List.forall_mem_cons]
    by_cases hbad : Bad op a
    · obtain ⟨e, he⟩ := (hp a).1 hbad
      rw [he] at h
      cases h
      cases r with
      | ok a => cases hq
      | error e => exact ⟨nofun, fun hgood => absurd hbad hgood.1⟩
    · rw [ih ((hp a).2 hbad) hq, and_iff_right hbad]

end Prog

/-- What no call in `P` changes, a program that makes only calls in `P` keeps. -/
theorem wp_only {P : Op → Prop} {I : σ → Prop} {p : Prog Op Res ε α} (hp : p.Only P)
    (hI : ∀ op c s r s', P op → I s → h op c s = some (r, s') → I s') (hΦ : ∀ op s, P op → I s → Φ op s)
    (hs : I s) : wp h A Φ p (fun _ s => I s) s := by
  induction p generalizing s with
  | call op k ih => exact ⟨hΦ op s hp.1 hs, fun c r s' _ hr => ih r (hp.2 r) (hI op c s r s' hp.1 hs hr)⟩
  | _ => exact hs

theorem wp_then {P : Op → Prop} {p : Prog Op Res ε α} {f : α → Prog Op Res ε β} (hf : ∀ a, (f a).Only P)
    (hΦ : ∀ op s, P op → Φ op s) : wp h A Φ (p >>= f) (fun _ _ => True) s ↔ wp h A Φ p (fun _ _ => True) s := by
  rw [wp_bind]
  refine wp_congr fun r s => ⟨fun _ => trivial, fun _ => ?_⟩
  cases r with
  | ok a => exact wp_only (hf a) (fun _ _ _ _ _ _ _ _ => trivial) (fun op s hop _ => hΦ op s hop) trivial
  | error e => trivial

end

end

end Effects
