import Cyberlegion.Lib.Prog

/-!
# Runs and the calls they make

Every run of a program ends in a state and with a list of calls, each with the choice
that answered it. The rules follow the program.
-/

namespace Effects

section
variable {Op C ε α β σ : Type} {Res : Op → Type} (h : (op : Op) → C → σ → Option (Res op × σ))

/-- Every run of the program ends in `Q`, which also reads the calls it made. -/
def Traces (p : Prog Op Res ε α) (s : σ) (Q : Except ε α → σ → List (Op × C) → Prop) : Prop :=
  ∀ cs r t, run h p cs s = some (r, t) → Q r t (trace h p cs s)

variable {h} {s : σ} {Q R : Except ε α → σ → List (Op × C) → Prop}

theorem traces_ret {a : α} : Traces h (.ret a : Prog Op Res ε α) s Q ↔ Q (.ok a) s [] := by
  constructor
  · intro hp
    exact hp [] _ _ rfl
  · intro hQ cs r t hr
    cases cs with
    | nil => cases hr; exact hQ
    | cons _ _ => cases hr

theorem traces_throw {e : ε} : Traces h (.throw e : Prog Op Res ε α) s Q ↔ Q (.error e) s [] := by
  constructor
  · intro hp
    exact hp [] _ _ rfl
  · intro hQ cs r t hr
    cases cs with
    | nil => cases hr; exact hQ
    | cons _ _ => cases hr

theorem traces_call {op : Op} {k : Res op → Prog Op Res ε α} : Traces h (.call op k) s Q ↔
    ∀ c a t, h op c s = some (a, t) → Traces h (k a) t fun r u m => Q r u ((op, c) :: m) := by
  constructor
  · intro hp c a t hop cs r u hr
    have hrun := hp (c :: cs) r u (by rw [run, hop]; exact hr)
    rw [trace, hop] at hrun
    exact hrun
  · intro hk cs r u hr
    cases cs with
    | nil => cases hr
    | cons c cs =>
      obtain ⟨⟨a, t⟩, hop, hr⟩ := Option.bind_eq_some_iff.mp hr
      rw [trace, hop]
      exact hk c a t hop cs r u hr

theorem Traces.mono {p : Prog Op Res ε α} (hp : Traces h p s Q) (hQ : ∀ r t m, Q r t m → R r t m) : Traces h p s R :=
  fun cs r t hr => hQ r t _ (hp cs r t hr)

theorem Traces.and {p : Prog Op Res ε α} (hp : Traces h p s Q) (hp' : Traces h p s R) :
    Traces h p s fun r t m => Q r t m ∧ R r t m :=
  fun cs r t hr => ⟨hp cs r t hr, hp' cs r t hr⟩

theorem traces_bind {p : Prog Op Res ε α} {f : α → Prog Op Res ε β}
    {Q : Except ε β → σ → List (Op × C) → Prop} :
    Traces h (p >>= f) s Q ↔ Traces h p s fun r t m =>
      match r with
      | .ok a => Traces h (f a) t fun r u m' => Q r u (m ++ m')
      | .error e => Q (.error e) t m := by
  induction p generalizing s Q with
  | ret a => exact Iff.symm traces_ret
  | throw e =>
    rw [traces_throw]
    exact traces_throw
  | call op k ih =>
    rw [Prog.call_bind, traces_call, traces_call]
    refine forall₄_congr fun c a t _ => (ih a).trans ?_
    rfl

theorem Traces.seq {p : Prog Op Res ε α} {f : α → Prog Op Res ε β}
    {Q : Except ε β → σ → List (Op × C) → Prop}
    (hp : Traces h p s R) (hok : ∀ a t m, R (.ok a) t m → Traces h (f a) t fun r u m' => Q r u (m ++ m'))
    (herr : ∀ e t m, R (.error e) t m → Q (.error e) t m) : Traces h (p >>= f) s Q := by
  refine traces_bind.mpr (hp.mono fun r t m hr => ?_)
  cases r with
  | ok a => exact hok a t m hr
  | error e => exact herr e t m hr

theorem traces_tryCatch {p : Prog Op Res ε α} {f : ε → Prog Op Res ε α} :
    Traces h (Prog.tryCatch p f) s Q ↔ Traces h p s fun r t m =>
      match r with
      | .ok a => Q (.ok a) t m
      | .error e => Traces h (f e) t fun r u m' => Q r u (m ++ m') := by
  induction p generalizing s Q with
  | ret a =>
    rw [traces_ret]
    exact traces_ret
  | throw e => exact Iff.symm traces_throw
  | call op k ih =>
    show Traces h (.call op fun a => Prog.tryCatch (k a) f) s Q ↔ _
    rw [traces_call, traces_call]
    refine forall₄_congr fun c a t _ => (ih a).trans ?_
    rfl

theorem traces_wp {p : Prog Op Res ε α} {Q : Except ε α → σ → Prop}
    (hp : wp h (fun _ _ => True) (fun _ _ => True) p Q s) : Traces h p s fun r t _ => Q r t :=
  fun _ _ _ hr => wp_run hp (fun _ _ => trivial) hr

theorem Prog.Only.traces {P : Op → Prop} {p : Prog Op Res ε α} (hp : p.Only P) :
    Traces h p s fun _ _ m => ∀ x ∈ m, P x.1 := by
  induction p generalizing s with
  | ret a => exact traces_ret.mpr nofun
  | throw e => exact traces_throw.mpr nofun
  | call op k ih =>
    refine traces_call.mpr fun c a t _ => (ih a (hp.2 a)).mono fun r u m hm => ?_
    rw [List.forall_mem_cons]
    exact ⟨hp.1, hm⟩

theorem Answers.traces {p : Prog Op Res ε α} {r : Except ε α} (hp : Answers h (fun _ _ => True) p s r) :
    Traces h p s fun r' t _ => r' = r ∧ t = s :=
  traces_wp ((hp _).mpr ⟨rfl, rfl⟩)

end

end Effects
