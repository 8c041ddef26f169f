import Cyberlegion.Lib.Prog

/-!
# Programs among others

A program shares its state with others that move it along `rely` between two of its
calls; each of its own calls stays within `guar`. It is `Ready` while its calls are
`quiet` up to its end: it ends by a call that commits to its answer, or idle, or by an
error. Its calls are looked at only in states where `A` lets it make them.
-/

namespace Effects

structure Task (σ α ε : Type) where
  rely : σ → σ → Prop
  guar : σ → σ → Prop
  quiet : σ → σ → Prop
  commit : α → σ → σ → Prop
  idle : α → σ → Prop
  fails : ε → σ → Prop

/-- A part of the task, which ends with `Q` and commits nothing. -/
def Task.part {σ α ε β : Type} (K : Task σ α ε) (Q : β → σ → Prop) : Task σ β ε where
  rely := K.rely
  guar := K.guar
  quiet := K.quiet
  commit _ _ _ := False
  idle := Q
  fails := K.fails

def Task.answers {σ α ε β : Type} (K : Task σ α ε) (f : α → β) : Task σ β ε where
  rely := K.rely
  guar := K.guar
  quiet := K.quiet
  commit b s t := ∃ a, b = f a ∧ K.commit a s t
  idle b s := ∃ a, b = f a ∧ K.idle a s
  fails := K.fails

section
variable {Op : Type} {Res : Op → Type} {ε α β σ C : Type} (h : (op : Op) → C → σ → Option (Res op × σ))
  (A : Op → σ → Prop)

def Ready (K : Task σ α ε) : Prog Op Res ε α → σ → Prop
  | .ret a, s => K.idle a s
  | .throw e, s => K.fails e s
  | .call op k, s => ∀ t, K.rely s t → A op t → ∀ c r u, h op c t = some (r, u) →
      K.guar t u ∧ ((K.quiet t u ∧ Ready K (k r) u) ∨ ∃ a, k r = .ret a ∧ K.commit a t u)

variable {h A} {K : Task σ α ε}

theorem Ready.stable {p : Prog Op Res ε α} {s t : σ} (hp : Ready h A K p s) (hnd : p.done = false)
    (htrans : ∀ s t u, K.rely s t → K.rely t u → K.rely s u) (hst : K.rely s t) : Ready h A K p t := by
  cases p with
  | ret | throw => cases hnd
  | call op k => exact fun t' ht' => hp t' (htrans s t t' hst ht')

theorem Ready.bind {p : Prog Op Res ε β} {f : β → Prog Op Res ε α} {Q : β → σ → Prop} {s : σ}
    (hp : Ready h A (K.part Q) p s) (hf : ∀ b s, Q b s → Ready h A K (f b) s) : Ready h A K (p >>= f) s := by
  induction p generalizing s with
  | ret b => exact hf b s hp
  | throw e => exact hp
  | call op k ih =>
    intro t hst hA c r u hr
    obtain ⟨hg, ⟨hq, hk⟩ | ⟨b, -, hfalse⟩⟩ := hp t hst hA c r u hr
    · exact ⟨hg, .inl ⟨hq, ih r hk⟩⟩
    · exact hfalse.elim

theorem Ready.mono {p : Prog Op Res ε β} {Q Q' : β → σ → Prop} {s : σ} (hp : Ready h A (K.part Q) p s)
    (hQ : ∀ b s, Q b s → Q' b s) : Ready h A (K.part Q') p s := by
  have hbind : p >>= Prog.ret = p := bind_pure p
  rw [← hbind]
  exact (show Ready h A ((K.part Q').part Q) p s from hp).bind fun b s hb => hQ b s hb

theorem Ready.answers {p : Prog Op Res ε α} {f : α → β} {s : σ} (hp : Ready h A K p s) :
    Ready h A (K.answers f) (f <$> p) s := by
  rw [map_eq_pure_bind]
  induction p generalizing s with
  | ret a => exact ⟨a, rfl, hp⟩
  | throw e => exact hp
  | call op k ih =>
    intro t hst hA c r u hr
    obtain ⟨hg, ⟨hq, hk⟩ | ⟨a, ha, hc⟩⟩ := hp t hst hA c r u hr
    · exact ⟨hg, .inl ⟨hq, ih r hk⟩⟩
    · refine ⟨hg, .inr ⟨f a, ?_, a, rfl, hc⟩⟩
      show k r >>= _ = _
      rw [ha]
      rfl

theorem ready_call {op : Op} {k : Res op → Prog Op Res ε α} {s : σ}
    (hk : ∀ t, K.rely s t → A op t → ∀ c r u, h op c t = some (r, u) → K.guar t u ∧ K.quiet t u ∧
      Ready h A K (k r) u) :
    Ready h A K (.call op k) s := by
  intro t hst hA c r u hr
  obtain ⟨hg, hq, hready⟩ := hk t hst hA c r u hr
  exact ⟨hg, .inl ⟨hq, hready⟩⟩

/-! ## Pools -/

section
variable {ι : Type} [DecidableEq ι] {A : ι → Op → σ → Prop} {K : ι → Task σ α ε}
  {s t : σ × (ι → Prog Op Res ε α)}
  {e : ι × C}

def PoolReady (h : (op : Op) → C → σ → Option (Res op × σ)) (A : ι → Op → σ → Prop)
    (K : ι → Task σ α ε)
    (s : σ × (ι → Prog Op Res ε α)) : Prop :=
  ∀ i, (s.2 i).done = true ∨ Ready h (A i) (K i) (s.2 i) s.1

/-- The step's program may make the call it is about to make. -/
def Permits (A : ι → Op → σ → Prop) (s : σ × (ι → Prog Op Res ε α)) (e : ι × C) : Prop :=
  ∀ op k, s.2 e.1 = .call op k → A e.1 op s.1

instance {ε α : Type} {A : ι → Op → σ → Prop} [∀ i op s, Decidable (A i op s)]
    (s : σ × (ι → Prog Op Res ε α)) (e : ι × C) :
    Decidable (Permits A s e) :=
  match h : s.2 e.1 with
  | .call op k => decidable_of_iff (A e.1 op s.1) ⟨fun hp op' k' h' => by
      rw [h] at h'; cases h'; exact hp, fun hu => hu op k h⟩
  | .ret _ => .isTrue fun _ _ h' => by rw [h] at h'; cases h'
  | .throw _ => .isTrue fun _ _ h' => by rw [h] at h'; cases h'

/-- The ways a step of a ready program comes out. -/
inductive Outcome (K : Task σ α ε) (s t : σ) : Prog Op Res ε α → Prop
  | commit (a : α) (hc : K.commit a s t) : Outcome K s t (.ret a)
  | idle (a : α) (hq : K.quiet s t) (hi : K.idle a t) : Outcome K s t (.ret a)
  | fail (x : ε) (hq : K.quiet s t) (hf : K.fails x t) : Outcome K s t (.throw x)
  | going (op : Op) (k : Res op → Prog Op Res ε α) (hq : K.quiet s t) : Outcome K s t (.call op k)

theorem PoolReady.step (hrefl : ∀ i s, (K i).rely s s)
    (htrans : ∀ i s t u, (K i).rely s t → (K i).rely t u → (K i).rely s u)
    (hothers : ∀ i j t u, i ≠ j → (K j).guar t u → (K i).rely t u) (hs : PoolReady h A K s) (hA : Permits A s e)
    (hst : stepPool h s e = some t) :
    PoolReady h A K t ∧ (s.2 e.1).done = false ∧ (∀ i, i ≠ e.1 → t.2 i = s.2 i) ∧ (K e.1).guar s.1 t.1 ∧
      Outcome (K e.1) s.1 t.1 (t.2 e.1) := by
  obtain ⟨op, k, r, hp, hr, ht⟩ := stepPool_cases hst
  have hnd : (s.2 e.1).done = false := by rw [hp]; rfl
  have hready : Ready h (A e.1) (K e.1) (.call op k) s.1 := by
    rw [← hp]
    exact (hs e.1).resolve_left (by rw [hnd]; exact Bool.false_ne_true)
  obtain ⟨hg, hcases⟩ := hready s.1 (hrefl e.1 s.1) (hA op k hp) e.2 r t.1 hr
  have hself : t.2 e.1 = k r := by rw [ht, Function.update_self]
  have hother : ∀ i, i ≠ e.1 → t.2 i = s.2 i := fun i hi => stepPool_other hst hi
  have hpool : ((k r).done = true ∨ Ready h (A e.1) (K e.1) (k r) t.1) → PoolReady h A K t := by
    intro hown i
    by_cases hi : i = e.1
    · rw [hi, hself]; exact hown
    · rw [hother i hi]
      by_cases hdone : (s.2 i).done = true
      · exact .inl hdone
      · exact .inr (((hs i).resolve_left hdone).stable (Bool.eq_false_iff.mpr hdone) (htrans i)
          (hothers i e.1 _ _ hi hg))
  rw [hself]
  rcases hcases with ⟨hq, hk⟩ | ⟨a, ha, hc⟩
  · refine ⟨hpool (.inr hk), hnd, hother, hg, ?_⟩
    cases hkr : k r with
    | ret a => rw [hkr] at hk; exact .idle a hq hk
    | throw x => rw [hkr] at hk; exact .fail x hq hk
    | call op' k' => exact .going op' k' hq
  · rw [ha]
    exact ⟨hpool (.inl (by rw [ha]; rfl)), hnd, hother, hg, .commit a hc⟩

end

end

end Effects
