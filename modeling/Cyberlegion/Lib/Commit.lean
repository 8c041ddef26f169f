import Cyberlegion.Lib.Prog

/-!
# Operations with one commit point

An operation that shares its state with others: between two of its calls the
others move the state along `rely`, and each of its own calls stays within
`guar`. It is `Pending` while every call it makes is `quiet` up to the one that
ends it, which either returns and commits or throws and fails. In a pool of such
operations, each compatible with the guarantees of the others, every step is
quiet, a commit or a failure of one operation.
-/

namespace Effects

structure Contract (σ : Type) where
  rely : σ → σ → Prop
  guar : σ → σ → Prop
  quiet : σ → σ → Prop
  commit : σ → σ → Prop
  /-- What the state says when the operation fails. -/
  fails : σ → Prop

section
variable {Op : Type} {Res : Op → Type} {ε α σ C : Type} (h : (op : Op) → C → σ → Option (Res op × σ))

def Pending (K : Contract σ) : Prog Op Res ε α → σ → Prop
  | .call op k, s => ∀ t, K.rely s t → ∀ c r u, h op c t = some (r, u) → K.guar t u ∧
      (((∃ a, k r = .ret a) ∧ K.commit t u) ∨ ((∃ e, k r = .throw e) ∧ K.quiet t u ∧ K.fails t) ∨
        (K.quiet t u ∧ Pending K (k r) u))
  | _, _ => False

variable {h} {K : Contract σ}

theorem Pending.not_done {p : Prog Op Res ε α} {s : σ} (hp : Pending h K p s) : p.done = false := by
  cases p with
  | call _ _ => rfl
  | _ => exact hp.elim

theorem Pending.stable {p : Prog Op Res ε α} {s t : σ} (htrans : ∀ s t u, K.rely s t → K.rely t u → K.rely s u)
    (hp : Pending h K p s) (hst : K.rely s t) : Pending h K p t := by
  cases p with
  | call op k => exact fun t' ht' => hp t' (htrans s t t' hst ht')
  | _ => exact hp

/-- Each operation may rely on what the others guarantee. -/
structure Compatible {ι : Type} (K : ι → Contract σ) : Prop where
  refl : ∀ i s, (K i).rely s s
  trans : ∀ i s t u, (K i).rely s t → (K i).rely t u → (K i).rely s u
  others : ∀ i j t u, i ≠ j → (K j).guar t u → (K i).rely t u

section
variable {ι : Type} [DecidableEq ι] {K : ι → Contract σ} {s t : σ × (ι → Prog Op Res ε α)} {e : ι × C}

/-- Every operation of the pool is over or pending. -/
def PoolPending (h : (op : Op) → C → σ → Option (Res op × σ)) (K : ι → Contract σ)
    (s : σ × (ι → Prog Op Res ε α)) : Prop :=
  ∀ i, (s.2 i).done = true ∨ Pending h (K i) (s.2 i) s.1

theorem PoolPending.step (hK : Compatible K) (hs : PoolPending h K s) (hst : stepPool h s e = some t) :
    PoolPending h K t ∧ (s.2 e.1).done = false ∧ (∀ i, i ≠ e.1 → t.2 i = s.2 i) ∧
      (((∃ a, t.2 e.1 = .ret a) ∧ (K e.1).commit s.1 t.1) ∨
        ((∃ x, t.2 e.1 = .throw x) ∧ (K e.1).quiet s.1 t.1 ∧ (K e.1).fails s.1) ∨
        ((t.2 e.1).done = false ∧ (K e.1).quiet s.1 t.1)) := by
  obtain ⟨op, k, r, hp, hr, ht⟩ := stepPool_cases hst
  have hnd : (s.2 e.1).done = false := by rw [hp]; rfl
  have hpend : Pending h (K e.1) (.call op k) s.1 := by
    rw [← hp]
    exact (hs e.1).resolve_left (by rw [hnd]; exact Bool.false_ne_true)
  obtain ⟨hg, hcases⟩ := hpend s.1 (hK.refl e.1 s.1) e.2 r t.1 hr
  have hself : t.2 e.1 = k r := by rw [ht, Function.update_self]
  have hother : ∀ i, i ≠ e.1 → t.2 i = s.2 i := fun i hi => stepPool_other hst hi
  have hthreads : ((k r).done = true ∨ Pending h (K e.1) (k r) t.1) → PoolPending h K t := by
    intro hown i
    by_cases hi : i = e.1
    · rw [hi, hself]; exact hown
    · rw [hother i hi]
      exact (hs i).imp_right fun hp => hp.stable (hK.trans i) (hK.others i e.1 _ _ hi hg)
  rw [hself]
  rcases hcases with ⟨⟨a, ha⟩, hc⟩ | ⟨⟨x, hx⟩, hq, hf⟩ | ⟨hq, hp'⟩
  · exact ⟨hthreads (.inl (by rw [ha]; rfl)), hnd, hother, .inl ⟨⟨a, ha⟩, hc⟩⟩
  · exact ⟨hthreads (.inl (by rw [hx]; rfl)), hnd, hother, .inr (.inl ⟨⟨x, hx⟩, hq, hf⟩)⟩
  · exact ⟨hthreads (.inr hp'), hnd, hother, .inr (.inr ⟨hp'.not_done, hq⟩)⟩

end

end

end Effects
