import Cyberlegion.Lib.Prog

/-!
# Programs in a larger signature

A program over some calls is one over more of them. Where each of its calls does to a part of a
larger state what it does alone, and to the rest nothing but `Frame`, it ends there as it ends
alone.
-/

namespace Effects

section
variable {Op Op' : Type} {Res : Op → Type} {Res' : Op' → Type} {ε α β σ τ C C' : Type}

def Prog.embed (inj : Op → Op') (res : ∀ op, Res' (inj op) → Res op) : Prog Op Res ε α → Prog Op' Res' ε α
  | .ret a => .ret a
  | .throw e => .throw e
  | .call op k => .call (inj op) fun r => embed inj res (k (res op r))

variable {inj : Op → Op'} {res : ∀ op, Res' (inj op) → Res op}

/-- Each embedded call does to the part `part` what it does alone. -/
structure Embeds (h : (op : Op) → C → σ → Option (Res op × σ))
    (h' : (op : Op') → C' → τ → Option (Res' op × τ))
    (inj : Op → Op') (res : ∀ op, Res' (inj op) → Res op) (part : τ → σ) (Frame : τ → τ → Prop) : Prop where
  refl : ∀ t, Frame t t
  trans : ∀ t u v, Frame t u → Frame u v → Frame t v
  call : ∀ op c t r u, h' (inj op) c t = some (r, u) →
    (∃ d, h op d (part t) = some (res op r, part u)) ∧ Frame t u

variable {h : (op : Op) → C → σ → Option (Res op × σ)} {h' : (op : Op') → C' → τ → Option (Res' op × τ)}
variable {part : τ → σ} {Frame : τ → τ → Prop} {A' : Op' → C' → Prop}

theorem wp_embed (hE : Embeds h h' inj res part Frame) {p : Prog Op Res ε α} {Q : Except ε α → σ → Prop} {t : τ}
    (hp : wp h (fun _ _ => True) (fun _ _ => True) p Q (part t)) :
    wp h' A' (fun _ _ => True) (p.embed inj res) (fun r u => Q r (part u) ∧ Frame t u) t := by
  induction p generalizing t with
  | ret a => exact ⟨hp, hE.refl t⟩
  | throw e => exact ⟨hp, hE.refl t⟩
  | call op k ih =>
    refine ⟨trivial, fun c r u _ hr => ?_⟩
    obtain ⟨⟨d, hd⟩, hframe⟩ := hE.call op c t r u hr
    apply wp_mono (ih (res op r) (hp.2 d _ _ trivial hd))
    intro r' v hv
    exact ⟨hv.1, hE.trans t u v hframe hv.2⟩

end

end Effects
