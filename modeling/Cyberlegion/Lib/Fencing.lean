import Mathlib.Order.Defs.PartialOrder
import Mathlib.Tactic.TypeStar

/-!
# Fencing by generations

A role that at most one unit owns at a time. New authority, by a reservation or a
handoff, takes the next generation; a bind and a release stay in theirs. Grants are
ordered by what can follow what, so that within one generation there is at most one
reservation and at most one owner.
-/

namespace Fencing

inductive Authority (ρ υ : Type*)
  | reserved (r : ρ)
  | active (u : υ)
  | vacant

structure Grant (ρ υ : Type*) where
  generation : Nat
  authority : Authority ρ υ

variable {ρ υ : Type*}

inductive Move : Grant ρ υ → Grant ρ υ → Prop
  | reserve (g : Nat) (a : Authority ρ υ) (r : ρ) : Move ⟨g, a⟩ ⟨g + 1, .reserved r⟩
  | bind (g : Nat) (r : ρ) (u : υ) : Move ⟨g, .reserved r⟩ ⟨g, .active u⟩
  | release (g : Nat) (a : Authority ρ υ) (h : a ≠ .vacant) : Move ⟨g, a⟩ ⟨g, .vacant⟩
  | handoff (g : Nat) (u u' : υ) : Move ⟨g, .active u⟩ ⟨g + 1, .active u'⟩

/-- The order in which one generation goes through its stages. -/
def Authority.rank : Authority ρ υ → Nat
  | .reserved _ => 0
  | .active _ => 1
  | .vacant => 2

instance : Preorder (Grant ρ υ) where
  le a b := a.generation < b.generation ∨
    (a.generation = b.generation ∧ (a.authority = b.authority ∨ a.authority.rank < b.authority.rank))
  le_refl a := .inr ⟨rfl, .inl rfl⟩
  le_trans a b c hab hbc := by
    rcases hab with hab | ⟨hab, ha⟩ <;> rcases hbc with hbc | ⟨hbc, hb⟩
    · exact .inl (by omega)
    · exact .inl (by omega)
    · exact .inl (by omega)
    · refine .inr ⟨by omega, ?_⟩
      rcases ha with ha | ha <;> rcases hb with hb | hb
      · exact .inl (ha.trans hb)
      · exact .inr (by rw [ha]; exact hb)
      · exact .inr (by rw [← hb]; exact ha)
      · exact .inr (by omega)

section
variable {a b : Grant ρ υ}

theorem le_iff : a ≤ b ↔ a.generation < b.generation ∨
    (a.generation = b.generation ∧ (a.authority = b.authority ∨ a.authority.rank < b.authority.rank)) := Iff.rfl

theorem generation_mono (h : a ≤ b) : a.generation ≤ b.generation := by
  rcases le_iff.mp h with h | h <;> omega

theorem Move.le (h : Move a b) : a ≤ b := by
  cases h with
  | reserve g a r => exact .inl (Nat.lt_succ_self g)
  | bind g r u => exact .inr ⟨rfl, .inr Nat.zero_lt_one⟩
  | release g a h =>
    refine .inr ⟨rfl, .inr ?_⟩
    cases a with
    | reserved r => exact Nat.zero_lt_two
    | active u => exact Nat.one_lt_two
    | vacant => exact absurd rfl h
  | handoff g u u' => exact .inl (Nat.lt_succ_self g)

theorem owner_unique {g : Nat} {u u' : υ}
    (h : (⟨g, .active u⟩ : Grant ρ υ) ≤ ⟨g, .active u'⟩) : u = u' := by
  rcases le_iff.mp h with h | ⟨-, h | h⟩
  · exact absurd h (Nat.lt_irrefl g)
  · exact Authority.active.inj h
  · exact absurd h (Nat.lt_irrefl 1)

end

end Fencing
