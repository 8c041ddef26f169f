import Mathlib.Algebra.Group.Nat.Defs
import Mathlib.Data.List.Sort

/-!
# Decimal texts in lexical order

Texts that begin with a decimal number are compared by their numbers where these have as
many digits, and else by the digits that both have.
-/

namespace Decimal

section
variable {a b n k : Nat} {s t : List Char}

theorem digitChar_lt {d e : Nat} (hd : d < 10) (he : e < 10) : d.digitChar < e.digitChar ↔ d < e := by
  rw [Char.lt_def, UInt32.lt_iff_toNat_lt]
  show d.digitChar.toNat < e.digitChar.toNat ↔ d < e
  rw [Nat.toNat_digitChar_of_lt_ten hd, Nat.toNat_digitChar_of_lt_ten he]
  omega

theorem digitChar_inj {d e : Nat} (hd : d < 10) (he : e < 10) : d.digitChar = e.digitChar ↔ d = e := by
  refine ⟨fun h => ?_, congrArg _⟩
  have hchar := congrArg Char.toNat h
  rw [Nat.toNat_digitChar_of_lt_ten hd, Nat.toNat_digitChar_of_lt_ten he] at hchar
  omega

theorem digits_succ (h : 10 ≤ n) : Nat.toDigits 10 n = Nat.toDigits 10 (n / 10) ++ [(n % 10).digitChar] :=
  Nat.toDigits_of_base_le (by decide) h

theorem toDigits_append_lt (h : (Nat.toDigits 10 a).length = (Nat.toDigits 10 b).length) :
    Nat.toDigits 10 a ++ s < Nat.toDigits 10 b ++ t ↔ a < b ∨ a = b ∧ s < t := by
  induction a using Nat.strong_induction_on generalizing b s t with
  | _ a ih =>
    have hsame : ∀ n, (Nat.toDigits 10 n).length = 1 ↔ n < 10 := by
      intro n
      have hle := Nat.length_toDigits_le_iff (b := 10) (n := n) (k := 1) (by decide) (by decide)
      have hpos := Nat.length_toDigits_pos (b := 10) (n := n)
      omega
    by_cases ha : a < 10
    · have hb : b < 10 := by rw [← hsame, ← h, hsame]; exact ha
      rw [Nat.toDigits_of_lt_base ha, Nat.toDigits_of_lt_base hb]
      simp only [List.cons_append, List.nil_append]
      rw [List.cons_lt_cons_iff, digitChar_lt ha hb, digitChar_inj ha hb]
    · have hb : ¬b < 10 := by rw [← hsame, ← h, hsame]; exact ha
      rw [not_lt] at ha hb
      rw [digits_succ ha, digits_succ hb, List.length_append, List.length_append] at h
      have hmod : ∀ n, n % 10 < 10 := fun n => Nat.mod_lt n (by decide)
      rw [digits_succ ha, digits_succ hb, List.append_assoc, List.append_assoc,
        ih (a / 10) (by omega) (Nat.add_right_cancel h)]
      simp only [List.cons_append, List.nil_append]
      rw [List.cons_lt_cons_iff, digitChar_lt (hmod a) (hmod b), digitChar_inj (hmod a) (hmod b)]
      constructor
      · rintro (hlt | ⟨heq, hlt | ⟨heq', hst⟩⟩)
        · left; omega
        · left; omega
        · exact .inr ⟨by omega, hst⟩
      · rintro (hlt | ⟨rfl, hst⟩)
        · by_cases hdiv : a / 10 < b / 10
          · exact .inl hdiv
          · exact .inr ⟨by omega, .inl (by omega)⟩
        · exact .inr ⟨rfl, .inr ⟨rfl, hst⟩⟩

theorem toDigits_split (h : 10 ^ k ≤ n) : ∃ low, low.length = k ∧ (∀ c ∈ low, c.isDigit = true) ∧
    Nat.toDigits 10 n = Nat.toDigits 10 (n / 10 ^ k) ++ low := by
  induction k generalizing n with
  | zero => exact ⟨[], rfl, by simp, by simp⟩
  | succ k ih =>
    have hpow : 10 ^ (k + 1) = 10 * 10 ^ k := Nat.pow_succ'
    have hpos : 0 < 10 ^ k := Nat.pow_pos (by decide)
    obtain ⟨low, hlen, hdigits, hlow⟩ := ih (n := n / 10) (by omega)
    refine ⟨low ++ [(n % 10).digitChar], by simp [hlen], fun c hc => ?_, ?_⟩
    · rcases List.mem_append.mp hc with hc | hc
      · exact hdigits c hc
      · rw [List.mem_singleton.mp hc, Nat.isDigit_digitChar]
        exact decide_eq_true (Nat.mod_lt n (by decide))
    · rw [digits_succ (by omega), hlow, List.append_assoc, Nat.div_div_eq_div_mul, hpow]

theorem pow_le_of_lt_length (hk : 0 < k) (h : k < (Nat.toDigits 10 n).length) : 10 ^ k ≤ n := by
  have hle := Nat.length_toDigits_le_iff (b := 10) (n := n) (k := k) (by decide) hk
  omega

theorem length_toDigits_mono (h : a ≤ b) : (Nat.toDigits 10 a).length ≤ (Nat.toDigits 10 b).length := by
  rw [Nat.length_toDigits_le_iff (by decide) Nat.length_toDigits_pos]
  refine h.trans_lt ?_
  rw [← Nat.length_toDigits_le_iff (by decide) Nat.length_toDigits_pos]

def longer (a b : Nat) : Nat := (Nat.toDigits 10 b).length - (Nat.toDigits 10 a).length

/-- A number that is not above another comes before it as a text, whatever follows, where it is not
above the leading digits of that one. The texts go on with a character below the digits. -/
theorem text_lt_iff {c : Char} (hc : ∀ d : Char, d.isDigit = true → c < d) (hab : a ≤ b) :
    Nat.toDigits 10 a ++ c :: s < Nat.toDigits 10 b ++ c :: t ↔ a ≤ b / 10 ^ longer a b ∧ (a = b → s < t) := by
  have hmono := length_toDigits_mono hab
  have hcons : c :: s < c :: t ↔ s < t := by
    rw [List.cons_lt_cons_iff]
    simp
  by_cases hlonger : longer a b = 0
  · rw [longer] at hlonger
    rw [toDigits_append_lt (by omega), longer, hlonger, Nat.pow_zero, Nat.div_one, hcons]
    constructor
    · rintro (hlt | ⟨rfl, hst⟩)
      · exact ⟨hab, fun heq => by omega⟩
      · exact ⟨hab, fun _ => hst⟩
    · rintro ⟨-, hst⟩
      rcases hab.lt_or_eq with hlt | heq
      · exact .inl hlt
      · exact .inr ⟨heq, hst heq⟩
  · have hpos := Nat.pos_of_ne_zero hlonger
    have hne : a ≠ b := by
      rintro rfl
      exact hlonger (Nat.sub_self _)
    have hfew : longer a b < (Nat.toDigits 10 b).length := by
      have hdigits := Nat.length_toDigits_pos (b := 10) (n := a)
      unfold longer
      omega
    obtain ⟨low, hlen, hdigits, hlow⟩ := toDigits_split (pow_le_of_lt_length hpos hfew)
    have hlead : (Nat.toDigits 10 a).length = (Nat.toDigits 10 (b / 10 ^ longer a b)).length := by
      have hall := congrArg List.length hlow
      rw [List.length_append, hlen] at hall
      unfold longer at hall hpos ⊢
      omega
    rw [hlow, List.append_assoc, toDigits_append_lt hlead]
    have hnext : c :: s < low ++ c :: t := by
      cases low with
      | nil =>
        rw [← hlen] at hpos
        cases hpos
      | cons d low =>
        rw [List.cons_append, List.cons_lt_cons_iff]
        exact .inl (hc d (hdigits d List.mem_cons_self))
    constructor
    · rintro (hlt | ⟨heq, -⟩)
      · exact ⟨hlt.le, fun h => absurd h hne⟩
      · exact ⟨heq.le, fun h => absurd h hne⟩
    · rintro ⟨hle, -⟩
      rcases hle.lt_or_eq with hlt | heq
      · exact .inl hlt
      · exact .inr ⟨heq, hnext⟩

end

end Decimal
