import Mathlib.Data.List.Basic

/-!
# TOML basic strings

What a TOML basic string stands for, and an assignment of one to a bare key. No other
value is read here.
-/

namespace Toml

def hexDigit (c : Char) : Option Nat :=
  if c.isDigit then some (c.toNat - '0'.toNat)
  else if 'a' ≤ c ∧ c ≤ 'f' then some (c.toNat - 'a'.toNat + 10)
  else if 'A' ≤ c ∧ c ≤ 'F' then some (c.toNat - 'A'.toNat + 10)
  else none

def hexNumber (digits : List Char) : Option Nat :=
  digits.foldl (fun n c => n.bind fun n => (hexDigit c).map (16 * n + ·)) (some 0)

/-- The scalar value with this number, if there is one. -/
def scalar (n : Nat) : Option Char := if n.isValidChar then some (Char.ofNat n) else none

def control (c : Char) : Bool := (c.toNat < 32 ∧ c ≠ '\t') ∨ c.toNat = 127

def plain (c : Char) : Bool := c ≠ '"' ∧ c ≠ '\\' ∧ ¬control c

def unescape : Char → Option Char
  | 'b' => some '\x08'
  | 't' => some '\t'
  | 'n' => some '\n'
  | 'f' => some '\x0c'
  | 'r' => some '\r'
  | '"' => some '"'
  | '\\' => some '\\'
  | _ => none

/-- What stands for what, from behind the opening quote to the closing one and the end. -/
def body : List Char → Option (List Char)
  | [] => none
  | ['"'] => some []
  | '"' :: _ :: _ => none
  | '\\' :: 'u' :: a :: b :: c :: d :: s =>
    ((hexNumber [a, b, c, d]).bind scalar).bind fun x => (body s).map (x :: ·)
  | '\\' :: 'U' :: a :: b :: c :: d :: e :: f :: g :: h :: s =>
    ((hexNumber [a, b, c, d, e, f, g, h]).bind scalar).bind fun x => (body s).map (x :: ·)
  | '\\' :: c :: s => (unescape c).bind fun x => (body s).map (x :: ·)
  | ['\\'] => none
  | c :: s => if control c then none else (body s).map (c :: ·)

def basicString : List Char → Option (List Char)
  | '"' :: s => body s
  | _ => none

def bareKey (c : Char) : Bool := c.isAlphanum ∨ c = '_' ∨ c = '-'

/-- `key=value` with a bare key and a basic string. -/
def assignment (s : List Char) : Option (List Char × List Char) :=
  let key := s.takeWhile bareKey
  match s.dropWhile bareKey with
  | '=' :: value => if key = [] then none else (basicString value).map (key, ·)
  | _ => none

section
variable {c : Char} {s t key : List Char}

theorem body_plain (hc : plain c = true) : body (c :: s) = (body s).map (c :: ·) := by
  obtain ⟨hquote, hslash, hcontrol⟩ := of_decide_eq_true hc
  rw [body]
  · rw [if_neg hcontrol]
  all_goals intros; simp_all

theorem body_unicode {n : Nat} {a b d e : Char} (h : hexNumber [a, b, d, e] = some n) (hn : n.isValidChar) :
    body ('\\' :: 'u' :: a :: b :: d :: e :: s) = (body s).map (Char.ofNat n :: ·) := by
  rw [body, h, Option.bind_some, scalar, if_pos hn, Option.bind_some]

theorem body_length (h : body s = some t) : t.length < s.length ∧ (s.head? = some '\\' → t.length + 1 < s.length) := by
  fun_induction body s generalizing t with
  | case1 => cases h
  | case2 =>
    cases h
    exact ⟨Nat.zero_lt_one, fun h => absurd h (by decide)⟩
  | case3 => cases h
  | case4 a b c d s ih =>
    obtain ⟨x, -, hx⟩ := Option.bind_eq_some_iff.mp h
    obtain ⟨y, hy, rfl⟩ := Option.map_eq_some_iff.mp hx
    have hlt := (ih hy).1
    simp only [List.length_cons]
    omega
  | case5 a b c d e f g h' s ih =>
    obtain ⟨x, -, hx⟩ := Option.bind_eq_some_iff.mp h
    obtain ⟨y, hy, rfl⟩ := Option.map_eq_some_iff.mp hx
    have hlt := (ih hy).1
    simp only [List.length_cons]
    omega
  | case6 c s _ _ ih =>
    obtain ⟨x, -, hx⟩ := Option.bind_eq_some_iff.mp h
    obtain ⟨y, hy, rfl⟩ := Option.map_eq_some_iff.mp hx
    have hlt := (ih hy).1
    simp only [List.length_cons]
    omega
  | case7 => cases h
  | case8 c s _ _ _ _ _ _ hcontrol => cases h
  | case9 c s _ _ _ _ hescape hend _ ih =>
    obtain ⟨y, hy, rfl⟩ := Option.map_eq_some_iff.mp h
    have hlt := (ih hy).1
    simp only [List.length_cons]
    refine ⟨by omega, fun hhead => ?_⟩
    have hslash : c = '\\' := Option.some.inj hhead
    cases s with
    | nil => exact (hend hslash rfl).elim
    | cons d s => exact (hescape d s hslash rfl).elim

/-- A text reads as itself between quotes exactly where every character stands for itself. -/
theorem body_self_iff : body (s ++ ['"']) = some s ↔ ∀ c ∈ s, plain c = true := by
  induction s with
  | nil => exact ⟨fun _ c hc => absurd hc List.not_mem_nil, fun _ => rfl⟩
  | cons c s ih =>
    rw [List.cons_append, List.forall_mem_cons]
    by_cases hc : plain c = true
    · rw [body_plain hc, ← ih]
      simp [hc]
    · refine ⟨fun h => ?_, fun h => absurd h.1 hc⟩
      obtain ⟨hlt, hslash⟩ := body_length h
      by_cases hquote : c = '"'
      · subst hquote
        obtain ⟨d, more, hmore⟩ :=
          List.exists_cons_of_ne_nil (List.append_ne_nil_of_right_ne_nil s (List.cons_ne_nil '"' []))
        rw [hmore, body] at h
        cases h
      · by_cases hback : c = '\\'
        · have hlong := hslash (congrArg some hback)
          simp only [List.length_cons, List.length_append, List.length_nil] at hlong
          omega
        · have hcontrol : control c = true := by
            by_contra hcontrol
            exact hc (decide_eq_true ⟨hquote, hback, hcontrol⟩)
          rw [body] at h
          · rw [if_pos hcontrol] at h
            cases h
          all_goals intros; simp_all

theorem assignment_append (hne : key ≠ []) (hkey : ∀ c ∈ key, bareKey c = true) :
    assignment (key ++ '=' :: s) = (basicString s).map (key, ·) := by
  have htake : (key ++ '=' :: s).takeWhile bareKey = key := by
    rw [List.takeWhile_append_of_pos hkey]
    exact List.append_nil key
  have hdrop : (key ++ '=' :: s).dropWhile bareKey = '=' :: s := by
    rw [List.dropWhile_append_of_pos hkey]
    rfl
  rw [assignment, htake, hdrop]
  exact if_neg hne

end

end Toml
