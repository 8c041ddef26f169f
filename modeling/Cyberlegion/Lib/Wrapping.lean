import Mathlib.Data.List.Basic

/-!
# Texts wrapped anew

Two texts that differ in white characters only, and texts that a mark opens and another
one closes.
-/

namespace Wrapping

section
variable {α : Type} (white : α → Bool)

def squeeze (xs : List α) : List α := xs.filter fun c => !white c

/-- White characters come in and go anywhere; all others stay. -/
inductive Rewrapped : List α → List α → Prop
  | nil : Rewrapped [] []
  | same (c : α) {xs ys : List α} : Rewrapped xs ys → Rewrapped (c :: xs) (c :: ys)
  | insert {c : α} {xs ys : List α} : white c = true → Rewrapped xs ys → Rewrapped xs (c :: ys)
  | remove {c : α} {xs ys : List α} : white c = true → Rewrapped xs ys → Rewrapped (c :: xs) ys

variable {white} {xs ys zs : List α} {c : α}

theorem squeeze_white (hc : white c = true) : squeeze white (c :: xs) = squeeze white xs := by
  simp [squeeze, hc]

theorem squeeze_black (hc : white c = false) : squeeze white (c :: xs) = c :: squeeze white xs := by
  simp [squeeze, hc]

theorem squeeze_append : squeeze white (xs ++ ys) = squeeze white xs ++ squeeze white ys := List.filter_append xs ys

theorem squeeze_squeeze : squeeze white (squeeze white xs) = squeeze white xs := by
  simp [squeeze]

theorem squeeze_eq_nil_iff : squeeze white xs = [] ↔ ∀ c ∈ xs, white c = true := by
  simp [squeeze, List.filter_eq_nil_iff]

theorem Rewrapped.of_white (h : ∀ c ∈ ys, white c = true) : Rewrapped white [] ys := by
  induction ys with
  | nil => exact .nil
  | cons c ys ih => exact .insert (h c List.mem_cons_self) (ih fun d hd => h d (List.mem_cons_of_mem c hd))

theorem rewrapped_iff : Rewrapped white xs ys ↔ squeeze white xs = squeeze white ys := by
  constructor
  · intro h
    induction h with
    | nil => rfl
    | same c _ ih =>
      by_cases hc : white c = true
      · rw [squeeze_white hc, squeeze_white hc, ih]
      · rw [squeeze_black (by simpa using hc), squeeze_black (by simpa using hc), ih]
    | insert hc _ ih => rw [squeeze_white hc, ih]
    | remove hc _ ih => rw [squeeze_white hc, ih]
  · induction xs generalizing ys with
    | nil =>
      intro h
      exact .of_white (squeeze_eq_nil_iff.mp h.symm)
    | cons c xs ih =>
      by_cases hc : white c = true
      · rw [squeeze_white hc]
        exact fun h => .remove hc (ih h)
      · rw [squeeze_black (by simpa using hc)]
        intro h
        induction ys with
        | nil => cases h
        | cons d ys ihy =>
          by_cases hd : white d = true
          · rw [squeeze_white hd] at h
            exact .insert hd (ihy h)
          · rw [squeeze_black (by simpa using hd)] at h
            obtain ⟨rfl, hrest⟩ := List.cons.inj h
            exact .same c (ih hrest)

/-! ## Between two marks -/

variable [DecidableEq α]

/-- The expression `^front.+back$`, where `.` is every character that is not a `stop`. -/
def between (stop : α → Bool) (front back xs : List α) : Bool :=
  front.isPrefixOf xs && back.isSuffixOf (xs.drop front.length) &&
    (let middle := (xs.drop front.length).take (xs.length - front.length - back.length)
     !middle.isEmpty && middle.all fun c => !stop c)

theorem between_iff {stop : α → Bool} {front back : List α} : between stop front back xs = true ↔
    ∃ middle, xs = front ++ (middle ++ back) ∧ middle ≠ [] ∧ ∀ c ∈ middle, stop c = false := by
  rw [between]
  simp only [Bool.and_eq_true, List.isPrefixOf_iff_prefix, List.isSuffixOf_iff_suffix]
  constructor
  · intro ⟨⟨⟨rest, hrest⟩, hsuffix⟩, hmiddle⟩
    subst hrest
    rw [List.drop_left] at hsuffix hmiddle
    obtain ⟨middle, rfl⟩ := hsuffix
    have hlength : (front ++ (middle ++ back)).length - front.length - back.length = middle.length := by
      simp only [List.length_append]
      omega
    rw [hlength, List.take_left] at hmiddle
    exact ⟨middle, rfl, by simpa using hmiddle.1, by simpa using hmiddle.2⟩
  · intro ⟨middle, hxs, hne, hall⟩
    subst hxs
    have hlength : (front ++ (middle ++ back)).length - front.length - back.length = middle.length := by
      simp only [List.length_append]
      omega
    rw [List.drop_left, hlength, List.take_left]
    exact ⟨⟨⟨_, rfl⟩, ⟨_, rfl⟩⟩, by simpa using hne, by simpa using hall⟩

end

end Wrapping
