import Mathlib.Data.List.DropRight

/-!
# Texts

Lists cut at a separator, and lists trimmed at both ends.
-/

namespace Text

theorem not_mem_splitOn {α : Type} [DecidableEq α] {sep : α} {text row : List α}
    (hrow : row ∈ text.splitOn sep) : sep ∉ row := by
  induction text generalizing row with
  | nil =>
    rw [List.splitOn_nil] at hrow
    rw [List.mem_singleton.mp hrow]
    exact List.not_mem_nil
  | cons c text ih =>
    rw [List.splitOn_cons_eq_if_modifyHead] at hrow
    obtain ⟨first, rest, hsplit⟩ := List.exists_cons_of_ne_nil (List.splitOn_ne_nil sep text)
    rw [hsplit] at ih hrow
    by_cases hc : (c == sep) = true
    · rw [if_pos hc] at hrow
      rcases List.mem_cons.mp hrow with rfl | hrow
      · exact List.not_mem_nil
      · exact ih hrow
    · rw [if_neg hc] at hrow
      rcases List.mem_cons.mp hrow with rfl | hrow
      · intro hsep
        rcases List.mem_cons.mp hsep with rfl | hsep
        · exact hc (beq_self_eq_true _)
        · exact ih List.mem_cons_self hsep
      · exact ih (List.mem_cons_of_mem _ hrow)

/-! ## Marks

A mark begins with a character that it does not have again, so two marks in a text do not overlap. -/

section
variable {α : Type} {c : α} {w front back left right : List α}

/-- A mark in a text that is cut at a mark: it is before the cut, at the cut or after it. -/
theorem mark_cases (hc : c ∉ w) (h : front ++ (c :: w ++ back) = left ++ (c :: w ++ right)) :
    (∃ m, front = left ++ (c :: w ++ m) ∧ right = m ++ (c :: w ++ back)) ∨ (front = left ∧ back = right) ∨
      ∃ m, back = m ++ (c :: w ++ right) ∧ left = front ++ (c :: w ++ m) := by
  -- a mark that begins with the other text's first character goes past the other mark
  have hpast : ∀ {x y z : List α}, w ++ x = y ++ (c :: w ++ z) → ∃ m, x = m ++ (c :: w ++ z) ∧ y = w ++ m := by
    intro x y z heq
    rcases List.append_eq_append_iff.mp heq with ⟨m, hy, hx⟩ | ⟨m, hw, hz⟩
    · exact ⟨m, hx, hy⟩
    · cases m with
      | nil =>
        rw [List.append_nil] at hw
        exact ⟨[], hz.symm, by rw [hw, List.append_nil]⟩
      | cons d m =>
        have hd : c = d := (List.cons.inj hz).1
        rw [hw, ← hd] at hc
        exact absurd (List.mem_append_right _ List.mem_cons_self) hc
  induction front generalizing left with
  | nil =>
    cases left with
    | nil => exact .inr (.inl ⟨rfl, List.append_cancel_left h⟩)
    | cons d left =>
      obtain ⟨rfl, heq⟩ := List.cons.inj h
      obtain ⟨m, hback, hleft⟩ := hpast heq
      exact .inr (.inr ⟨m, hback, congrArg (c :: ·) hleft⟩)
  | cons d front ih =>
    cases left with
    | nil =>
      obtain ⟨rfl, heq⟩ := List.cons.inj h
      obtain ⟨m, hright, hfront⟩ := hpast heq.symm
      exact .inl ⟨m, congrArg (d :: ·) hfront, hright⟩
    | cons e left =>
      obtain ⟨rfl, heq⟩ := List.cons.inj h
      rcases ih heq with ⟨m, hfront, hright⟩ | ⟨hfront, hback⟩ | ⟨m, hback, hleft⟩
      · exact .inl ⟨m, congrArg (d :: ·) hfront, hright⟩
      · exact .inr (.inl ⟨congrArg (d :: ·) hfront, hback⟩)
      · exact .inr (.inr ⟨m, hback, congrArg (d :: ·) hleft⟩)

/-- A mark that neither part has cuts a text in one way. -/
theorem mark_unique (hc : c ∉ w) (hfront : ¬c :: w <:+: front) (hback : ¬c :: w <:+: back)
    (h : front ++ (c :: w ++ back) = left ++ (c :: w ++ right)) : front = left ∧ back = right := by
  rcases mark_cases hc h with ⟨m, hm, -⟩ | hsame | ⟨m, hm, -⟩
  · exact absurd ⟨left, m, by rw [hm, List.append_assoc]⟩ hfront
  · exact hsame
  · exact absurd ⟨m, right, by rw [hm, List.append_assoc]⟩ hback

theorem cut_unique (hfront : c ∉ front) (hleft : c ∉ left) (h : front ++ c :: back = left ++ c :: right) :
    front = left ∧ back = right := by
  rcases mark_cases (w := []) List.not_mem_nil h with ⟨m, hm, -⟩ | hsame | ⟨m, -, hm⟩
  · exact absurd (hm ▸ List.mem_append_right _ List.mem_cons_self) hfront
  · exact hsame
  · exact absurd (hm ▸ List.mem_append_right _ List.mem_cons_self) hleft

end

/-! ## Trimming -/

section
variable {α : Type} (p : α → Bool)

def trim (xs : List α) : List α := (xs.dropWhile p).rdropWhile p

variable {p} {xs front back : List α}

theorem rdropWhile_append_of_pos (h : ∀ x ∈ back, p x = true) : (xs ++ back).rdropWhile p = xs.rdropWhile p := by
  rw [List.rdropWhile, List.reverse_append, List.dropWhile_append_of_pos fun x hx => h x (List.mem_reverse.mp hx)]
  rfl

theorem trim_prepend (h : ∀ x ∈ front, p x = true) : trim p (front ++ xs) = trim p xs := by
  rw [trim, List.dropWhile_append_of_pos h, trim]

theorem trim_append (h : ∀ x ∈ back, p x = true) : trim p (xs ++ back) = trim p xs := by
  rw [trim, trim, List.dropWhile_append]
  by_cases hxs : (xs.dropWhile p).isEmpty = true
  · rw [if_pos hxs, List.isEmpty_iff.mp hxs, List.dropWhile_eq_nil_iff.mpr h]
  · rw [if_neg hxs, rdropWhile_append_of_pos h]

theorem trim_eq_nil_iff : trim p xs = [] ↔ ∀ x ∈ xs, p x = true := by
  rw [trim, List.rdropWhile_eq_nil_iff]
  constructor
  · intro h x hx
    by_contra hp
    rw [← List.takeWhile_append_dropWhile (p := p) (l := xs)] at hx
    rcases List.mem_append.mp hx with hx | hx
    · exact hp (List.mem_takeWhile_imp hx)
    · exact hp (h x hx)
  · exact fun h x hx => h x ((List.dropWhile_suffix p).subset hx)

theorem trim_self (hhead : ∀ x, xs.head? = some x → p x = false) (hlast : ∀ x, xs.getLast? = some x → p x = false) :
    trim p xs = xs := by
  have hfront : xs.dropWhile p = xs := by
    cases xs with
    | nil => rfl
    | cons x xs => exact List.dropWhile_cons_of_neg (Bool.eq_false_iff.mp (hhead x rfl))
  rw [trim, hfront, List.rdropWhile_eq_self_iff]
  intro hne
  exact Bool.eq_false_iff.mp (hlast _ (List.getLast?_eq_some_getLast hne))

theorem head_trim_cons {x : α} (h : p x = false) : (trim p (x :: xs)).head? = some x := by
  have hfront : (x :: xs).dropWhile p = x :: xs := List.dropWhile_cons_of_neg (Bool.eq_false_iff.mp h)
  rw [trim, hfront]
  have hne : (x :: xs).rdropWhile p ≠ [] := by
    intro hnil
    rw [List.rdropWhile_eq_nil_iff.mp hnil x List.mem_cons_self] at h
    cases h
  obtain ⟨y, rest, hrest⟩ := List.exists_cons_of_ne_nil hne
  obtain ⟨more, hmore⟩ := List.rdropWhile_prefix p (x :: xs)
  rw [hrest] at hmore
  rw [hrest, List.head?_cons, (List.cons.inj hmore).1]

theorem trim_dropWhile : trim p (xs.dropWhile p) = trim p xs := by
  rw [trim, List.dropWhile_idempotent, trim]

theorem rdropWhile_append_of_mem {x : α} (hx : x ∈ back) (h : p x = false) :
    (xs ++ back).rdropWhile p = xs ++ back.rdropWhile p := by
  have hne : ¬(back.reverse.dropWhile p).isEmpty = true := by
    rw [List.isEmpty_iff, List.dropWhile_eq_nil_iff]
    intro hall
    rw [hall x (List.mem_reverse.mpr hx)] at h
    cases h
  rw [List.rdropWhile, List.reverse_append, List.dropWhile_append, if_neg hne, List.reverse_append,
    List.reverse_reverse,
    List.rdropWhile]

theorem trim_length_lt {x : α} (hx : x ∈ front) (h : p x = false) :
    (trim p xs).length < (trim p (front ++ xs)).length := by
  have hne : trim p front ≠ [] := by
    intro hnil
    rw [trim_eq_nil_iff.mp hnil x hx] at h
    cases h
  have hkept : ¬(front.dropWhile p).isEmpty = true := by
    rw [List.isEmpty_iff, List.dropWhile_eq_nil_iff]
    intro hall
    rw [hall x hx] at h
    cases h
  by_cases hblank : ∀ y ∈ xs, p y = true
  · rw [trim_append hblank, trim_eq_nil_iff.mpr hblank]
    exact List.length_pos_iff.mpr hne
  · obtain ⟨y, hy, hp⟩ : ∃ y ∈ xs, p y = false := by
      by_contra hall
      refine hblank fun y hy => ?_
      by_contra hp
      exact hall ⟨y, hy, Bool.eq_false_iff.mpr hp⟩
    have hdrop : y ∈ xs.dropWhile p := by
      rw [← List.takeWhile_append_dropWhile (p := p) (l := xs)] at hy
      rcases List.mem_append.mp hy with hy | hy
      · rw [List.mem_takeWhile_imp hy] at hp
        cases hp
      · exact hy
    have hxs : xs.rdropWhile p = xs.takeWhile p ++ trim p xs := by
      conv_lhs => rw [← List.takeWhile_append_dropWhile (p := p) (l := xs)]
      exact rdropWhile_append_of_mem hdrop hp
    rw [trim, trim, List.dropWhile_append, if_neg hkept, rdropWhile_append_of_mem hy hp, hxs, trim, List.length_append,
      List.length_append]
    have hlong : 0 < (front.dropWhile p).length := List.length_pos_iff.mpr fun hnil => hkept (List.isEmpty_iff.mpr hnil)
    omega

theorem last_trim {x : α} (h : (trim p xs).getLast? = some x) : p x = false := by
  have hne : trim p xs ≠ [] := fun hnil => by rw [hnil] at h; cases h
  rw [List.getLast?_eq_some_getLast hne] at h
  cases h
  exact Bool.eq_false_iff.mpr (List.rdropWhile_last_not p _ hne)

end

end Text
