import Mathlib.Data.List.Nodup

/-!
# Maps in the order of insertion

A map as the list of its entries. Setting a key that is there leaves it in its place;
a new key comes last.
-/

namespace Entries

section
variable {κ β : Type} [DecidableEq κ]

def get : List (κ × β) → κ → Option β
  | [], _ => none
  | e :: m, k => if e.1 = k then some e.2 else get m k

def set : List (κ × β) → κ → β → List (κ × β)
  | [], k, v => [(k, v)]
  | e :: m, k, v => if e.1 = k then (k, v) :: m else e :: set m k v

def delete (m : List (κ × β)) (k : κ) : List (κ × β) := m.filter fun e => e.1 ≠ k

def ofList (l : List (κ × β)) : List (κ × β) := l.foldl (fun m e => set m e.1 e.2) []

end

section
variable {κ β : Type}

/-- No key stands in it twice. -/
def Keyed (m : List (κ × β)) : Prop := (m.map (·.1)).Nodup

variable {m l : List (κ × β)} {k k' : κ} {v : β} {e : κ × β}

theorem keyed_cons : Keyed (e :: m) ↔ (∀ e' ∈ m, e'.1 ≠ e.1) ∧ Keyed m := by
  rw [Keyed, List.map_cons, List.nodup_cons, List.mem_map]
  refine and_congr_left fun _ => ⟨fun h e' he' heq => h ⟨e', he', heq⟩, ?_⟩
  rintro h ⟨e', he', heq⟩
  exact h e' he' heq

variable [DecidableEq κ]

theorem get_eq_some (hm : Keyed m) : get m k = some v ↔ (k, v) ∈ m := by
  induction m with
  | nil => simp [get]
  | cons e m ih =>
    obtain ⟨hne, hm⟩ := keyed_cons.mp hm
    rw [get, List.mem_cons]
    by_cases hk : e.1 = k
    · rw [if_pos hk]
      refine ⟨fun h => .inl (Prod.ext hk.symm (Option.some.inj h).symm), fun h => ?_⟩
      rcases h with rfl | h
      · rfl
      · exact absurd hk.symm (hne _ h)
    · rw [if_neg hk, ih hm]
      refine ⟨.inr, fun h => h.resolve_left ?_⟩
      rintro rfl
      exact hk rfl

theorem mem_set (hm : Keyed m) : e ∈ set m k v ↔ e = (k, v) ∨ e ∈ m ∧ e.1 ≠ k := by
  induction m with
  | nil => simp [set]
  | cons e' m ih =>
    obtain ⟨hne, hm⟩ := keyed_cons.mp hm
    rw [set]
    by_cases hk : e'.1 = k
    · rw [if_pos hk, List.mem_cons, List.mem_cons]
      refine or_congr_right ⟨fun h => ⟨.inr h, hk ▸ hne e h⟩, ?_⟩
      rintro ⟨rfl | h, hek⟩
      · exact absurd hk hek
      · exact h
    · rw [if_neg hk, List.mem_cons, ih hm, List.mem_cons]
      constructor
      · rintro (rfl | rfl | ⟨h, hek⟩)
        · exact .inr ⟨.inl rfl, hk⟩
        · exact .inl rfl
        · exact .inr ⟨.inr h, hek⟩
      · rintro (rfl | ⟨rfl | h, hek⟩)
        · exact .inr (.inl rfl)
        · exact .inl rfl
        · exact .inr (.inr ⟨h, hek⟩)

theorem keyed_set (hm : Keyed m) : Keyed (set m k v) := by
  induction m with
  | nil => simp [Keyed, set]
  | cons e m ih =>
    obtain ⟨hne, hm⟩ := keyed_cons.mp hm
    rw [set]
    by_cases hk : e.1 = k
    · rw [if_pos hk, keyed_cons]
      exact ⟨fun e' he' => hk ▸ hne e' he', hm⟩
    · rw [if_neg hk, keyed_cons]
      refine ⟨fun e' he' => ?_, ih hm⟩
      rcases (mem_set hm).mp he' with rfl | ⟨he', -⟩
      · exact fun heq => hk heq.symm
      · exact hne e' he'

theorem get_set : get (set m k v) k' = if k' = k then some v else get m k' := by
  induction m with
  | nil =>
    simp only [set, get]
    exact if_congr eq_comm rfl rfl
  | cons e m ih =>
    rw [set]
    by_cases hk : e.1 = k
    · rw [if_pos hk, get, get]
      by_cases hk' : k' = k
      · rw [if_pos hk', if_pos hk'.symm]
      · rw [if_neg hk', if_neg fun h => hk' h.symm, if_neg fun h => hk' (h.symm.trans hk)]
    · rw [if_neg hk, get, get, ih]
      by_cases he : e.1 = k'
      · rw [if_pos he, if_pos he, if_neg fun h => hk (he.trans h)]
      · rw [if_neg he, if_neg he]

theorem set_set {w : β} : set (set m k v) k w = set m k w := by
  induction m with
  | nil => simp only [set, if_true]
  | cons e m ih =>
    by_cases hk : e.1 = k
    · simp only [set, hk, if_true]
    · simp only [set, hk, if_false, ih]

theorem set_of_get (h : get m k = some v) : set m k v = m := by
  induction m with
  | nil => cases h
  | cons e m ih =>
    rw [get] at h
    rw [set]
    by_cases hk : e.1 = k
    · rw [if_pos hk] at h ⊢
      rw [← Option.some_inj.mp h, ← hk]
    · rw [if_neg hk] at h ⊢
      rw [ih h]

theorem get_delete : get (delete m k) k' = if k' = k then none else get m k' := by
  induction m with
  | nil => exact (ite_self none).symm
  | cons e m ih =>
    by_cases hk : e.1 = k
    · rw [delete, List.filter_cons_of_neg (by simpa using hk)]
      refine ih.trans ?_
      by_cases hk' : k' = k
      · rw [if_pos hk', if_pos hk']
      · rw [if_neg hk', if_neg hk', get, if_neg fun h => hk' (h.symm.trans hk)]
    · rw [delete, List.filter_cons_of_pos (by simpa using hk), get, get, ← delete, ih]
      by_cases he : e.1 = k'
      · rw [if_pos he, if_pos he, if_neg fun h => hk (he.trans h)]
      · rw [if_neg he, if_neg he]

theorem keyed_delete (hm : Keyed m) : Keyed (delete m k) :=
  hm.sublist (List.filter_sublist.map _)

theorem keyed_foldl (hm : Keyed m) : Keyed (l.foldl (fun m e => set m e.1 e.2) m) := by
  induction l generalizing m with
  | nil => exact hm
  | cons e l ih => exact ih (keyed_set hm)

theorem keyed_ofList : Keyed (ofList l) := keyed_foldl List.nodup_nil

theorem mem_foldl (hm : Keyed m) (huniq : ∀ e ∈ m ++ l, ∀ e' ∈ m ++ l, e.1 = e'.1 → e = e') :
    e ∈ l.foldl (fun m e => set m e.1 e.2) m ↔ e ∈ m ++ l := by
  induction l generalizing m with
  | nil => rw [List.foldl_nil, List.append_nil]
  | cons e' l ih =>
    have hmem : ∀ x, x ∈ set m e'.1 e'.2 ↔ x = e' ∨ x ∈ m := by
      intro x
      rw [mem_set hm]
      refine ⟨fun h => h.imp_right And.left, fun h => ?_⟩
      by_cases hkey : x.1 = e'.1
      · refine .inl (h.elim id fun hx => ?_)
        exact huniq x (List.mem_append_left _ hx) e' (List.mem_append_right _ List.mem_cons_self) hkey
      · exact h.imp_right fun hx => ⟨hx, hkey⟩
    have hall : ∀ x, x ∈ set m e'.1 e'.2 ++ l ↔ x ∈ m ++ e' :: l := by
      intro x
      simp only [List.mem_append, List.mem_cons, hmem]
      rw [or_assoc, or_left_comm]
    rw [List.foldl_cons, ih (keyed_set hm) fun x hx y hy => huniq x ((hall x).mp hx) y ((hall y).mp hy), hall]

theorem mem_ofList (huniq : ∀ e ∈ l, ∀ e' ∈ l, e.1 = e'.1 → e = e') : e ∈ ofList l ↔ e ∈ l :=
  mem_foldl List.nodup_nil huniq

end

end Entries
