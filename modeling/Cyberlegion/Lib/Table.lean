import Mathlib.Data.List.AList

/-!
# Tables

Finite maps whose values do not depend on the key, with one rewrite rule for a
look-up after each update; and tables that file each value under its own key.
-/

abbrev Table (α β : Type) := AList fun _ : α => β

namespace Table

variable {α β : Type} [DecidableEq α]

theorem lookup_insert_eq (s : Table α β) (a a' : α) (b : β) :
    (s.insert a' b).lookup a = if a = a' then some b else s.lookup a := by
  by_cases h : a = a'
  · rw [h, if_pos rfl, AList.lookup_insert]
  · rw [if_neg h, AList.lookup_insert_ne h]

theorem lookup_erase_eq (s : Table α β) (a a' : α) :
    (s.erase a').lookup a = if a = a' then none else s.lookup a := by
  by_cases h : a = a'
  · rw [h, if_pos rfl, AList.lookup_erase]
  · rw [if_neg h, AList.lookup_erase_ne h]

def values (s : Table α β) : List β := s.entries.map (·.2)

def select (s : Table α β) (P : α → Bool) : List β := (s.entries.filter fun e => P e.1).map (·.2)

theorem values_eq (s : Table α β) : s.values = s.keys.filterMap s.lookup := by
  rw [AList.keys, List.keys, List.filterMap_map, values, ← List.filterMap_eq_map]
  exact List.filterMap_congr fun e he => (AList.mem_lookup_iff.mpr he).symm

theorem select_eq (s : Table α β) (P : α → Bool) : s.select P = (s.keys.filter P).filterMap s.lookup := by
  rw [AList.keys, List.keys, List.filter_map, List.filterMap_map, select, ← List.filterMap_eq_map]
  exact List.filterMap_congr fun e he => (AList.mem_lookup_iff.mpr (List.mem_filter.mp he).1).symm

def without (s : Table α β) (P : α → Bool) : Table α β := (s.keys.filter P).foldl (fun t a => t.erase a) s

theorem lookup_foldl_erase (l : List α) (s : Table α β) (a : α) :
    (l.foldl (fun (t : Table α β) a => t.erase a) s).lookup a = if a ∈ l then none else s.lookup a := by
  induction l generalizing s with
  | nil => rfl
  | cons b l ih =>
    rw [List.foldl_cons, ih, lookup_erase_eq]
    by_cases hl : a ∈ l
    · rw [if_pos hl, if_pos (List.mem_cons_of_mem b hl)]
    · rw [if_neg hl]
      by_cases hb : a = b
      · rw [if_pos hb, if_pos (hb ▸ List.mem_cons_self)]
      · rw [if_neg hb, if_neg (List.not_mem_cons_of_ne_of_not_mem hb hl)]

theorem lookup_without (s : Table α β) (P : α → Bool) (a : α) :
    (s.without P).lookup a = if P a then none else s.lookup a := by
  rw [without, lookup_foldl_erase]
  by_cases hP : P a = true
  · rw [if_pos hP]
    by_cases hk : a ∈ s.keys
    · rw [if_pos (List.mem_filter.mpr ⟨hk, hP⟩)]
    · rw [if_neg fun h => hk (List.mem_filter.mp h).1]
      exact AList.lookup_eq_none.mpr hk
  · rw [if_neg hP, if_neg fun h => hP (List.mem_filter.mp h).2]

def Keyed (P : α → β → Prop) (s : Table α β) : Prop := ∀ a b, s.lookup a = some b → P a b

namespace Keyed

variable {P : α → β → Prop} {s : Table α β} {a : α} {b : β}

theorem insert (h : s.Keyed P) (hb : P a b) : Table.Keyed P (s.insert a b) := by
  intro a' b' h'
  rw [lookup_insert_eq] at h'
  by_cases ha : a' = a
  · rw [if_pos ha] at h'
    cases h'
    rw [ha]; exact hb
  · rw [if_neg ha] at h'
    exact h a' b' h'

theorem erase (h : s.Keyed P) : Table.Keyed P (s.erase a) := by
  intro a' b' h'
  rw [lookup_erase_eq] at h'
  by_cases ha : a' = a
  · rw [if_pos ha] at h'; cases h'
  · rw [if_neg ha] at h'
    exact h a' b' h'

theorem without {Q : α → Bool} (h : s.Keyed P) : (s.without Q).Keyed P := by
  intro a' b' h'
  rw [lookup_without] at h'
  by_cases ha : Q a' = true
  · rw [if_pos ha] at h'; cases h'
  · rw [if_neg ha] at h'
    exact h a' b' h'

end Keyed

end Table

/-- Values filed under their own key, each of them valid. -/
structure Filed {α β : Type} [DecidableEq α] (key : β → α) (valid : β → Prop) where
  table : Table α β
  filed : ∀ a b, table.lookup a = some b → key b = a ∧ valid b

namespace Filed

variable {α β : Type} [DecidableEq α] {key : β → α} {valid : β → Prop}

def empty : Filed key valid := ⟨∅, fun _ _ h => by simp at h⟩

def get (r : Filed key valid) (a : α) : Option β := r.table.lookup a

def values (r : Filed key valid) : List β := r.table.entries.map (·.2)

def put (r : Filed key valid) (b : β) (h : valid b) : Filed key valid where
  table := r.table.insert (key b) b
  filed a b' h' := by
    rw [Table.lookup_insert_eq] at h'
    by_cases ha : a = key b
    · rw [if_pos ha] at h'
      cases h'
      exact ⟨ha.symm, h⟩
    · rw [if_neg ha] at h'
      exact r.filed a b' h'

def erase (r : Filed key valid) (a : α) : Filed key valid where
  table := r.table.erase a
  filed a' b h := by
    rw [Table.lookup_erase_eq] at h
    by_cases ha : a' = a
    · rw [if_pos ha] at h; cases h
    · rw [if_neg ha] at h
      exact r.filed a' b h

section
variable {r : Filed key valid} {a a' : α} {b : β}

theorem key_of_get (h : r.get a = some b) : key b = a := (r.filed a b h).1

theorem valid_of_get (h : r.get a = some b) : valid b := (r.filed a b h).2

@[simp] theorem get_empty : (empty : Filed key valid).get a = none := rfl

theorem get_erase : (r.erase a').get a = if a = a' then none else r.get a := Table.lookup_erase_eq ..

@[simp] theorem get_erase_self : (r.erase a).get a = none := by rw [get_erase, if_pos rfl]

theorem get_erase_ne (ha : a ≠ a') : (r.erase a').get a = r.get a := by rw [get_erase, if_neg ha]

theorem mem_values : b ∈ r.values ↔ r.get (key b) = some b := by
  rw [values, List.mem_map]
  constructor
  · rintro ⟨⟨a, b'⟩, hmem, rfl⟩
    have hget : r.get a = some b' := AList.mem_lookup_iff.mpr hmem
    show r.get (key b') = some b'
    rw [key_of_get hget]; exact hget
  · intro h
    exact ⟨⟨key b, b⟩, AList.mem_lookup_iff.mp h, rfl⟩

theorem values_pairwise : r.values.Pairwise fun b b' => key b ≠ key b' := by
  have hkeys := List.nodupKeys_iff_pairwise.mp r.table.nodupKeys
  refine List.pairwise_map.mpr (hkeys.imp_of_mem fun he he' hne => ?_)
  rw [key_of_get (AList.mem_lookup_iff.mpr he), key_of_get (AList.mem_lookup_iff.mpr he')]
  exact hne

end

variable (r : Filed key valid) (b : β) (h : valid b) {a : α}

theorem get_put : (r.put b h).get a = if a = key b then some b else r.get a := Table.lookup_insert_eq ..

@[simp] theorem get_put_self : (r.put b h).get (key b) = some b := by
  rw [get_put, if_pos rfl]

theorem get_put_ne (ha : a ≠ key b) : (r.put b h).get a = r.get a := by
  rw [get_put, if_neg ha]

end Filed
