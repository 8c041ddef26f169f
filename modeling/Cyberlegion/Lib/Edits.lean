import Cyberlegion.Lib.Entries

/-!
# Lists that differ by edits

One list is another one with elements kept, added and dropped, the kept ones in their
order. An edit followed by an edit is one again.
-/

inductive Edited {α : Type} (keeps : α → α → Prop) (adds drops : α → Prop) : List α → List α → Prop
  | nil : Edited keeps adds drops [] []
  | keep {a b : α} {as bs : List α} : keeps a b → Edited keeps adds drops as bs →
      Edited keeps adds drops (a :: as) (b :: bs)
  | add {b : α} {as bs : List α} : adds b → Edited keeps adds drops as bs → Edited keeps adds drops as (b :: bs)
  | drop {a : α} {as bs : List α} : drops a → Edited keeps adds drops as bs → Edited keeps adds drops (a :: as) bs

namespace Edited

section
variable {α : Type} {keeps keeps' keeps'' : α → α → Prop} {adds adds' adds'' drops drops' drops'' : α → Prop}
  {as bs cs : List α} {a b : α}

theorem refl (h : ∀ a ∈ as, keeps a a) : Edited keeps adds drops as as := by
  induction as with
  | nil => exact .nil
  | cons a as ih => exact .keep (h a List.mem_cons_self) (ih fun a' ha => h a' (List.mem_cons_of_mem a ha))

theorem mono (h : Edited keeps adds drops as bs) (hkeep : ∀ a b, keeps a b → keeps' a b)
    (hadd : ∀ b, adds b → adds' b)
    (hdrop : ∀ a, drops a → drops' a) : Edited keeps' adds' drops' as bs := by
  induction h with
  | nil => exact .nil
  | keep hab _ ih => exact .keep (hkeep _ _ hab) ih
  | add hb _ ih => exact .add (hadd _ hb) ih
  | drop ha _ ih => exact .drop (hdrop _ ha) ih

/-- The second edit may drop what the first one added. -/
theorem trans (hkk : ∀ a b c, keeps a b → keeps' b c → keeps'' a c)
    (hkd : ∀ a b, keeps a b → drops' b → drops'' a)
    (hak : ∀ b c, adds b → keeps' b c → adds'' c) (hadd : ∀ c, adds' c → adds'' c)
    (hdrop : ∀ a, drops a → drops'' a) :
    ∀ {as bs cs : List α}, Edited keeps adds drops as bs → Edited keeps' adds' drops' bs cs →
      Edited keeps'' adds'' drops'' as cs
  | _, _, _, .drop ha h, h' => .drop (hdrop _ ha) (trans hkk hkd hak hadd hdrop h h')
  | _, _, _, .nil, .nil => .nil
  | _, _, _, .nil, .add hc h' => .add (hadd _ hc) (trans hkk hkd hak hadd hdrop .nil h')
  | _, _, _, .keep hab h, .keep hbc h' => .keep (hkk _ _ _ hab hbc) (trans hkk hkd hak hadd hdrop h h')
  | _, _, _, .keep hab h, .drop hb h' => .drop (hkd _ _ hab hb) (trans hkk hkd hak hadd hdrop h h')
  | _, _, _, .keep hab h, .add hc h' => .add (hadd _ hc) (trans hkk hkd hak hadd hdrop (.keep hab h) h')
  | _, _, _, .add hb h, .keep hbc h' => .add (hak _ _ hb hbc) (trans hkk hkd hak hadd hdrop h h')
  | _, _, _, .add _ h, .drop _ h' => trans hkk hkd hak hadd hdrop h h'
  | _, _, _, .add hb h, .add hc h' => .add (hadd _ hc) (trans hkk hkd hak hadd hdrop (.add hb h) h')
termination_by as bs cs => as.length + bs.length + cs.length

theorem mem (h : Edited keeps adds drops as bs) (ha : a ∈ as) : drops a ∨ ∃ b ∈ bs, keeps a b := by
  induction h with
  | nil => cases ha
  | keep hab _ ih =>
    rcases List.mem_cons.mp ha with rfl | ha
    · exact .inr ⟨_, List.mem_cons_self, hab⟩
    · refine (ih ha).imp_right ?_
      rintro ⟨b, hb, hab⟩
      exact ⟨b, List.mem_cons_of_mem _ hb, hab⟩
  | add _ _ ih =>
    refine (ih ha).imp_right ?_
    rintro ⟨b, hb, hab⟩
    exact ⟨b, List.mem_cons_of_mem _ hb, hab⟩
  | drop hdrop _ ih =>
    rcases List.mem_cons.mp ha with rfl | ha
    · exact .inl hdrop
    · exact ih ha

theorem mem_right (h : Edited keeps adds drops as bs) (hb : b ∈ bs) : adds b ∨ ∃ a ∈ as, keeps a b := by
  induction h with
  | nil => cases hb
  | keep hab _ ih =>
    rcases List.mem_cons.mp hb with rfl | hb
    · exact .inr ⟨_, List.mem_cons_self, hab⟩
    · refine (ih hb).imp_right ?_
      rintro ⟨a, ha, hab⟩
      exact ⟨a, List.mem_cons_of_mem _ ha, hab⟩
  | add hadd _ ih =>
    rcases List.mem_cons.mp hb with rfl | hb
    · exact .inl hadd
    · exact ih hb
  | drop _ _ ih =>
    refine (ih hb).imp_right ?_
    rintro ⟨a, ha, hab⟩
    exact ⟨a, List.mem_cons_of_mem _ ha, hab⟩

theorem concat (hrefl : ∀ a, keeps a a) (hb : adds b) : Edited keeps adds drops as (as ++ [b]) := by
  induction as with
  | nil => exact .add hb .nil
  | cons a as ih => exact .keep (hrefl a) ih

theorem filterMap {f : α → Option α} (hkeep : ∀ a ∈ as, ∀ b, f a = some b → keeps a b)
    (hdrop : ∀ a ∈ as, f a = none → drops a) : Edited keeps adds drops as (as.filterMap f) := by
  induction as with
  | nil => exact .nil
  | cons a as ih =>
    have hrest := ih (fun a' ha => hkeep a' (List.mem_cons_of_mem a ha))
      fun a' ha => hdrop a' (List.mem_cons_of_mem a ha)
    cases hf : f a with
    | none =>
      rw [List.filterMap_cons_none hf]
      exact .drop (hdrop a List.mem_cons_self hf) hrest
    | some b =>
      rw [List.filterMap_cons_some hf]
      exact .keep (hkeep a List.mem_cons_self b hf) hrest

theorem filter {p : α → Bool} (hrefl : ∀ a, keeps a a) (hdrop : ∀ a ∈ as, p a = false → drops a) :
    Edited keeps adds drops as (as.filter p) := by
  induction as with
  | nil => exact .nil
  | cons a as ih =>
    have hrest := ih fun a' ha => hdrop a' (List.mem_cons_of_mem a ha)
    cases hp : p a with
    | true =>
      rw [List.filter_cons_of_pos hp]
      exact .keep (hrefl a) hrest
    | false =>
      rw [List.filter_cons_of_neg (by rw [hp]; exact Bool.false_ne_true)]
      exact .drop (hdrop a List.mem_cons_self hp) hrest

/-- The elements that are left change again: each is still kept so, or is dropped and added. -/
theorem map {f : α → α} (hkeep : ∀ a ∈ as, ∀ b, keeps a b → keeps a (f b) ∨ drops a ∧ adds (f b))
    (hadd : ∀ b, adds b → adds (f b)) (h : Edited keeps adds drops as bs) : Edited keeps adds drops as (bs.map f) := by
  induction h with
  | nil => exact .nil
  | keep hab _ ih =>
    have hrest := ih fun a ha => hkeep a (List.mem_cons_of_mem _ ha)
    rcases hkeep _ List.mem_cons_self _ hab with hkept | ⟨hdrop, hnew⟩
    · exact .keep hkept hrest
    · exact .drop hdrop (.add hnew hrest)
  | add hb _ ih => exact .add (hadd _ hb) (ih hkeep)
  | drop ha _ ih => exact .drop ha (ih fun a' ha' => hkeep a' (List.mem_cons_of_mem _ ha'))

/-- Elements that no edit touches stay, in their order. -/
theorem filter_eq {p : α → Bool} (hkeep : ∀ a b, keeps a b → a = b ∨ p a = false ∧ p b = false)
    (hadd : ∀ b, adds b → p b = false) (hdrop : ∀ a, drops a → p a = false) (h : Edited keeps adds drops as bs) :
    as.filter p = bs.filter p := by
  induction h with
  | nil => rfl
  | keep hab _ ih =>
    rcases hkeep _ _ hab with rfl | ⟨ha, hb⟩
    · rw [List.filter_cons, List.filter_cons, ih]
    · rw [List.filter_cons, List.filter_cons, ha, hb, ih]
      rfl
  | add hb _ ih =>
    rw [List.filter_cons, hadd _ hb, ih]
    rfl
  | drop ha _ ih =>
    rw [List.filter_cons, hdrop _ ha, ih]
    rfl

theorem single {front back : List α} (hrefl : ∀ a, keeps a a) (hab : keeps a b) :
    Edited keeps adds drops (front ++ a :: back) (front ++ b :: back) := by
  induction front with
  | nil => exact .keep hab (refl fun a _ => hrefl a)
  | cons x front ih => exact .keep (hrefl x) ih

end

end Edited

/-! ## Maps whose members are edited -/

/-- Of one map to another: `edits k old new` says how the member `k` may change, be added or go. -/
def EditedMembers {κ β : Type} (edits : κ → Option β → Option β → Prop) :
    List (κ × β) → List (κ × β) → Prop :=
  Edited (fun a b => a.1 = b.1 ∧ (a.2 = b.2 ∨ edits a.1 (some a.2) (some b.2))) (fun b => edits b.1 none (some b.2))
    fun a => edits a.1 (some a.2) none

namespace EditedMembers

section
variable {κ β : Type} {edits edits' edits'' : κ → Option β → Option β → Prop} {m m' m'' : List (κ × β)} {k : κ}
  {v : β}

theorem refl (m : List (κ × β)) : EditedMembers edits m m := Edited.refl fun _ _ => ⟨rfl, .inl rfl⟩

theorem mono (h : EditedMembers edits m m') (hedits : ∀ k a b, edits k a b → edits' k a b) :
    EditedMembers edits' m m' := by
  refine Edited.mono h (fun a b hab => ⟨hab.1, hab.2.imp_right (hedits _ _ _)⟩) (fun b => hedits _ _ _)
    fun a => hedits _ _ _

theorem trans (hsome : ∀ k a b c, edits k (some a) (some b) → edits' k (some b) c → edits'' k (some a) c)
    (hnone : ∀ k b c, edits k none (some b) → edits' k (some b) (some c) → edits'' k none (some c))
    (hleft : ∀ k a b, edits k a b → edits'' k a b) (hright : ∀ k a b, edits' k a b → edits'' k a b)
    (h : EditedMembers edits m m') (h' : EditedMembers edits' m' m'') : EditedMembers edits'' m m'' := by
  refine Edited.trans ?_ ?_ ?_ (fun c => hright _ _ _) (fun a => hleft _ _ _) h h'
  · intro a b c ⟨hab, hv⟩ ⟨hbc, hw⟩
    refine ⟨hab.trans hbc, ?_⟩
    rcases hv with hv | hv
    · rcases hw with hw | hw
      · exact .inl (hv.trans hw)
      · exact .inr (hright _ _ _ (by rw [hv, hab]; exact hw))
    · rcases hw with hw | hw
      · exact .inr (hleft _ _ _ (by rw [← hw]; exact hv))
      · exact .inr (hsome _ _ _ _ hv (by rw [hab]; exact hw))
  · intro a b ⟨hab, hv⟩ hdrop
    rcases hv with hv | hv
    · rw [hv, hab]
      exact hright _ _ _ hdrop
    · exact hsome _ _ _ _ hv (by rw [hab]; exact hdrop)
  · intro b c hadd ⟨hbc, hw⟩
    rcases hw with hw | hw
    · rw [← hbc, ← hw]
      exact hleft _ _ _ hadd
    · rw [← hbc]
      exact hnone _ _ _ hadd hw

/-- The members that are left change again, each to one that the edits allow. -/
theorem map {f : β → β} (hsame : ∀ e ∈ m, e.2 = f e.2 ∨ edits e.1 (some e.2) (some (f e.2)))
    (hedit : ∀ e ∈ m, ∀ w, edits e.1 (some e.2) (some w) → edits e.1 (some e.2) (some (f w)))
    (hadd : ∀ k w, edits k none (some w) → edits k none (some (f w))) (h : EditedMembers edits m m') :
    EditedMembers edits m (m'.map fun e => (e.1, f e.2)) := by
  refine Edited.map (fun a ha b hab => .inl ⟨hab.1, ?_⟩) (fun b => hadd _ _) h
  rcases hab.2 with heq | hedited
  · rw [← heq]
    exact hsame a ha
  · exact .inr (hedit a ha _ hedited)

variable [DecidableEq κ]

theorem set_get (hedit : edits k (Entries.get m k) (some v)) : EditedMembers edits m (Entries.set m k v) := by
  induction m with
  | nil => exact .add hedit .nil
  | cons e m ih =>
    rw [Entries.get] at hedit
    rw [Entries.set]
    by_cases hk : e.1 = k
    · rw [if_pos hk] at hedit ⊢
      exact .keep ⟨hk, .inr (hk ▸ hedit)⟩ (refl m)
    · rw [if_neg hk] at hedit ⊢
      exact .keep ⟨rfl, .inl rfl⟩ (ih hedit)

theorem delete_get (hm : Entries.Keyed m) (hedit : ∀ v, Entries.get m k = some v → edits k (some v) none) :
    EditedMembers edits m (Entries.delete m k) := by
  refine Edited.filter (fun a => ⟨rfl, .inl rfl⟩) fun e he hk => ?_
  obtain ⟨k', v⟩ := e
  obtain rfl : k' = k := by simpa using hk
  exact hedit v ((Entries.get_eq_some hm).mpr he)

theorem get (hm : Entries.Keyed m) (hm' : Entries.Keyed m') (h : EditedMembers edits m m')
    (hv : Entries.get m k = some v) : (∃ w, Entries.get m' k = some w ∧ (v = w ∨ edits k (some v) (some w))) ∨
      edits k (some v) none := by
  rcases h.mem ((Entries.get_eq_some hm).mp hv) with hdrop | ⟨⟨k', w⟩, hw, hk, hkeep⟩
  · exact .inr hdrop
  · obtain rfl : k = k' := hk
    exact .inl ⟨w, (Entries.get_eq_some hm').mpr hw, hkeep⟩

end

end EditedMembers
