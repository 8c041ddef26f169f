import Cyberlegion.Install

/-!
# JSON written and read again

A value is what it was once it is written and read, except for the numbers that are not
finite.
-/

namespace Cyberlegion.Init

open Json

/-- The value is the same once it is written and read: no number in it is infinite. -/
def RoundTrips (v : Json) : Prop := v.reparsed = v

section
variable {v x : Json} {k : String} {l : List Json} {m : List (String × Json)}

theorem reparsedItems_eq (l : List Json) : reparsedItems l = l.map reparsed := by
  induction l with
  | nil => rfl
  | cons v l ih =>
    rw [reparsedItems, ih]
    rfl

theorem reparsedMembers_eq (m : List (String × Json)) : reparsedMembers m = m.map fun e => (e.1, e.2.reparsed) := by
  induction m with
  | nil => rfl
  | cons e m ih =>
    rw [reparsedMembers, ih]
    rfl

theorem reparsed_arr (l : List Json) : (arr l).reparsed = arr (l.map reparsed) := by
  rw [reparsed, reparsedItems_eq]

theorem reparsed_obj (m : List (String × Json)) : (obj m).reparsed = obj (reparsedMembers m) := by
  rw [reparsed]

mutual

theorem reparsed_reparsed : ∀ v : Json, v.reparsed.reparsed = v.reparsed
  | .null | .bool _ | .num _ | .str _ | .infinity _ => rfl
  | .arr items => congrArg Json.arr (reparsedItems_reparsed items)
  | .obj members => congrArg Json.obj (reparsedMembers_reparsed members)

theorem reparsedItems_reparsed : ∀ l, reparsedItems (reparsedItems l) = reparsedItems l
  | [] => rfl
  | v :: l => congrArg₂ List.cons (reparsed_reparsed v) (reparsedItems_reparsed l)

theorem reparsedMembers_reparsed : ∀ m, reparsedMembers (reparsedMembers m) = reparsedMembers m
  | [] => rfl
  | (k, v) :: m => congrArg₂ List.cons (congrArg (Prod.mk k) (reparsed_reparsed v)) (reparsedMembers_reparsed m)

end

/-! ### Members -/

theorem get_reparsed : Entries.get (reparsedMembers m) k = (Entries.get m k).map reparsed := by
  induction m with
  | nil => rfl
  | cons e m ih =>
    rw [reparsedMembers, Entries.get, Entries.get, ih]
    split <;> rfl

theorem set_reparsed : reparsedMembers (Entries.set m k x) = Entries.set (reparsedMembers m) k x.reparsed := by
  induction m with
  | nil => rfl
  | cons e m ih =>
    rw [reparsedMembers, Entries.set, Entries.set]
    by_cases hk : e.1 = k
    · rw [if_pos hk, if_pos hk, reparsedMembers]
    · rw [if_neg hk, if_neg hk, reparsedMembers, ih]

theorem keyed_reparsed (hm : Entries.Keyed m) : Entries.Keyed (reparsedMembers m) := by
  rw [Entries.Keyed, reparsedMembers_eq, List.map_map]
  exact hm

/-! ### Values that stay -/

theorem roundTrips_reparsed (v : Json) : RoundTrips v.reparsed := reparsed_reparsed v

theorem map_eq_self_iff {α : Type} {f : α → α} {l : List α} : l.map f = l ↔ ∀ a ∈ l, f a = a := by
  have h := List.map_inj_left (l := l) (f := f) (g := id)
  rwa [List.map_id] at h

theorem roundTrips_arr : RoundTrips (.arr l) ↔ ∀ x ∈ l, RoundTrips x := by
  rw [RoundTrips, reparsed_arr, Json.arr.injEq]
  exact map_eq_self_iff

theorem roundTrips_obj : RoundTrips (.obj m) ↔ ∀ e ∈ m, RoundTrips e.2 := by
  rw [RoundTrips, reparsed_obj, reparsedMembers_eq, Json.obj.injEq, map_eq_self_iff]
  exact forall₂_congr fun e _ => ⟨fun h => congrArg Prod.snd h, fun h => Prod.ext rfl h⟩

theorem roundTrips_get (hm : RoundTrips (.obj m)) (hget : Entries.get m k = some x) : RoundTrips x := by
  have hagain := congrArg (Option.map reparsed) hget
  rw [RoundTrips, reparsed_obj, Json.obj.injEq] at hm
  rw [← get_reparsed, hm, hget] at hagain
  exact (Option.some_inj.mp hagain).symm

theorem set_beside (hm : RoundTrips (.obj (Entries.set m k v))) :
    Entries.set (reparsedMembers m) k x = Entries.set m k x := by
  rw [RoundTrips, reparsed_obj, Json.obj.injEq, set_reparsed] at hm
  have hset := congrArg (fun m => Entries.set m k x) hm
  simpa only [Entries.set_set] using hset

theorem roundTrips_put (hm : RoundTrips (.obj m)) (hx : RoundTrips x) : RoundTrips (.obj (Entries.set m k x)) := by
  rw [RoundTrips, reparsed_obj, Json.obj.injEq] at hm
  rw [RoundTrips, reparsed_obj, set_reparsed, hx, hm]

theorem roundTrips_set (hm : RoundTrips (.obj (Entries.set m k v))) (hx : RoundTrips x) :
    RoundTrips (.obj (Entries.set m k x)) := by
  rw [RoundTrips, reparsed_obj, set_reparsed, hx, set_beside hm]

end

end Cyberlegion.Init
