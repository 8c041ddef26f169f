import Cyberlegion.StoreTree

/-!
# The file store: keys and their paths

Each record has a key, each key a file of its own in the tree. The files of all keys,
their temporary names and the folders above them are distinct, and all of them lie
strictly inside the root.
-/

namespace Cyberlegion

namespace Tree

open Disk DiskM

/-! ## Keys and their paths -/

inductive Key
  | agent (id : String)
  | project (id : String)
  | lease (owner service : String)
  | brief (id : String)
  | unread (box msgId : String)
  | read (box msgId : String)
deriving DecidableEq

namespace Key

def Safe : Key → Prop
  | agent id | project id | brief id => safeId id
  | lease owner service => safeId owner ∧ safeId service
  | unread box msgId | read box msgId => safeId box ∧ safeId msgId

/-- Under the root: the folder of the key's file, and the file's name. -/
def folder : Key → AbsPath
  | agent _ => ["agents"]
  | project _ => ["projects"]
  | lease owner _ => ["services", owner]
  | brief id => ["data", id]
  | unread box _ => ["inbox", box]
  | read box _ => ["inbox", box, "read"]

def name : Key → String
  | agent id | project id => id ++ ".json"
  | lease _ service => service ++ ".json"
  | brief _ => "brief.md"
  | unread _ msgId | read _ msgId => msgId ++ ".json"

def path (k : Key) : AbsPath := k.folder ++ [k.name]

end Key

theorem name_getLast (k : Key) : k.name.toList.getLast? = some 'n' ∨ k.name.toList.getLast? = some 'd' := by
  cases k with
  | brief id => exact .inr (show "brief.md".toList.getLast? = some 'd' by decide)
  | agent x | project x | lease _ x | unread _ x | read _ x =>
    exact .inl ((getLast_append (by decide)).trans (by decide))

theorem path_inj {k k' : Key} (h : k.path = k'.path) : k = k' := by
  have hname : k.name = k'.name := List.singleton_inj.mp (List.append_inj' h rfl).2
  have hfolder : k.folder = k'.folder := (List.append_inj' h rfl).1
  cases k <;> cases k' <;> simp_all [Key.folder, Key.name]

/-! ## Temporary names, folders, and what lies inside the root -/

/-- The name of the temporary file next to a key's own. -/
def tmpName (proc : Process) (k : Key) : String :=
  k.name ++ ("." ++ toString proc.pid ++ "." ++ toString proc.tmpCounter ++ ".tmp")

def tmpPath (proc : Process) (k : Key) : AbsPath := k.folder ++ [tmpName proc k]

section
variable {root : AbsPath} {proc : Process} {k k' : Key}

theorem dirname_path : dirname (root ++ k.path) = root ++ k.folder := by
  rw [dirname, Key.path, ← List.append_assoc, List.dropLast_concat]

theorem tmpFile_path : tmpFile proc (root ++ k.path) = root ++ tmpPath proc k := by
  rw [tmpFile, suffixed, Key.path, ← List.append_assoc, List.dropLast_concat, List.getLast?_concat, tmpPath,
    ← List.append_assoc]
  rfl

theorem tmpName_getLast : (tmpName proc k).toList.getLast? = some 'p' := by
  rw [tmpName, ← String.append_assoc]
  exact (getLast_append (by decide)).trans (by decide)

theorem tmpPath_ne_path : tmpPath proc k ≠ k'.path := by
  intro h
  have hname : tmpName proc k = k'.name := List.singleton_inj.mp (List.append_inj' h rfl).2
  have hlast : (tmpName proc k).toList.getLast? = some 'p' := tmpName_getLast
  rw [hname] at hlast
  rcases name_getLast k' with h' | h' <;> rw [h'] at hlast <;> exact absurd hlast (by decide)

/-- A folder of the tree: a non-empty beginning of a key's folder. -/
def Folder (p : AbsPath) : Prop := ∃ k : Key, k.Safe ∧ p ≠ [] ∧ p <+: k.folder

theorem prefix_pair {a b : String} {p : AbsPath} (h : p <+: [a, b]) (hp : p ≠ []) : p = [a] ∨ p = [a, b] := by
  obtain ⟨q, hq⟩ := h
  rcases p with _ | ⟨x, _ | ⟨y, p⟩⟩
  · exact absurd rfl hp
  · exact .inl (congrArg (fun l : AbsPath => l.take 1) hq)
  · have hnil : p = [] := (List.append_eq_nil_iff.mp (List.cons.inj (List.cons.inj hq).2).2).1
    subst hnil
    exact .inr (congrArg (fun l : AbsPath => l.take 2) hq)

theorem folder_cases {p : AbsPath} (h : Folder p) :
    (∃ a ∈ ["agents", "projects", "services", "data", "inbox"], p = [a]) ∨
      (∃ a ∈ ["services", "data", "inbox"], ∃ x, p = [a, x]) ∨ ∃ x, p = ["inbox", x, "read"] := by
  obtain ⟨k, -, hne, hpre⟩ := h
  cases k with
  | agent x | project x =>
    rcases List.prefix_cons_iff.mp hpre with rfl | ⟨t, rfl, ht⟩
    · exact absurd rfl hne
    · rw [List.prefix_nil.mp ht]
      exact .inl ⟨_, by simp, rfl⟩
  | lease o x | brief o | unread o x =>
    rcases prefix_pair hpre hne with rfl | rfl
    · exact .inl ⟨_, by simp, rfl⟩
    · exact .inr (.inl ⟨_, by simp, _, rfl⟩)
  | read o x =>
    have hcases : p <+: ["inbox", o] ∨ p = ["inbox", o, "read"] := by
      rcases (@List.prefix_concat_iff _ p ["inbox", o] _).mp hpre with h | h
      · exact .inr h
      · exact .inl h
    rcases hcases with h | rfl
    · rcases prefix_pair h hne with rfl | rfl
      · exact .inl ⟨_, by simp, rfl⟩
      · exact .inr (.inl ⟨_, by simp, _, rfl⟩)
    · exact .inr (.inr ⟨_, rfl⟩)

theorem folder_ne_file {s : String} (hs : s ≠ "read") (h : Folder (k.folder ++ [s])) : False := by
  rcases folder_cases h with ⟨a, -, h⟩ | ⟨a, ha, x, h⟩ | ⟨x, h⟩
  · cases k <;> exact absurd (congrArg List.length h) (by simp [Key.folder])
  · cases k with
    | agent | project =>
      obtain rfl := (List.cons.inj h).1
      exact absurd ha (by decide)
    | lease | brief | unread | read => exact absurd (congrArg List.length h) (by simp [Key.folder])
  · cases k with
    | unread => exact hs (List.cons.inj (List.cons.inj (List.cons.inj h).2).2).1
    | lease | brief => exact absurd (List.cons.inj h).1 (by decide)
    | agent | project | read => exact absurd (congrArg List.length h) (by simp [Key.folder])

theorem name_ne_read : k.name ≠ "read" := by
  cases k with
  | brief id => exact show "brief.md" ≠ "read" by decide
  | agent x | project x | lease _ x | unread _ x | read _ x => exact json_ne_read x

theorem tmpName_ne_read : tmpName proc k ≠ "read" := by
  intro h
  have hlast : (tmpName proc k).toList.getLast? = some 'p' := tmpName_getLast
  rw [h] at hlast
  exact absurd hlast (by decide)

theorem folder_ne_path (h : Folder k.path) : False := folder_ne_file name_ne_read h

theorem folder_ne_tmp (h : Folder (tmpPath proc k)) : False := folder_ne_file tmpName_ne_read h

/-! Names that `join` leaves as they are. -/

theorem not_unsafe_nat (n : Nat) : ¬ (toString n).toList.any unsafeChar := by
  rw [Nat.toString_eq_repr, Nat.toList_repr, List.any_eq_true]
  rintro ⟨c, hc, hbad⟩
  have hdigit := Nat.isDigit_of_mem_toDigits (by decide) (by decide) hc
  rcases of_decide_eq_true hbad with rfl | rfl | rfl <;> exact absurd hdigit (by decide)

theorem safeId_name (hk : k.Safe) : safeId k.name := by
  cases k with
  | agent x | project x => exact safeId_append (not_unsafe_of_safeId hk) (by decide) (by decide)
  | brief x => exact show safeId "brief.md" by decide
  | lease o x | unread o x | read o x => exact safeId_append (not_unsafe_of_safeId hk.2) (by decide) (by decide)

theorem safeId_tmpName (hk : k.Safe) : safeId (tmpName proc k) := by
  have hany : ∀ x y : String, ¬ x.toList.any unsafeChar → ¬ y.toList.any unsafeChar →
      ¬ (x ++ y).toList.any unsafeChar := by
    intro x y hx hy
    rw [String.toList_append, List.any_append, Bool.or_eq_true, not_or]
    exact ⟨hx, hy⟩
  rw [tmpName, ← String.append_assoc]
  refine safeId_append ?_ (by decide) (by decide)
  refine hany _ _ (not_unsafe_of_safeId (safeId_name hk)) ?_
  exact hany _ _ (hany _ _ (hany _ _ (by decide) (not_unsafe_nat _)) (by decide)) (not_unsafe_nat _)

theorem safeId_folder (hk : k.Safe) : ∀ s ∈ k.folder, safeId s := by
  have hread : safeId "read" := by decide
  cases k with
  | agent x | project x => exact List.forall_mem_singleton.mpr (by decide)
  | brief x => exact List.forall_mem_cons.mpr ⟨by decide, List.forall_mem_singleton.mpr hk⟩
  | lease o x | unread o x => exact List.forall_mem_cons.mpr ⟨by decide, List.forall_mem_singleton.mpr hk.1⟩
  | read o x =>
    exact List.forall_mem_cons.mpr ⟨by decide, List.forall_mem_cons.mpr ⟨hk.1, List.forall_mem_singleton.mpr hread⟩⟩

/-- Strictly inside the root, by names that are none of `.`, `..` and hold no separator. -/
def Inside (root p : AbsPath) : Prop := ∃ q, q ≠ [] ∧ p = root ++ q ∧ ∀ s ∈ q, safeId s

theorem inside_path (hk : k.Safe) : Inside root (root ++ k.path) :=
  ⟨k.path, List.append_ne_nil_of_right_ne_nil _ (List.cons_ne_nil _ _), rfl,
    List.forall_mem_append.mpr ⟨safeId_folder hk, List.forall_mem_singleton.mpr (safeId_name hk)⟩⟩

theorem inside_tmp (hk : k.Safe) : Inside root (root ++ tmpPath proc k) :=
  ⟨tmpPath proc k, List.append_ne_nil_of_right_ne_nil _ (List.cons_ne_nil _ _), rfl,
    List.forall_mem_append.mpr ⟨safeId_folder hk, List.forall_mem_singleton.mpr (safeId_tmpName hk)⟩⟩

theorem inside_folder {p : AbsPath} (hp : Folder p) : Inside root (root ++ p) := by
  obtain ⟨k, hk, hne, hpre⟩ := hp
  exact ⟨p, hne, rfl, fun s hs => safeId_folder hk s (hpre.subset hs)⟩

end

end Tree

end Cyberlegion
