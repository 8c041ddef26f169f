import Cyberlegion.StoreSound

/-!
# Sequences of operations on the file store

From a root with none of the store's folders in it, any sequence of operations answers
as the separate maps do, each operation about its own keys alone.
-/

namespace Cyberlegion

namespace Tree

open Disk DiskM

/-- The keys an operation may change. -/
def Op.Writes : Op → Key → Prop
  | .putMessage toId msg, k => k = .unread toId msg.id
  | .ackMessage id msgId, k | .removeMessage id msgId, k => k = .unread id msgId ∨ k = .read id msgId
  | .removeMailbox id, k => ∃ msgId, k = .unread id msgId ∨ k = .read id msgId
  | .putAgent rec, k => k = .agent rec.id
  | .removeAgent id, k => k = .agent id
  | .removeAgentData id, k | .writeBrief id _, k => k = .brief id
  | .putProject rec, k => k = .project rec.id
  | .putServiceLease lease, k => k = .lease lease.project lease.service
  | _, _ => False

namespace Maps

/-- The answers of a sequence, from maps that hold nothing under an unsafe id, and with
every key that an operation does not name as it was. -/
def Run (t : Maps) : List Op → List (Except StoreError Answer) → Maps → Prop
  | [], [], t' => t' = t ∧ ∀ k : Key, ¬ k.Safe → t.get k = none
  | op :: ops, r :: rs, t' =>
    (∀ k : Key, ¬ k.Safe → t.get k = none) ∧
      ∃ u, t.Step op r u ∧ (∀ k, ¬ op.Writes k → u.get k = t.get k) ∧ u.Run ops rs t'
  | _, _, _ => False

section
variable {t t' new : Maps} {r : Except StoreError Answer} {safe : Bool} {k : Key}

theorem Writes.frame (h : Writes safe t new r t') (hnew : new.get k = t.get k) : t'.get k = t.get k := by
  rw [Writes] at h
  by_cases hs : safe = true
  · rw [if_pos hs] at h
    rw [h.2, hnew]
  · rw [if_neg hs] at h
    rw [h.2]

theorem Step.frame {op : Op} (h : t.Step op r t') (hk : ¬ op.Writes k) : t'.get k = t.get k := by
  cases op with
  | getAgent | getProject | getServiceLease | readBrief | listAgents | listProjects | listInbox => rw [h.1]
  | putAgent | putProject | putServiceLease | writeBrief | putMessage =>
    refine Writes.frame h ?_
    cases k <;> simp_all [Maps.get, Op.Writes]
  | removeAgent | removeAgentData =>
    refine Writes.frame h ?_
    cases k <;> simp_all [Maps.get, Op.Writes]
  | removeMailbox id =>
    refine Writes.frame h ?_
    cases k <;> simp_all [Maps.get, Table.lookup_without, Op.Writes]
  | ackMessage id msgId =>
    rw [Step] at h
    cases hmsg : t.unread.lookup (id, msgId) with
    | none =>
      rw [hmsg] at h
      rw [h.2]
    | some msg =>
      rw [hmsg] at h
      rw [h.2]
      cases k <;> simp_all [Maps.get, Op.Writes]
  | removeMessage id msgId =>
    rw [Step] at h
    split_ifs at h <;> rw [h.2]
    all_goals cases k <;> simp_all [Maps.get, Op.Writes]

end

end Maps

/-- A root with none of the store's folders below it. -/
structure Fresh (root : AbsPath) (d : Disk Data) : Prop where
  clear : ∀ q, q <+: root → d.files.lookup q = none
  empty : ∀ s ∈ kinds, ∀ p, d.has (root ++ s :: p) = false
  journal : d.journal = []

section
variable {root : AbsPath} {d d' d₀ : Disk Data} {t : Maps}

theorem Fresh.refines (h : Fresh root d) : Refines root d {} where
  holds k _ := by
    obtain ⟨s, hs, p, hp⟩ := kinds_path (k := k)
    have hnone := (Bool.or_eq_false_iff.mp (h.empty s hs p)).1
    rw [hp, Option.isSome_eq_false_iff.mp hnone |> Option.isNone_iff_eq_none.mp]
    cases k <;> rfl
  safe k v hv := by cases k <;> cases hv
  known s p v hs hv := by
    have hnone := (Bool.or_eq_false_iff.mp (h.empty s hs p)).1
    rw [hv] at hnone
    cases hnone
  folders s p hs hmem := absurd hmem (of_decide_eq_false (Bool.or_eq_false_iff.mp (h.empty s hs p)).2)
  parent k hne := by cases k <;> exact absurd rfl hne
  clear := h.clear

theorem Within.trans (h : Within root d₀ d) (h' : Within root d d') : Within root d₀ d' where
  journal p hp := by
    rcases h'.journal p hp with hold | hin | ⟨hroot, hnew⟩
    · exact h.journal p hold
    · exact .inr (.inl hin)
    · exact .inr (.inr ⟨hroot, fun hmem => hnew (h.above p hmem hroot)⟩)
  outside p hp := (h'.outside p hp).trans (h.outside p hp)
  above p hp hroot := h'.above p (h.above p hp hroot) hroot

theorem run_sound (h : Refines root d t) (ops : List (Process × Op)) :
    ∃ t', t.Run (ops.map (·.2)) (runOps root ops d).1 t' ∧ Refines root (runOps root ops d).2 t' ∧
      Within root d (runOps root ops d).2 := by
  have hnot : ∀ {d t}, Refines root d t → ∀ k : Key, ¬ k.Safe → t.get k = none := by
    intro d t h k hk
    by_contra hne
    obtain ⟨v, hv⟩ := Option.ne_none_iff_exists'.mp hne
    exact hk (h.safe k v hv)
  induction ops generalizing d t with
  | nil => exact ⟨t, ⟨rfl, hnot h⟩, h, .refl⟩
  | cons e ops ih =>
    obtain ⟨u, hstep, hu, hwithin⟩ := sound h e.2
    obtain ⟨t', hrun, ht', hwithin'⟩ := ih hu
    exact ⟨t', ⟨hnot h, u, hstep, fun k hk => hstep.frame hk, hrun⟩, ht', hwithin.trans hwithin'⟩

/-- Whatever the sequence, the answers are those of the separate maps; what is created
or removed lies strictly inside the root, apart from the root and its parents where
they were missing, and no file elsewhere changes. -/
theorem file_store_refines (h : Fresh root d) (ops : List (Process × Op)) :
    (∃ t, Maps.Run {} (ops.map (·.2)) (runOps root ops d).1 t) ∧
      (∀ p ∈ (runOps root ops d).2.journal, Inside root p ∨ (p <+: root ∧ p ∉ d.dirs)) ∧
      ∀ p, ¬ Inside root p → (runOps root ops d).2.files.lookup p = d.files.lookup p := by
  obtain ⟨t, hrun, -, hwithin⟩ := run_sound h.refines ops
  refine ⟨⟨t, hrun⟩, fun p hp => (hwithin.journal p hp).resolve_left fun hold => ?_, hwithin.outside⟩
  rw [h.journal] at hold
  cases hold

/-! A brief written and read back in `/hub`, which is there or is not. -/

def bareProcess : Process := ⟨7, 0, fun _ l => l, fun _ _ => .refl _⟩

def bareDisk (dirs : List AbsPath) : Disk Data := ⟨∅, dirs, []⟩

theorem fresh_bareDisk {dirs : List AbsPath} (hdirs : ∀ p ∈ dirs, p.length ≤ root.length) :
    Fresh root (bareDisk dirs) where
  clear _ _ := rfl
  empty s _ p := by
    refine Bool.or_eq_false_iff.mpr ⟨rfl, decide_eq_false fun hmem => ?_⟩
    have hlen := hdirs _ hmem
    rw [List.length_append, List.length_cons] at hlen
    omega
  journal := rfl

theorem file_store_refines_hub :
    let ops := [(bareProcess, Op.writeBrief "u" "hi"), (bareProcess, Op.writeBrief ".." "no"),
      (bareProcess, Op.readBrief "u")]
    let run := runOps ["hub"] ops (bareDisk [[], ["hub"]])
    (∃ t, Maps.Run {} (ops.map (·.2)) run.1 t) ∧
      (∀ p ∈ run.2.journal, Inside ["hub"] p ∨ (p <+: ["hub"] ∧ p ∉ [[], ["hub"]])) ∧
      ∀ p, ¬ Inside ["hub"] p → run.2.files.lookup p = none :=
  file_store_refines (fresh_bareDisk (by decide)) _

/-- The first write to a missing root makes the root itself. -/
theorem file_store_makes_root :
    ¬ ∀ (root : AbsPath) (d : Disk Data) (ops : List (Process × Op)), Fresh root d →
      ∀ p ∈ (runOps root ops d).2.journal, Inside root p := by
  intro hall
  have hmem : ["hub"] ∈ (runOps ["hub"] [(bareProcess, Op.writeBrief "u" "hi")] (bareDisk [[]])).2.journal := by decide
  obtain ⟨q, hne, hq, -⟩ := hall ["hub"] _ _ (fresh_bareDisk (by decide)) _ hmem
  exact hne (List.append_cancel_left (hq.symm : ["hub"] ++ q = ["hub"] ++ []))

end

end Tree

end Cyberlegion
