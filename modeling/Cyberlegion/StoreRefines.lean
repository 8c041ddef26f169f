import Cyberlegion.StoreKeys

/-!
# The file store refines separate maps

`Maps` is what the store is for: six finite maps that share nothing. Every operation
on the directory tree is the operation on the maps that `Maps.Step` names.
-/

namespace Cyberlegion

namespace Tree

open Disk DiskM

/-! ## The maps -/

structure Maps where
  agents : Table String AgentRecord := ∅
  projects : Table String ProjectRecord := ∅
  leases : Table (String × String) ServiceLease := ∅
  briefs : Table String String := ∅
  unread : Table (String × String) Message := ∅
  read : Table (String × String) Message := ∅

namespace Maps

def get (t : Maps) : Key → Option Data
  | .agent id => (t.agents.lookup id).map .agent
  | .project id => (t.projects.lookup id).map .project
  | .lease owner service => (t.leases.lookup (owner, service)).map .lease
  | .brief id => (t.briefs.lookup id).map .text
  | .unread box msgId => (t.unread.lookup (box, msgId)).map .message
  | .read box msgId => (t.read.lookup (box, msgId)).map .message

/-- A write: refused under an unsafe id, with the maps as they were. -/
def Writes (safe : Bool) (t new : Maps) (r : Except StoreError Answer) (t' : Maps) : Prop :=
  if safe then r = .ok .done ∧ t' = new else (∃ e, r = .error (.invalidId e)) ∧ t' = t

def Step (t : Maps) : Op → Except StoreError Answer → Maps → Prop
  | .putMessage toId msg, r, t' =>
    Writes (safeId toId && safeId msg.id) t { t with unread := t.unread.insert (toId, msg.id) msg } r t'
  | .listInbox id, r, t' =>
    t' = t ∧ ∃ u v, r = .ok (.inbox ⟨u, v⟩) ∧ u.Perm (t.unread.select fun key => key.1 = id) ∧
      v.Perm (t.read.select fun key => key.1 = id)
  | .ackMessage id msgId, r, t' =>
    match t.unread.lookup (id, msgId) with
    | none => r = .error (.notUnread msgId) ∧ t' = t
    | some msg => r = .ok (.message msg) ∧
        t' = { t with unread := t.unread.erase (id, msgId), read := t.read.insert (id, msgId) msg }
  | .removeMessage id msgId, r, t' =>
    if (t.unread.lookup (id, msgId)).isSome then
      r = .ok .done ∧ t' = { t with unread := t.unread.erase (id, msgId) }
    else if (t.read.lookup (id, msgId)).isSome then
      r = .ok .done ∧ t' = { t with read := t.read.erase (id, msgId) }
    else r = .error (.notInInbox msgId) ∧ t' = t
  | .removeMailbox id, r, t' =>
    Writes (safeId id) t
      { t with unread := t.unread.without fun key => key.1 = id, read := t.read.without fun key => key.1 = id } r t'
  | .putAgent rec, r, t' => Writes (safeId rec.id) t { t with agents := t.agents.insert rec.id rec } r t'
  | .getAgent id, r, t' => t' = t ∧ r = .ok (.agent (t.agents.lookup id))
  | .listAgents, r, t' =>
    t' = t ∧ ∃ l, r = .ok (.agents l) ∧ l.Perm t.agents.values ∧ l.Pairwise fun a b => a.createdAt ≤ b.createdAt
  | .removeAgent id, r, t' => Writes (safeId id) t { t with agents := t.agents.erase id } r t'
  | .removeAgentData id, r, t' => Writes (safeId id) t { t with briefs := t.briefs.erase id } r t'
  | .putProject rec, r, t' => Writes (safeId rec.id) t { t with projects := t.projects.insert rec.id rec } r t'
  | .getProject id, r, t' => t' = t ∧ r = .ok (.project (t.projects.lookup id))
  | .listProjects, r, t' =>
    t' = t ∧ ∃ l, r = .ok (.projects l) ∧ l.Perm t.projects.values ∧
      l.Pairwise fun a b => a.registeredAt ≤ b.registeredAt
  | .putServiceLease lease, r, t' =>
    Writes (safeId lease.project && safeId lease.service) t
      { t with leases := t.leases.insert (lease.project, lease.service) lease } r t'
  | .getServiceLease project service, r, t' => t' = t ∧ r = .ok (.lease (t.leases.lookup (project, service)))
  | .writeBrief agentId text, r, t' => Writes (safeId agentId) t { t with briefs := t.briefs.insert agentId text } r t'
  | .readBrief agentId, r, t' => t' = t ∧ r = .ok (.brief (t.briefs.lookup agentId))

end Maps

/-! ## When a tree stands for the maps -/

/-- The first names of the folders under the root. -/
def kinds : List String := ["agents", "projects", "services", "data", "inbox"]

structure Refines (root : AbsPath) (d : Disk Data) (t : Maps) : Prop where
  holds : ∀ k : Key, k.Safe → d.files.lookup (root ++ k.path) = t.get k
  safe : ∀ k v, t.get k = some v → k.Safe
  known : ∀ s p v, s ∈ kinds → d.files.lookup (root ++ s :: p) = some v → ∃ k : Key, k.Safe ∧ s :: p = k.path
  folders : ∀ s p, s ∈ kinds → root ++ s :: p ∈ d.dirs → Folder (s :: p)
  parent : ∀ k : Key, t.get k ≠ none → root ++ k.folder ∈ d.dirs
  clear : ∀ q, q <+: root → d.files.lookup q = none

/-- What an operation leaves as it was, and where the paths it creates and removes lie. -/
structure Within (root : AbsPath) (d d' : Disk Data) : Prop where
  journal : ∀ p ∈ d'.journal, p ∈ d.journal ∨ Inside root p ∨ (p <+: root ∧ p ∉ d.dirs)
  outside : ∀ p, ¬ Inside root p → d'.files.lookup p = d.files.lookup p
  above : ∀ p ∈ d.dirs, p <+: root → p ∈ d'.dirs

theorem Within.refl {root : AbsPath} {d : Disk Data} :
    Within root d d := ⟨fun _ => .inl, fun _ _ => rfl, fun _ h _ => h⟩

section
variable {root : AbsPath} {d d' : Disk Data} {t t' : Maps} {k : Key} {v : Data}

theorem kinds_folder : ∃ s ∈ kinds, ∃ p, k.folder = s :: p := by
  cases k <;> exact ⟨_, by decide, _, rfl⟩

theorem kinds_path : ∃ s ∈ kinds, ∃ p, k.path = s :: p := by
  obtain ⟨s, hs, p, hp⟩ := kinds_folder (k := k)
  exact ⟨s, hs, p ++ [k.name], by rw [Key.path, hp, List.cons_append]⟩

theorem kinds_of_folder {p : AbsPath} (h : Folder p) : ∃ s ∈ kinds, ∃ q, p = s :: q := by
  obtain ⟨k, -, hne, r, hr⟩ := h
  obtain ⟨s, hs, q, hq⟩ := kinds_folder (k := k)
  cases p with
  | nil => exact absurd rfl hne
  | cons s' p =>
    rw [hq] at hr
    obtain rfl := (List.cons.inj hr).1
    exact ⟨s', hs, p, rfl⟩

namespace Refines

variable (h : Refines root d t)
include h

theorem not_dir_path : root ++ k.path ∉ d.dirs := by
  intro hmem
  obtain ⟨s, hs, p, hp⟩ := kinds_path (k := k)
  rw [hp] at hmem
  exact folder_ne_path (k := k) (hp ▸ h.folders s p hs hmem)

theorem not_dir_tmp {proc : Process} : root ++ tmpPath proc k ∉ d.dirs := by
  intro hmem
  obtain ⟨s, hs, p, hp⟩ := kinds_folder (k := k)
  have heq : tmpPath proc k = s :: (p ++ [tmpName proc k]) := by rw [tmpPath, hp, List.cons_append]
  rw [heq] at hmem
  exact folder_ne_tmp (k := k) (heq ▸ h.folders s _ hs hmem)

theorem no_tmp {proc : Process} : d.files.lookup (root ++ tmpPath proc k) = none := by
  obtain ⟨s, hs, p, hp⟩ := kinds_folder (k := k)
  have heq : tmpPath proc k = s :: (p ++ [tmpName proc k]) := by rw [tmpPath, hp, List.cons_append]
  by_contra hne
  obtain ⟨v, hv⟩ := Option.ne_none_iff_exists'.mp hne
  rw [heq] at hv
  obtain ⟨k', -, hk'⟩ := h.known s _ v hs hv
  exact tmpPath_ne_path (k := k) (heq.trans hk')

theorem no_file_folder {p : AbsPath} (hp : Folder p) : d.files.lookup (root ++ p) = none := by
  obtain ⟨s, hs, q, rfl⟩ := kinds_of_folder hp
  by_contra hne
  obtain ⟨v, hv⟩ := Option.ne_none_iff_exists'.mp hne
  obtain ⟨k, -, hk⟩ := h.known s q v hs hv
  exact folder_ne_path (k := k) (hk ▸ hp)

theorem has_path (hk : k.Safe) : d.has (root ++ k.path) = (t.get k).isSome := by
  rw [has, h.holds k hk, decide_eq_false h.not_dir_path, Bool.or_false]

theorem clear_folder (hk : k.Safe) {q : AbsPath} (hq : q <+: root ++ k.folder) : d.files.lookup q = none := by
  rcases List.prefix_or_prefix_of_prefix hq (List.prefix_append root k.folder) with hroot | ⟨p, rfl⟩
  · exact h.clear q hroot
  · have hp : p <+: k.folder := (List.prefix_append_right_inj root).mp hq
    by_cases hnil : p = []
    · subst hnil
      exact h.clear _ (by simp)
    · exact h.no_file_folder ⟨k, hk, hnil, hp⟩

theorem change (hfiles : ∀ k : Key, k.Safe → d'.files.lookup (root ++ k.path) = t'.get k)
    (hother : ∀ q, (∀ k : Key, k.Safe → q ≠ root ++ k.path) → d'.files.lookup q = d.files.lookup q)
    (hsafe : ∀ k v, t'.get k = some v → k.Safe)
    (hdirs : ∀ q ∈ d'.dirs, q ∈ d.dirs ∨ ∃ k : Key, k.Safe ∧ q <+: root ++ k.folder)
    (hparent : ∀ k : Key, t'.get k ≠ none → root ++ k.folder ∈ d'.dirs) : Refines root d' t' where
  holds := hfiles
  safe := hsafe
  known s p v hs hv := by
    by_cases hk : ∃ k : Key, k.Safe ∧ s :: p = k.path
    · exact hk
    · refine h.known s p v hs ?_
      rw [← hother _ fun k hsafe heq => hk ⟨k, hsafe, List.append_cancel_left heq⟩]
      exact hv
  folders s p hs hmem := by
    rcases hdirs _ hmem with hold | ⟨k, hk, hpre⟩
    · exact h.folders s p hs hold
    · exact ⟨k, hk, List.cons_ne_nil _ _, (List.prefix_append_right_inj root).mp hpre⟩
  parent := hparent
  clear q hq := by
    refine (hother q fun k _ heq => ?_).trans (h.clear q hq)
    have hlen := hq.length_le
    rw [heq, Key.path, List.length_append, List.length_append, List.length_singleton] at hlen
    omega

end Refines

/-! ## The writes -/

def withFolder (root : AbsPath) (k : Key) (d : Disk Data) : Disk Data :=
  { d with dirs := (root ++ k.folder).inits.filter (· ∉ d.dirs) ++ d.dirs }

theorem mem_withFolder {q : AbsPath} : q ∈ (withFolder root k d).dirs ↔ q ∈ d.dirs ∨ q <+: root ++ k.folder := by
  rw [withFolder, List.mem_append, List.mem_filter, List.mem_inits, decide_eq_true_iff]
  by_cases hq : q ∈ d.dirs
  · simp [hq]
  · simp [hq]

theorem mkdir_folder (h : Refines root d t) (hk : k.Safe) :
    mkdir (dirname (root ++ k.path)) d = .ok (withFolder root k d) := by
  rw [mkdir, dirname_path, if_pos fun q hq => h.clear_folder hk ((List.mem_inits _ _).mp hq)]
  rfl

theorem has_withFolder {q : AbsPath} (hq : d.has q ≠ (withFolder root k d).has q) :
    q <+: root ++ k.folder ∧ q ∉ d.dirs := by
  have hdirs : ¬ (q ∈ d.dirs ↔ q ∈ (withFolder root k d).dirs) := fun hsame => lookup_ne_of_has hq hsame rfl
  rw [mem_withFolder] at hdirs
  by_cases hmem : q ∈ d.dirs
  · exact absurd (iff_of_true hmem (.inl hmem)) hdirs
  · refine ⟨?_, hmem⟩
    by_contra hpre
    exact hdirs ⟨.inl, fun h => h.resolve_right hpre⟩

theorem inside_or_above (hk : k.Safe) {q : AbsPath} (hq : q <+: root ++ k.folder) : Inside root q ∨ q <+: root := by
  rcases List.prefix_or_prefix_of_prefix hq (List.prefix_append root k.folder) with hroot | ⟨p, rfl⟩
  · exact .inr hroot
  · by_cases hnil : p = []
    · subst hnil
      exact .inr (by simp)
    · exact .inl (inside_folder ⟨k, hk, hnil, (List.prefix_append_right_inj root).mp hq⟩)

structure Written (root : AbsPath) (proc : Process) (k : Key) (v : Data) (d d' : Disk Data) : Prop where
  files : ∀ q, d'.files.lookup q = if q = root ++ k.path then some v else d.files.lookup q
  dirs : ∀ q, q ∈ d'.dirs ↔ q ∈ d.dirs ∨ q <+: root ++ k.folder
  journal : ∀ q ∈ d'.journal, q ∈ d.journal ∨ (q <+: root ++ k.folder ∧ q ∉ d.dirs) ∨
    q = root ++ tmpPath proc k ∨ q = root ++ k.path

theorem not_prefix_folder {s : String} : ¬ root ++ (k.folder ++ [s]) <+: root ++ k.folder := by
  intro hpre
  have hlen := hpre.length_le
  simp only [List.length_append, List.length_singleton] at hlen
  omega

theorem dropLast_file {s : String} : (root ++ (k.folder ++ [s])).dropLast = root ++ k.folder := by
  rw [← List.append_assoc, List.dropLast_concat]

theorem yields_writeFileAtomic {proc : Process} (h : Refines root d t) (hk : k.Safe) :
    Yields (writeFileAtomic proc (root ++ k.path) v) (fun r d' => r = .ok () ∧ Written root proc k v d d') d := by
  let d₁ := note d (withFolder root k d)
  let d₂ := note d₁ { d₁ with files := d₁.files.insert (root ++ tmpPath proc k) v }
  let d₃ := note d₂ { d₂ with files := (d₂.files.erase (root ++ tmpPath proc k)).insert (root ++ k.path) v }
  have hfolder : root ++ k.folder ∈ d₁.dirs := mem_withFolder.mpr (.inr List.prefix_rfl)
  have htmp : root ++ tmpPath proc k ∉ d₁.dirs := by
    intro hmem
    rcases mem_withFolder.mp hmem with hold | hpre
    · exact h.not_dir_tmp hold
    · exact not_prefix_folder hpre
  have hpath : root ++ k.path ∉ d₁.dirs := by
    intro hmem
    rcases mem_withFolder.mp hmem with hold | hpre
    · exact h.not_dir_path hold
    · exact not_prefix_folder hpre
  have hwrite : Disk.write (tmpFile proc (root ++ k.path)) v d₁ =
      .ok { d₁ with files := d₁.files.insert (root ++ tmpPath proc k) v } := by
    rw [tmpFile_path, Disk.write, if_neg htmp, if_pos (by rw [tmpPath, dropLast_file]; exact hfolder)]
  have hrename : rename (tmpFile proc (root ++ k.path)) (root ++ k.path) d₂ =
      .ok { d₂ with files := (d₂.files.erase (root ++ tmpPath proc k)).insert (root ++ k.path) v } := by
    have hlook : d₂.files.lookup (root ++ tmpPath proc k) = some v := AList.lookup_insert _
    rw [tmpFile_path, rename, hlook]
    show (if root ++ k.path ∈ d₁.dirs then _ else if (root ++ k.path).dropLast ∈ d₁.dirs then _ else _) = _
    rw [if_neg hpath, if_pos (by rw [Key.path, dropLast_file]; exact hfolder)]
  have hne : root ++ tmpPath proc k ≠ root ++ k.path := fun heq => tmpPath_ne_path (List.append_cancel_left heq)
  have hfiles : ∀ q, d₃.files.lookup q = if q = root ++ k.path then some v else d.files.lookup q := by
    intro q
    show ((d₂.files.erase _).insert _ v).lookup q = _
    rw [Table.lookup_insert_eq, Table.lookup_erase_eq]
    by_cases hq : q = root ++ k.path
    · rw [if_pos hq, if_pos hq]
    · rw [if_neg hq, if_neg hq]
      by_cases hqt : q = root ++ tmpPath proc k
      · rw [if_pos hqt, hqt, h.no_tmp]
      · rw [if_neg hqt]
        show (d.files.insert _ v).lookup q = _
        rw [Table.lookup_insert_eq, if_neg hqt]
  refine yields_bind (yields_call (mkdir_folder h hk) ?_)
  refine yields_bind (yields_call hwrite ?_)
  refine yields_call hrename ⟨rfl, hfiles, fun q => mem_withFolder, fun q hq => ?_⟩
  rcases mem_note hq with hq | hq
  · rcases mem_note hq with hq | hq
    · rcases mem_note hq with hq | hq
      · exact .inl hq
      · exact .inr (.inl (has_withFolder hq))
    · refine .inr (.inr (.inl ?_))
      by_contra hqt
      refine lookup_ne_of_has hq Iff.rfl ?_
      rw [Table.lookup_insert_eq, if_neg hqt]
  · by_contra hqt
    simp only [not_or] at hqt
    refine lookup_ne_of_has hq Iff.rfl ?_
    rw [Table.lookup_insert_eq, if_neg hqt.2.2.2, Table.lookup_erase_eq, if_neg hqt.2.2.1]

theorem Refines.written {proc : Process} (h : Refines root d t) (hk : k.Safe) (hw : Written root proc k v d d')
    (ht : ∀ k', t'.get k' = if k' = k then some v else t.get k') : Refines root d' t' ∧ Within root d d' := by
  constructor
  · apply h.change
    · intro k' hk'
      rw [hw.files, ht]
      by_cases heq : k' = k
      · rw [if_pos heq, if_pos (by rw [heq])]
      · rw [if_neg heq, if_neg fun hp => heq (path_inj (List.append_cancel_left hp))]
        exact h.holds k' hk'
    · intro q hq
      rw [hw.files, if_neg (hq k hk)]
    · intro k' v' hv
      rw [ht] at hv
      by_cases heq : k' = k
      · rw [heq]; exact hk
      · rw [if_neg heq] at hv
        exact h.safe k' v' hv
    · intro q hq
      exact ((hw.dirs q).mp hq).imp_right fun hpre => ⟨k, hk, hpre⟩
    · intro k' hne
      rw [hw.dirs]
      by_cases heq : k' = k
      · rw [heq]; exact .inr List.prefix_rfl
      · rw [ht, if_neg heq] at hne
        exact .inl (h.parent k' hne)
  · refine ⟨fun p hp => ?_, fun p hp => ?_, fun p hp _ => (hw.dirs p).mpr (.inl hp)⟩
    · rcases hw.journal p hp with hold | ⟨hpre, hnew⟩ | rfl | rfl
      · exact .inl hold
      · exact .inr ((inside_or_above hk hpre).imp_right fun hroot => ⟨hroot, hnew⟩)
      · exact .inr (.inl (inside_tmp hk))
      · exact .inr (.inl (inside_path hk))
    · rw [hw.files, if_neg]
      rintro rfl
      exact hp (inside_path hk)

/-! ## The removals -/

theorem Refines.inside_of_has (h : Refines root d t) {s : String} {p : AbsPath} (hs : s ∈ kinds)
    (hhas : d.has (root ++ s :: p) = true) : Inside root (root ++ s :: p) := by
  rcases (Bool.or_eq_true _ _).mp hhas with hfile | hdir
  · obtain ⟨v, hv⟩ := Option.isSome_iff_exists.mp hfile
    obtain ⟨k, hk, heq⟩ := h.known s p v hs hv
    rw [heq]
    exact inside_path hk
  · exact inside_folder (h.folders s p hs (of_decide_eq_true hdir))

/-- What goes, goes with all below it, and lies in one of the store's folders. -/
structure Dropped (root : AbsPath) (gone : AbsPath → Bool) (d d' : Disk Data) : Prop where
  files : ∀ q, d'.files.lookup q = if gone q then none else d.files.lookup q
  dirs : ∀ q, q ∈ d'.dirs → q ∈ d.dirs
  below : ∀ q ∈ d.dirs, q ∉ d'.dirs → gone q ∧ ∀ s, gone (q ++ [s])
  under : ∀ q, gone q → ∃ s ∈ kinds, ∃ p, q = root ++ s :: p

theorem Refines.dropped {gone : AbsPath → Bool} (h : Refines root d t) (hd : Dropped root gone d d')
    (ht : ∀ k, t'.get k = if gone (root ++ k.path) then none else t.get k) :
    Refines root (note d d') t' ∧ Within root d (note d d') := by
  constructor
  · apply h.change
    · intro k hk
      show d'.files.lookup _ = _
      rw [hd.files, ht, h.holds k hk]
    · intro q hq
      show d'.files.lookup _ = _
      rw [hd.files]
      by_cases hg : gone q = true
      · obtain ⟨s, hs, p, rfl⟩ := hd.under q hg
        rw [if_pos hg]
        by_contra hne
        obtain ⟨v, hv⟩ := Option.ne_none_iff_exists'.mp (Ne.symm hne)
        obtain ⟨k, hk, heq⟩ := h.known s p v hs hv
        exact hq k hk (by rw [heq])
      · rw [if_neg hg]
    · intro k v hv
      rw [ht] at hv
      by_cases hg : gone (root ++ k.path) = true
      · rw [if_pos hg] at hv; cases hv
      · rw [if_neg hg] at hv
        exact h.safe k v hv
    · exact fun q hq => .inl (hd.dirs q hq)
    · intro k hne
      rw [ht] at hne
      by_cases hg : gone (root ++ k.path) = true
      · rw [if_pos hg] at hne; exact absurd rfl hne
      · rw [if_neg hg] at hne
        by_contra hdir
        refine hg ?_
        rw [Key.path, ← List.append_assoc]
        exact (hd.below _ (h.parent k hne) hdir).2 k.name
  · have hinside : ∀ p, gone p → d.has p = true → Inside root p := by
      intro p hg hhas
      obtain ⟨s, hs, q, rfl⟩ := hd.under p hg
      exact h.inside_of_has hs hhas
    refine ⟨fun p hp => ?_, fun p hp => ?_, fun p hp hroot => ?_⟩
    · rcases mem_note hp with hold | hne
      · exact .inl hold
      · refine .inr (.inl ?_)
        by_cases hg : gone p = true
        · refine hinside p hg ?_
          cases hhas : d.has p with
          | true => rfl
          | false =>
            have hnone := (Bool.or_eq_false_iff.mp hhas).2
            rw [hhas, has, hd.files, if_pos hg, decide_eq_false fun hmem => of_decide_eq_false hnone (hd.dirs p hmem)]
              at hne
            exact absurd rfl hne
        · refine absurd ?_ (lookup_ne_of_has hne ⟨fun hmem => ?_, hd.dirs p⟩)
          · rw [hd.files, if_neg hg]
          · by_contra hdir
            exact hg (hd.below p hmem hdir).1
    · show d'.files.lookup p = _
      rw [hd.files]
      by_cases hg : gone p = true
      · rw [if_pos hg]
        by_contra hne
        obtain ⟨v, hv⟩ := Option.ne_none_iff_exists'.mp (Ne.symm hne)
        refine hp (hinside p hg ?_)
        rw [has, hv]
        rfl
      · rw [if_neg hg]
    · by_contra hdir
      obtain ⟨s, -, q, rfl⟩ := hd.under p (hd.below p hp hdir).1
      have hlen := hroot.length_le
      rw [List.length_append, List.length_cons] at hlen
      omega

end

end Tree

end Cyberlegion
