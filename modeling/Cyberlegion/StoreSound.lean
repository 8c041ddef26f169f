import Cyberlegion.StoreRefines

/-!
# Every operation of the file store

One lemma for each class of operations (a write, a removal, an acknowledgement, a
read, a listing), the seventeen operations as instances of them, and from these the
run of any sequence: its answers are those of the separate maps.
-/

namespace Cyberlegion

namespace Tree

open Disk DiskM

section
variable {root : AbsPath} {proc : Process} {d d' : Disk Data} {t t' : Maps} {k : Key} {v : Data}

/-! ## Builders -/

/-- A builder gives the path of a key, or refuses its ids. -/
structure Builds (root : AbsPath) (file : Except InvalidIdError AbsPath) (k : Key) : Prop where
  path : k.Safe → file = .ok (root ++ k.path)
  refused : ¬ k.Safe → ∃ e, file = .error e

theorem assertSafeId_ok {id kind : String} (h : safeId id) : assertSafeId id kind = .ok id := if_pos h

theorem assertSafeId_error {id kind : String} (h : ¬ safeId id) : assertSafeId id kind = .error ⟨kind, id⟩ := if_neg h

theorem builds_agentFile (id : String) : Builds root (paths.agentFile root id) (.agent id) where
  path h := by rw [paths.agentFile, assertSafeId_ok h]; rfl
  refused h := ⟨_, by rw [paths.agentFile, assertSafeId_error h]; rfl⟩

theorem builds_projectFile (id : String) : Builds root (paths.projectFile root id) (.project id) where
  path h := by rw [paths.projectFile, assertSafeId_ok h]; rfl
  refused h := ⟨_, by rw [paths.projectFile, assertSafeId_error h]; rfl⟩

theorem builds_briefFile (id : String) : Builds root (paths.briefFile root id) (.brief id) where
  path h := by rw [paths.briefFile, assertSafeId_ok h]; rfl
  refused h := ⟨_, by rw [paths.briefFile, assertSafeId_error h]; rfl⟩

theorem builds_serviceLeaseFile (owner service : String) :
    Builds root (paths.serviceLeaseFile root owner service) (.lease owner service) where
  path h := by rw [paths.serviceLeaseFile, assertSafeId_ok h.1, assertSafeId_ok h.2]; rfl
  refused h := by
    by_cases ho : safeId owner = true
    · exact ⟨_, by
        rw [paths.serviceLeaseFile, assertSafeId_ok ho, assertSafeId_error fun hs => h ⟨ho, hs⟩]; rfl⟩
    · exact ⟨_, by rw [paths.serviceLeaseFile, assertSafeId_error ho]; rfl⟩

theorem builds_messageFile (box msgId : String) :
    Builds root (paths.messageFile root box msgId) (.unread box msgId) where
  path h := by
    rw [paths.messageFile, paths.inboxDir, assertSafeId_ok h.1, assertSafeId_ok h.2]
    exact congrArg Except.ok (List.append_assoc root _ _)
  refused h := by
    by_cases hb : safeId box = true
    · exact ⟨_, by
        rw [paths.messageFile, paths.inboxDir, assertSafeId_ok hb, assertSafeId_error fun hs => h ⟨hb, hs⟩]; rfl⟩
    · exact ⟨_, by rw [paths.messageFile, paths.inboxDir, assertSafeId_error hb]; rfl⟩

theorem builds_messageReadFile (box msgId : String) :
    Builds root (paths.messageReadFile root box msgId) (.read box msgId) where
  path h := by
    rw [paths.messageReadFile, paths.inboxReadDir, assertSafeId_ok h.1, assertSafeId_ok h.2]
    exact congrArg Except.ok (List.append_assoc root _ _)
  refused h := by
    by_cases hb : safeId box = true
    · exact ⟨_, by
        rw [paths.messageReadFile, paths.inboxReadDir, assertSafeId_ok hb,
          assertSafeId_error fun hs => h ⟨hb, hs⟩]; rfl⟩
    · exact ⟨_, by rw [paths.messageReadFile, paths.inboxReadDir, assertSafeId_error hb]; rfl⟩

/-! ## The classes of operations -/

/-- An operation on the tree is one on the maps. -/
def Sound (root : AbsPath) (proc : Process) (t : Maps) (op : Op) (d : Disk Data) : Prop :=
  Yields (op.prog root proc) (fun r d' => ∃ t', t.Step op r t' ∧ Refines root d' t' ∧ Within root d d') d

theorem yields_writes {file : Except InvalidIdError AbsPath} {p : AbsPath} {m : AbsPath → TreeM Unit} {safe : Bool}
    {new : Maps} (h : Refines root d t) (hok : safe = true → file = .ok p)
    (herror : ¬ safe = true → ∃ e, file = .error e)
    (hm : safe = true → Yields (m p) (fun r d' => r = .ok () ∧ Refines root d' new ∧ Within root d d') d) :
    Yields ((fun _ => Answer.done) <$> (do m (← orThrow file)))
      (fun r d' => ∃ t', Maps.Writes safe t new r t' ∧ Refines root d' t' ∧ Within root d d') d := by
  apply yields_map
  by_cases hs : safe = true
  · rw [hok hs]
    refine (hm hs).mono ?_
    rintro r d' ⟨rfl, href, hwithin⟩
    refine ⟨new, ?_, href, hwithin⟩
    rw [Maps.Writes, if_pos hs]
    exact ⟨rfl, rfl⟩
  · obtain ⟨e, he⟩ := herror hs
    rw [he]
    refine ⟨t, ?_, h, .refl⟩
    rw [Maps.Writes, if_neg hs]
    exact ⟨⟨e, rfl⟩, rfl⟩

theorem yields_put {file : Except InvalidIdError AbsPath} {safe : Bool} {new : Maps} (h : Refines root d t)
    (hb : Builds root file k) (hsafe : safe = true ↔ k.Safe)
    (hnew : ∀ k', new.get k' = if k' = k then some v else t.get k') :
    Yields ((fun _ => Answer.done) <$> (do writeFileAtomic proc (← orThrow file) v))
      (fun r d' => ∃ t', Maps.Writes safe t new r t' ∧ Refines root d' t' ∧ Within root d d') d := by
  refine yields_writes h (fun hs => hb.path (hsafe.mp hs)) (fun hs => hb.refused
    fun hk => hs (hsafe.mpr hk)) fun hs => ?_
  refine (yields_writeFileAtomic h (hsafe.mp hs)).mono ?_
  rintro r d' ⟨rfl, hw⟩
  exact ⟨rfl, h.written (hsafe.mp hs) hw hnew⟩

theorem dropped_path :
    Dropped root (fun q => q = root ++ k.path) d { d with files := d.files.erase (root ++ k.path) } where
  files q := by simp [Table.lookup_erase_eq]
  dirs _ hq := hq
  below q hq hnot := absurd hq hnot
  under q hq := by
    obtain ⟨s, hs, p, hp⟩ := kinds_path (k := k)
    exact ⟨s, hs, p, hp ▸ of_decide_eq_true hq⟩

theorem dropped_tree {s : String} {p : AbsPath} (hs : s ∈ kinds) :
    Dropped root (fun q => (root ++ s :: p).isPrefixOf q) d
      { d with files := d.files.without fun q => (root ++ s :: p).isPrefixOf q
               dirs := d.dirs.filter fun q => ¬ (root ++ s :: p).isPrefixOf q } where
  files q := Table.lookup_without ..
  dirs q hq := (List.mem_filter.mp hq).1
  below q hq hnot := by
    have hpre : (root ++ s :: p).isPrefixOf q = true := by
      by_contra hpre
      exact hnot (List.mem_filter.mpr ⟨hq, decide_eq_true hpre⟩)
    refine ⟨hpre, fun s' => ?_⟩
    rw [List.isPrefixOf_iff_prefix] at hpre ⊢
    exact hpre.trans (List.prefix_append q [s'])
  under q hq := by
    obtain ⟨r, rfl⟩ := List.isPrefixOf_iff_prefix.mp hq
    exact ⟨s, hs, p ++ r, by rw [List.append_assoc, List.cons_append]⟩

theorem remove_path (h : Refines root d t) (hk : k.Safe) (hsome : (t.get k).isSome) :
    remove (root ++ k.path) d = .ok { d with files := d.files.erase (root ++ k.path) } := by
  rw [remove, if_neg h.not_dir_path, h.holds k hk, if_pos hsome]

theorem removeForce_path (h : Refines root d t) :
    removeForce (root ++ k.path) d = .ok { d with files := d.files.erase (root ++ k.path) } := by
  rw [removeForce, if_neg h.not_dir_path]

theorem Refines.without_key (h : Refines root d t) (hnew : ∀ k', t'.get k' = if k' = k then none else t.get k') :
    Refines root (note d { d with files := d.files.erase (root ++ k.path) }) t' ∧
      Within root d (note d { d with files := d.files.erase (root ++ k.path) }) := by
  refine h.dropped dropped_path fun k' => ?_
  rw [hnew]
  by_cases heq : k' = k
  · rw [if_pos heq, if_pos (decide_eq_true (by rw [heq]))]
  · rw [if_neg heq, if_neg fun hp => heq (path_inj (List.append_cancel_left (of_decide_eq_true hp)))]

theorem yields_removeTree {s : String} {p : AbsPath} (h : Refines root d t) (hs : s ∈ kinds)
    (hnew : ∀ k, t'.get k = if s :: p <+: k.path then none else t.get k) :
    Yields (call StoreError.fs (removeTree (root ++ s :: p)))
      (fun r d' => r = .ok () ∧ Refines root d' t' ∧ Within root d d') d := by
  refine yields_call rfl ⟨rfl, h.dropped (dropped_tree hs) fun k => ?_⟩
  rw [hnew]
  refine if_congr ?_ rfl rfl
  rw [List.isPrefixOf_iff_prefix, List.prefix_append_right_inj]

/-! Reads. -/

theorem readJsonRecord_result {α : Type} {parse : Data → Option α} {file : AbsPath} {a : α}
    (hv : d.files.lookup file = some v) (hparse : parse v = some a) :
    (readJsonRecord parse file).result d = (.ok a, d) := by
  have hread : (readFileSync file).result d = (.ok v, d) := by
    have hlook : (look fun d => d.files.lookup file : TreeM (Option Data)).result d = (.ok (some v), d) := by
      rw [← hv]
      rfl
    rw [readFileSync, result_bind, hlook]
    rfl
  rw [readJsonRecord, result_bind, hread]
  dsimp only
  rw [hparse]
  rfl

theorem yields_existsSync {p : AbsPath} {b : Bool} {β : Type} {f : Bool → TreeM β}
    {Q : Except StoreError β → Disk Data → Prop}
    (hb : d.has p = b) (h : Yields (f b) Q d) : Yields (existsSync p >>= f) Q d :=
  yields_bind (yields_look (by rw [hb]; exact h))

theorem yields_getRecord {α : Type} {parse : Data → Option α} {mk : α → Data} {file : Except InvalidIdError AbsPath}
    {held : Option α} (h : Refines root d t) (hb : Builds root file k) (hget : t.get k = held.map mk)
    (hparse : ∀ a, parse (mk a) = some a) :
    Yields (getRecord parse file) (fun r d' => r = .ok held ∧ d' = d) d := by
  by_cases hk : k.Safe
  · rw [getRecord, hb.path hk]
    refine yields_existsSync (h.has_path hk) ?_
    rw [hget]
    cases held with
    | none => exact ⟨rfl, rfl⟩
    | some a =>
      have hread := readJsonRecord_result (h.holds k hk |>.trans hget) (hparse a)
      refine yields_map ?_
      rw [Yields, hread]
      exact ⟨rfl, rfl⟩
  · obtain ⟨e, he⟩ := hb.refused hk
    rw [getRecord, he]
    cases held with
    | none => exact ⟨rfl, rfl⟩
    | some a => exact absurd (h.safe k _ hget) hk

/-! Listings. -/

/-- A folder whose files are those of one kind of key. -/
structure Shelf (folder : AbsPath) (key : String → Key) : Prop where
  path : ∀ x, (key x).path = folder ++ [x ++ ".json"]
  only : ∀ k : Key, k.folder = folder → ∃ x, k = key x

theorem Shelf.folder {folder : AbsPath} {key : String → Key} (hs : Shelf folder key) (x : String) :
    (key x).folder = folder :=
  (List.append_inj' (hs.path x) rfl).1

theorem shelf_agents : Shelf ["agents"] .agent where
  path _ := rfl
  only k hk := by cases k <;> simp_all [Key.folder]

theorem shelf_projects : Shelf ["projects"] .project where
  path _ := rfl
  only k hk := by cases k <;> simp_all [Key.folder]

theorem shelf_unread (box : String) : Shelf ["inbox", box] (.unread box) where
  path _ := rfl
  only k hk := by cases k <;> simp_all [Key.folder]

theorem shelf_read (box : String) : Shelf ["inbox", box, "read"] (.read box) where
  path _ := rfl
  only k hk := by cases k <;> simp_all [Key.folder]

section
variable {folder : AbsPath} {key : String → Key} {ids : List String}

theorem Shelf.not_dir (hs : Shelf folder key) (h : Refines root d t) {x : String} :
    root ++ folder ++ [x ++ ".json"] ∉ d.dirs := by
  intro hmem
  have hpath : root ++ folder ++ [x ++ ".json"] = root ++ (key x).path := by rw [hs.path, List.append_assoc]
  exact h.not_dir_path (hpath ▸ hmem)

theorem Shelf.mem_files (hs : Shelf folder key) (h : Refines root d t) {x : String} :
    root ++ folder ++ [x ++ ".json"] ∈ d.files.keys ↔ t.get (key x) ≠ none := by
  rw [List.append_assoc, ← hs.path, ← AList.mem_keys, ← AList.lookup_isSome, Option.isSome_iff_ne_none]
  by_cases hk : (key x).Safe
  · rw [h.holds _ hk]
  · refine iff_of_false (fun hne => ?_) fun hne => ?_
    · obtain ⟨v, hv⟩ := Option.ne_none_iff_exists'.mp hne
      obtain ⟨s, hs', p, hp⟩ := kinds_path (k := key x)
      rw [hp] at hv
      obtain ⟨k, hsafe, heq⟩ := h.known s p v hs' hv
      exact hk (path_inj (hp.trans heq) ▸ hsafe)
    · obtain ⟨v, hv⟩ := Option.ne_none_iff_exists'.mp hne
      exact hk (h.safe _ v hv)

theorem names_shelf (hs : Shelf folder key) (h : Refines root d t) (hnd : ids.Nodup)
    (hids : ∀ x, x ∈ ids ↔ t.get (key x) ≠ none) :
    ((d.names (root ++ folder)).filter (·.endsWith ".json")).Perm (ids.map (· ++ ".json")) := by
  have hdirs : (d.dirs.filterMap (nameIn (root ++ folder))).filter (·.endsWith ".json") = [] := by
    refine List.filter_eq_nil_iff.mpr fun f hf hjson => ?_
    obtain ⟨x, rfl⟩ := endsWith_json.mp hjson
    exact hs.not_dir h (mem_filterMap_nameIn.mp hf)
  rw [names, List.filterMap_append, List.filter_append, hdirs, List.append_nil]
  have hnodup : (ids.map (· ++ ".json")).Nodup := hnd.map fun x y hxy => json_inj hxy
  refine (List.perm_ext_iff_of_nodup ((nodup_filterMap_nameIn d.files.keys_nodup).filter _) hnodup).mpr fun f => ?_
  rw [List.mem_filter, mem_filterMap_nameIn, endsWith_json, List.mem_map]
  constructor
  · rintro ⟨hmem, x, rfl⟩
    exact ⟨x, (hids x).mpr ((hs.mem_files h).mp hmem), rfl⟩
  · rintro ⟨x, hx, rfl⟩
    exact ⟨(hs.mem_files h).mpr ((hids x).mp hx), x, rfl⟩

theorem readdirSync_result {p : AbsPath} (hdir : p ∈ d.dirs) :
    (readdirSync proc p).result d = (.ok (proc.order p (d.names p)), d) := by
  rw [readdirSync, result_bind]
  show (if decide (p ∈ d.dirs) = true then _ else _ : TreeM (List String)).result d = _
  rw [if_pos (decide_eq_true hdir)]
  rfl

theorem yields_readRecords {α : Type} {parse : Data → Option α} {mk : α → Data} {held : String → Option α}
    (hs : Shelf folder key) (h : Refines root d t) (hfolder : Folder folder) (hnd : ids.Nodup)
    (hids : ∀ x, x ∈ ids ↔ t.get (key x) ≠ none) (hget : ∀ x, t.get (key x) = (held x).map mk)
    (hparse : ∀ a, parse (mk a) = some a) :
    Yields (readRecords proc parse (root ++ folder))
      (fun r d' => ∃ l, r = .ok l ∧ l.Perm (ids.filterMap held) ∧ d' = d) d := by
  have hhas : d.has (root ++ folder) = decide (root ++ folder ∈ d.dirs) := by
    rw [has, h.no_file_folder hfolder]
    rfl
  refine yields_existsSync hhas ?_
  by_cases hdir : root ++ folder ∈ d.dirs
  · rw [decide_eq_true hdir]
    let names' := (proc.order (root ++ folder) (d.names (root ++ folder))).filter (·.endsWith ".json")
    have hnames : names'.Perm (ids.map (· ++ ".json")) :=
      ((proc.order_perm _ _).filter _).trans (names_shelf hs h hnd hids)
    have hread : (readdirSync proc (root ++ folder)).result d = (.ok (proc.order _ (d.names _)), d) :=
      readdirSync_result hdir
    let g : String → Option α := fun f => (d.files.lookup (root ++ folder ++ [f])).bind parse
    have hg : ∀ x ∈ ids, g (x ++ ".json") = held x := by
      intro x hx
      have hk : (key x).Safe := by
        obtain ⟨v, hv⟩ := Option.ne_none_iff_exists'.mp ((hids x).mp hx)
        exact h.safe _ v hv
      show (d.files.lookup (root ++ folder ++ [x ++ ".json"])).bind parse = held x
      rw [List.append_assoc, ← hs.path, h.holds _ hk, hget]
      cases held x with
      | none => rfl
      | some a => exact hparse a
    have hall : (names'.mapM fun f => readJsonRecord parse (root ++ folder ++ [f]) : TreeM (List α)).result d =
        (.ok (names'.filterMap g), d) := by
      refine result_mapM fun f hf => ?_
      obtain ⟨x, hx, rfl⟩ := List.mem_map.mp (hnames.mem_iff.mp hf)
      have hne := (hids x).mp hx
      rw [hget, Ne, Option.map_eq_none_iff] at hne
      obtain ⟨a, ha⟩ := Option.ne_none_iff_exists'.mp hne
      refine ⟨a, (hg x hx).trans ha, ?_⟩
      have hk : (key x).Safe := h.safe _ (mk a) (by rw [hget, ha]; rfl)
      refine readJsonRecord_result (v := mk a) ?_ (hparse a)
      rw [List.append_assoc, ← hs.path, h.holds _ hk, hget, ha]
      rfl
    refine yields_bind ?_
    rw [Yields, hread]
    show Yields (names'.mapM fun f => readJsonRecord parse (root ++ folder ++ [f]) : TreeM (List α)) _ d
    rw [Yields, hall]
    refine ⟨_, rfl, (hnames.filterMap g).trans (.of_eq ?_), rfl⟩
    rw [List.filterMap_map]
    exact List.filterMap_congr hg
  · rw [decide_eq_false hdir]
    have hnil : ids = [] := by
      refine List.eq_nil_iff_forall_not_mem.mpr fun x hx => hdir ?_
      rw [← hs.folder x]
      exact h.parent _ ((hids x).mp hx)
    subst hnil
    exact ⟨[], rfl, .refl [], rfl⟩

end

/-! An acknowledgement. -/

def moved (root : AbsPath) (k k' : Key) (v : Data) (d : Disk Data) : Disk Data :=
  let d₁ := note d (withFolder root k' d)
  note d₁ { d₁ with files := (d₁.files.erase (root ++ k.path)).insert (root ++ k'.path) v }

theorem yields_move {k' : Key} {β : Type} {f : TreeM β} {Q : Except StoreError β → Disk Data → Prop}
    (h : Refines root d t)
    (hk : k.Safe) (hk' : k'.Safe) (hv : t.get k = some v) (hQ : Yields f Q (moved root k k' v d)) :
    Yields (do
      call .fs (mkdir (dirname (root ++ k'.path)))
      call .fs (rename (root ++ k.path) (root ++ k'.path))
      f) Q d := by
  have hpath : root ++ k'.path ∉ (withFolder root k' d).dirs := by
    intro hmem
    rcases mem_withFolder.mp hmem with hold | hpre
    · exact h.not_dir_path hold
    · exact not_prefix_folder hpre
  have hfolder : root ++ k'.folder ∈ (withFolder root k' d).dirs := mem_withFolder.mpr (.inr List.prefix_rfl)
  refine yields_bind (yields_call (mkdir_folder h hk') (yields_bind (yields_call ?_ hQ)))
  have hlook : (note d (withFolder root k' d)).files.lookup (root ++ k.path) = some v := (h.holds k hk).trans hv
  rw [rename, hlook]
  show (if root ++ k'.path ∈ (withFolder root k' d).dirs then _
    else if (root ++ k'.path).dropLast ∈ (withFolder root k' d).dirs then _ else _) = _
  rw [if_neg hpath, if_pos (by rw [Key.path, dropLast_file]; exact hfolder)]

theorem Refines.moved {k' : Key} (h : Refines root d t) (hk : k.Safe) (hk' : k'.Safe)
    (hnew : ∀ j, t'.get j = if j = k' then some v else if j = k then none else t.get j) :
    Refines root (moved root k k' v d) t' ∧ Within root d (moved root k k' v d) := by
  have hfiles : ∀ q, (Tree.moved root k k' v d).files.lookup q =
      if q = root ++ k'.path then some v else if q = root ++ k.path then none else d.files.lookup q := by
    intro q
    show ((d.files.erase _).insert _ v).lookup q = _
    rw [Table.lookup_insert_eq, Table.lookup_erase_eq]
  have hdirs : ∀ q, q ∈ (Tree.moved root k k' v d).dirs ↔ q ∈ d.dirs ∨ q <+: root ++ k'.folder :=
    fun q => mem_withFolder
  constructor
  · apply h.change
    · intro j hj
      rw [hfiles, hnew, h.holds j hj]
      refine if_congr ⟨fun heq => path_inj (List.append_cancel_left heq), fun heq => by rw [heq]⟩ rfl ?_
      exact if_congr ⟨fun heq => path_inj (List.append_cancel_left heq), fun heq => by rw [heq]⟩ rfl rfl
    · intro q hq
      rw [hfiles, if_neg (hq k' hk'), if_neg (hq k hk)]
    · intro j w hw
      rw [hnew] at hw
      by_cases hj' : j = k'
      · rw [hj']; exact hk'
      · by_cases hj : j = k
        · rw [hj]; exact hk
        · rw [if_neg hj', if_neg hj] at hw
          exact h.safe j w hw
    · exact fun q hq => ((hdirs q).mp hq).imp_right fun hpre => ⟨k', hk', hpre⟩
    · intro j hne
      rw [hdirs]
      by_cases hj' : j = k'
      · rw [hj']; exact .inr List.prefix_rfl
      · rw [hnew, if_neg hj'] at hne
        by_cases hj : j = k
        · rw [if_pos hj] at hne; exact absurd rfl hne
        · rw [if_neg hj] at hne
          exact .inl (h.parent j hne)
  · refine ⟨fun p hp => ?_, fun p hp => ?_, fun p hp _ => (hdirs p).mpr (.inl hp)⟩
    · rcases mem_note hp with hp | hne
      · rcases mem_note hp with hold | hne
        · exact .inl hold
        · obtain ⟨hpre, hnew⟩ := has_withFolder hne
          exact .inr ((inside_or_above hk' hpre).imp_right fun hroot => ⟨hroot, hnew⟩)
      · have hfile := lookup_ne_of_has hne Iff.rfl
        by_cases hp' : p = root ++ k'.path
        · rw [hp']; exact .inr (.inl (inside_path hk'))
        · by_cases hp : p = root ++ k.path
          · rw [hp]; exact .inr (.inl (inside_path hk))
          · rw [Table.lookup_insert_eq, if_neg hp', Table.lookup_erase_eq, if_neg hp] at hfile
            exact absurd rfl hfile
    · rw [hfiles, if_neg, if_neg]
      · rintro rfl; exact hp (inside_path hk)
      · rintro rfl; exact hp (inside_path hk')

theorem sorted_by {α : Type} (f : α → Int) (l : List α) :
    (l.insertionSort fun a b => f a ≤ f b).Pairwise fun a b => f a ≤ f b := by
  have : Std.Total fun a b : α => f a ≤ f b := ⟨fun a b => Int.le_total (f a) (f b)⟩
  have : IsTrans α fun a b => f a ≤ f b := ⟨fun _ _ _ => Int.le_trans⟩
  exact List.pairwise_insertionSort _ l

theorem mem_keys_get {κ β : Type} [DecidableEq κ] {s : Table κ β} {x : κ} {mk : β → Data} :
    x ∈ s.keys ↔ (s.lookup x).map mk ≠ none := by
  rw [Ne, Option.map_eq_none_iff, AList.lookup_eq_none, not_not, AList.mem_keys]

theorem yields_readBox {folder : AbsPath} {key : String → Key} {s : Table (String × String) Message} {id : String}
    (hs : Shelf folder key) (h : Refines root d t) (hfolder : Folder folder)
    (hget : ∀ x, t.get (key x) = (s.lookup (id, x)).map .message) :
    Yields (readMessages proc (root ++ folder))
      (fun r d' => ∃ l, r = .ok l ∧ l.Perm (s.select fun key => key.1 = id) ∧ d' = d) d := by
  let mine := s.keys.filter fun key => key.1 = id
  have hmine : ∀ {key}, key ∈ mine → key.1 = id := fun hkey => of_decide_eq_true (List.mem_filter.mp hkey).2
  have hnd : (mine.map (·.2)).Nodup := by
    refine (s.keys_nodup.filter _).map_on fun a ha b hb hab => ?_
    exact Prod.ext ((hmine ha).trans (hmine hb).symm) hab
  have hids : ∀ x, x ∈ mine.map (·.2) ↔ t.get (key x) ≠ none := by
    intro x
    rw [hget, ← mem_keys_get, List.mem_map]
    constructor
    · rintro ⟨⟨b, y⟩, hmem, rfl⟩
      obtain rfl : b = id := hmine hmem
      exact (List.mem_filter.mp hmem).1
    · exact fun hmem => ⟨(id, x), List.mem_filter.mpr ⟨hmem, decide_eq_true rfl⟩, rfl⟩
  refine (yields_readRecords hs h hfolder hnd hids hget fun _ => rfl).mono ?_
  rintro r d' ⟨l, rfl, hl, rfl⟩
  refine ⟨l, rfl, hl.trans (.of_eq ?_), rfl⟩
  rw [Table.select_eq, List.filterMap_map]
  refine List.filterMap_congr fun key hkey => ?_
  show s.lookup (id, key.2) = s.lookup key
  rw [← hmine hkey]

theorem select_of_not_safe {key : String → String → Key} {s : Table (String × String) Message} {id : String}
    (h : Refines root d t) (hget : ∀ x, t.get (key id x) = (s.lookup (id, x)).map .message)
    (hid : ∀ x, ¬ (key id x).Safe) : (s.select fun key => key.1 = id) = [] := by
  rw [Table.select_eq, List.filter_eq_nil_iff.mpr, List.filterMap_nil]
  rintro ⟨b, x⟩ hmem hb
  obtain rfl : b = id := of_decide_eq_true hb
  obtain ⟨v, hv⟩ := Option.ne_none_iff_exists'.mp (mem_keys_get.mp hmem : (s.lookup (b, x)).map Data.message ≠ none)
  exact hid x (h.safe _ v ((hget x).trans hv))

/-! ## The operations -/

section
variable (h : Refines root d t)
include h

theorem sound_putAgent (rec : AgentRecord) : Sound root proc t (.putAgent rec) d :=
  yields_put h (builds_agentFile rec.id) Iff.rfl fun k' => by
    cases k' <;> simp [Maps.get, Table.lookup_insert_eq]
    split <;> rfl

theorem sound_putProject (rec : ProjectRecord) : Sound root proc t (.putProject rec) d :=
  yields_put h (builds_projectFile rec.id) Iff.rfl fun k' => by
    cases k' <;> simp [Maps.get, Table.lookup_insert_eq]
    split <;> rfl

theorem sound_putServiceLease (lease : ServiceLease) : Sound root proc t (.putServiceLease lease) d :=
  yields_put h (builds_serviceLeaseFile lease.project lease.service) (Bool.and_eq_true _ _ ▸ Iff.rfl) fun k' => by
    cases k' <;> simp [Maps.get, Table.lookup_insert_eq]
    split <;> rfl

theorem sound_writeBrief (agentId text : String) : Sound root proc t (.writeBrief agentId text) d :=
  yields_put h (builds_briefFile agentId) Iff.rfl fun k' => by
    cases k' <;> simp [Maps.get, Table.lookup_insert_eq]
    split <;> rfl

theorem sound_putMessage (toId : String) (msg : Message) : Sound root proc t (.putMessage toId msg) d :=
  yields_put h (builds_messageFile toId msg.id) (Bool.and_eq_true _ _ ▸ Iff.rfl) fun k' => by
    cases k' <;> simp [Maps.get, Table.lookup_insert_eq]
    split <;> rfl

theorem sound_get {op : Op} {α : Type} {parse : Data → Option α} {mk : α → Data} {held : Option α}
    {answer : Option α → Answer} {file : Except InvalidIdError AbsPath}
    (hprog : op.prog root proc = answer <$> getRecord parse file) (hb : Builds root file k)
    (hget : t.get k = held.map mk)
    (hparse : ∀ a, parse (mk a) = some a) (hstep : t.Step op (.ok (answer held)) t) : Sound root proc t op d := by
  rw [Sound, hprog]
  refine yields_map ((yields_getRecord h hb hget hparse).mono ?_)
  rintro r d' ⟨rfl, rfl⟩
  exact ⟨t, hstep, h, .refl⟩

theorem sound_getAgent (id : String) : Sound root proc t (.getAgent id) d :=
  sound_get h rfl (builds_agentFile id) rfl (fun _ => rfl) ⟨rfl, rfl⟩

theorem sound_getProject (id : String) : Sound root proc t (.getProject id) d :=
  sound_get h rfl (builds_projectFile id) rfl (fun _ => rfl) ⟨rfl, rfl⟩

theorem sound_getServiceLease (owner service : String) : Sound root proc t (.getServiceLease owner service) d :=
  sound_get h rfl (builds_serviceLeaseFile owner service) rfl (fun _ => rfl) ⟨rfl, rfl⟩

theorem sound_readBrief (agentId : String) : Sound root proc t (.readBrief agentId) d :=
  sound_get h rfl (builds_briefFile agentId) rfl (fun _ => rfl) ⟨rfl, rfl⟩

theorem sound_removeAgent (id : String) : Sound root proc t (.removeAgent id) d := by
  have hb : Builds root (paths.agentFile root id) (.agent id) := builds_agentFile id
  refine yields_writes h hb.path hb.refused fun _ => yields_call (removeForce_path h) ⟨rfl, h.without_key fun k' => ?_⟩
  cases k' <;> simp [Maps.get, Table.lookup_erase_eq]
  split <;> rfl

theorem sound_removeAgentData (id : String) : Sound root proc t (.removeAgentData id) d := by
  refine yields_writes h (p := root ++ ["data", id]) (fun hs => ?_) (fun hs => ⟨⟨"agent id", id⟩, ?_⟩) fun _ =>
    yields_removeTree h (by decide) fun k => ?_
  · rw [paths.dataDir, assertSafeId_ok hs]; rfl
  · rw [paths.dataDir, assertSafeId_error hs]; rfl
  · cases k <;> simp [Maps.get, Table.lookup_erase_eq, Key.path, Key.folder, Key.name, List.cons_prefix_cons,
      eq_comm (a := id)]
    split <;> rfl

theorem sound_removeMailbox (id : String) : Sound root proc t (.removeMailbox id) d := by
  refine yields_writes h (p := root ++ ["inbox", id]) (fun hs => ?_) (fun hs => ⟨⟨"agent id", id⟩, ?_⟩) fun _ =>
    yields_removeTree h (by decide) fun k => ?_
  · rw [paths.inboxDir, assertSafeId_ok hs]; rfl
  · rw [paths.inboxDir, assertSafeId_error hs]; rfl
  · cases k <;> simp [Maps.get, Table.lookup_without, Key.path, Key.folder, Key.name, List.cons_prefix_cons,
      eq_comm (a := id)]
    all_goals split <;> rfl

theorem yields_remove {new : Maps} (hk : k.Safe) (hsome : (t.get k).isSome)
    (hnew : ∀ k', new.get k' = if k' = k then none else t.get k') :
    Yields (call StoreError.fs (remove (root ++ k.path)))
      (fun r d' => r = .ok () ∧ Refines root d' new ∧ Within root d d') d :=
  yields_call (remove_path h hk hsome) ⟨rfl, h.without_key hnew⟩

theorem sound_removeMessage (id msgId : String) : Sound root proc t (.removeMessage id msgId) d := by
  have hbu : Builds root (paths.messageFile root id msgId) (.unread id msgId) := builds_messageFile id msgId
  have hbr : Builds root (paths.messageReadFile root id msgId) (.read id msgId) := builds_messageReadFile id msgId
  apply yields_map
  by_cases hk : safeId id = true ∧ safeId msgId = true
  · have hunread : (t.get (.unread id msgId)).isSome = (t.unread.lookup (id, msgId)).isSome := Option.isSome_map ..
    have hread : (t.get (.read id msgId)).isSome = (t.read.lookup (id, msgId)).isSome := Option.isSome_map ..
    rw [removeMessage, hbu.path hk]
    refine yields_existsSync (h.has_path hk) ?_
    by_cases hu : (t.get (.unread id msgId)).isSome = true
    · rw [hu]
      refine (@yields_remove root d t (.unread id msgId) h { t with unread := t.unread.erase (id, msgId) }
        hk hu fun k' => ?_).mono ?_
      · cases k' <;> simp [Maps.get, Table.lookup_erase_eq]
        split <;> rfl
      · rintro r d' ⟨rfl, href, hwithin⟩
        refine ⟨_, ?_, href, hwithin⟩
        rw [Maps.Step, if_pos (hunread ▸ hu)]
        exact ⟨rfl, rfl⟩
    · rw [Bool.eq_false_iff.mpr hu]
      show Yields (removeRead root id msgId) _ d
      rw [removeRead, hbr.path hk]
      refine yields_existsSync (h.has_path hk) ?_
      by_cases hr : (t.get (.read id msgId)).isSome = true
      · rw [hr]
        refine (@yields_remove root d t (.read id msgId) h { t with read := t.read.erase (id, msgId) }
          hk hr fun k' => ?_).mono ?_
        · cases k' <;> simp [Maps.get, Table.lookup_erase_eq]
          split <;> rfl
        · rintro r d' ⟨rfl, href, hwithin⟩
          refine ⟨_, ?_, href, hwithin⟩
          rw [Maps.Step, if_neg (hunread ▸ hu), if_pos (hread ▸ hr)]
          exact ⟨rfl, rfl⟩
      · rw [Bool.eq_false_iff.mpr hr]
        refine ⟨t, ?_, h, .refl⟩
        rw [Maps.Step, if_neg (hunread ▸ hu), if_neg (hread ▸ hr)]
        exact ⟨rfl, rfl⟩
  · obtain ⟨e, he⟩ := hbu.refused hk
    obtain ⟨e', he'⟩ := hbr.refused hk
    rw [removeMessage, he]
    show Yields (removeRead root id msgId) _ d
    rw [removeRead, he']
    refine ⟨t, ?_, h, .refl⟩
    rw [Maps.Step, if_neg, if_neg]
    · exact ⟨rfl, rfl⟩
    · intro hsome
      obtain ⟨msg, hmsg⟩ := Option.isSome_iff_exists.mp hsome
      exact hk (h.safe (.read id msgId) (.message msg) (by rw [Maps.get, hmsg]; rfl))
    · intro hsome
      obtain ⟨msg, hmsg⟩ := Option.isSome_iff_exists.mp hsome
      exact hk (h.safe (.unread id msgId) (.message msg) (by rw [Maps.get, hmsg]; rfl))

theorem sound_ackMessage (id msgId : String) : Sound root proc t (.ackMessage id msgId) d := by
  have hbu : Builds root (paths.messageFile root id msgId) (.unread id msgId) := builds_messageFile id msgId
  have hbr : Builds root (paths.messageReadFile root id msgId) (.read id msgId) := builds_messageReadFile id msgId
  apply yields_map
  by_cases hk : safeId id = true ∧ safeId msgId = true
  · have hget : t.get (.unread id msgId) = (t.unread.lookup (id, msgId)).map .message := rfl
    rw [ackMessage, hbu.path hk]
    refine yields_existsSync (h.has_path hk) ?_
    cases hmsg : t.unread.lookup (id, msgId) with
    | none =>
      rw [hget, hmsg]
      refine ⟨t, ?_, h, .refl⟩
      rw [Maps.Step, hmsg]
      exact ⟨rfl, rfl⟩
    | some msg =>
      have hv : t.get (.unread id msgId) = some (.message msg) := by rw [hget, hmsg]; rfl
      rw [hv]
      have hread := @readJsonRecord_result d _ _ Data.message? _ _ (h.holds (.unread id msgId) hk |>.trans hv) rfl
      refine yields_bind ?_
      rw [Yields, hread, hbr.path hk]
      refine yields_move h hk hk hv
        ⟨{ t with unread := t.unread.erase (id, msgId), read := t.read.insert (id, msgId) msg }, ?_,
          h.moved hk hk fun j => ?_⟩
      · rw [Maps.Step, hmsg]
        exact ⟨rfl, rfl⟩
      · cases j <;> simp [Maps.get, Table.lookup_erase_eq, Table.lookup_insert_eq]
        all_goals split <;> rfl
  · obtain ⟨e, he⟩ := hbu.refused hk
    rw [ackMessage, he]
    refine ⟨t, ?_, h, .refl⟩
    cases hmsg : t.unread.lookup (id, msgId) with
    | none =>
      rw [Maps.Step, hmsg]
      exact ⟨rfl, rfl⟩
    | some msg => exact absurd (h.safe (.unread id msgId) (.message msg) (by rw [Maps.get, hmsg]; rfl)) hk

theorem sound_listAgents : Sound root proc t .listAgents d := by
  have hfolder : Folder ["agents"] := ⟨.agent "a", by show safeId "a"; decide, by decide, List.prefix_rfl⟩
  refine yields_map (yields_bind ((yields_readRecords shelf_agents h hfolder t.agents.keys_nodup (fun _ => mem_keys_get)
    (fun _ => rfl) fun _ => rfl).mono ?_))
  rintro r d' ⟨l, rfl, hl, rfl⟩
  refine ⟨t, ⟨rfl, _, rfl, ?_, sorted_by AgentRecord.createdAt l⟩, h, .refl⟩
  rw [Table.values_eq]
  exact (List.perm_insertionSort _ l).trans hl

theorem sound_listProjects : Sound root proc t .listProjects d := by
  have hfolder : Folder ["projects"] := ⟨.project "a", by show safeId "a"; decide, by decide, List.prefix_rfl⟩
  refine yields_map (yields_bind ((yields_readRecords shelf_projects h hfolder t.projects.keys_nodup
    (fun _ => mem_keys_get) (fun _ => rfl) fun _ => rfl).mono ?_))
  rintro r d' ⟨l, rfl, hl, rfl⟩
  refine ⟨t, ⟨rfl, _, rfl, ?_, sorted_by ProjectRecord.registeredAt l⟩, h, .refl⟩
  rw [Table.values_eq]
  exact (List.perm_insertionSort _ l).trans hl

theorem sound_listInbox (id : String) : Sound root proc t (.listInbox id) d := by
  apply yields_map
  rw [listInbox]
  by_cases hid : safeId id = true
  · have hsafe : Key.Safe (.read id "a") := ⟨hid, by decide⟩
    have hunread : Folder ["inbox", id] := ⟨_, hsafe, List.cons_ne_nil _ _, ["read"], rfl⟩
    have hread : Folder ["inbox", id, "read"] := ⟨_, hsafe, List.cons_ne_nil _ _, List.prefix_rfl⟩
    rw [paths.inboxDir, paths.inboxReadDir, assertSafeId_ok hid]
    refine yields_bind ((yields_readBox (shelf_unread id) h hunread fun _ => rfl).mono ?_)
    rintro r d' ⟨u, rfl, hu, rfl⟩
    refine yields_bind ((yields_readBox (shelf_read id) h hread fun _ => rfl).mono ?_)
    rintro r d' ⟨v, rfl, hv, rfl⟩
    exact ⟨t, ⟨rfl, u, v, rfl, hu, hv⟩, h, .refl⟩
  · rw [paths.inboxDir, paths.inboxReadDir, assertSafeId_error hid]
    refine ⟨t, ⟨rfl, [], [], rfl, ?_, ?_⟩, h, .refl⟩
    · rw [select_of_not_safe h (fun _ => rfl) fun x (hk : Key.Safe (.unread id x)) => hid hk.1]
    · rw [select_of_not_safe h (fun _ => rfl) fun x (hk : Key.Safe (.read id x)) => hid hk.1]

theorem sound (op : Op) : Sound root proc t op d := by
  cases op with
  | putMessage toId msg => exact sound_putMessage h toId msg
  | listInbox id => exact sound_listInbox h id
  | ackMessage id msgId => exact sound_ackMessage h id msgId
  | removeMessage id msgId => exact sound_removeMessage h id msgId
  | removeMailbox id => exact sound_removeMailbox h id
  | putAgent rec => exact sound_putAgent h rec
  | getAgent id => exact sound_getAgent h id
  | listAgents => exact sound_listAgents h
  | removeAgent id => exact sound_removeAgent h id
  | removeAgentData id => exact sound_removeAgentData h id
  | putProject rec => exact sound_putProject h rec
  | getProject id => exact sound_getProject h id
  | listProjects => exact sound_listProjects h
  | putServiceLease lease => exact sound_putServiceLease h lease
  | getServiceLease owner service => exact sound_getServiceLease h owner service
  | writeBrief agentId text => exact sound_writeBrief h agentId text
  | readBrief agentId => exact sound_readBrief h agentId

end

end

end Tree

end Cyberlegion
