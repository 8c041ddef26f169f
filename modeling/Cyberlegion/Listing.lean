import Cyberlegion.ConsumingSound
import Cyberlegion.MailSound

/-!
# One listing among sends and acks

`listInbox` call by call, while `send`s and `ack`s of the same mailbox run. Beside the
files the state keeps what they were when the listing looked into each of the two folders.
-/

namespace Cyberlegion.Listing

open Effects FileStore Mail Consume

abbrev inboxOf (box : String) : Path := [.name "inbox", .name box]

abbrev readOf (box : String) : Path := [.name "inbox", .name box, .name "read"]

/-- The files when the listing looked into the unread and into the read folder. -/
structure Looks where
  unread : Option Fs := none
  read : Option Fs := none

def Looks.saw (box : String) (p : Path) (fs : Fs) (l : Looks) : Looks :=
  if p = inboxOf box then { l with unread := some fs }
  else if p = readOf box then { l with read := some fs }
  else l

/-- A folder is looked into when its entries are read, or when it is found missing. -/
def Looks.after (box : String) (fs : Fs) (l : Looks) : FsCall → Looks
  | .readdirSync p => l.saw box p fs
  | .existsSync p => if (fs.files.lookup p).isSome || decide (p ∈ fs.dirs) then l else l.saw box p fs
  | _ => l

abbrev Shared := Fs × Looks

def look (box : String) (op : FsCall) (c : Unit) (s : Shared) : Option (op.Res × Shared) :=
  (fsCall op c s.1).map fun q => (q.1, q.2, s.2.after box s.1 op)

/-- A message that the listing saw unread is not moved before it looks into the read folder. -/
def Steady : FsCall → Shared → Bool
  | .renameSync src _, s => s.2.read.isSome ||
    s.2.unread.all fun fs => !isMessageFile src || (fs.files.lookup src).isNone
  | _, _ => true

/-- Arrival, and the move to the read folder. -/
inductive Moves : Option Content × Option Content → Option Content × Option Content → Prop
  | same (p : Option Content × Option Content) : Moves p p
  | arrives (p : Option Content × Option Content) : Moves (none, none) p
  | taken (c : Content) : Moves (some c, none) (none, some c)

/-- A mailbox in which no folder has the name of a message file. -/
structure Kept (box : String) (fs : Fs) : Prop extends Mailbox box fs where
  noDir : ∀ d ∈ fs.dirs, ∀ x, d ≠ unreadPath box x ∧ d ≠ readPath box x

/-- What the sends and acks do while the listing runs. -/
structure Passes (box : String) (s t : Shared) : Prop where
  looks : t.2 = s.2
  dirs : ∀ d ∈ s.1.dirs, d ∈ t.1.dirs
  slots : ∀ x, Moves (slot box s.1 x) (slot box t.1 x)
  kept : Kept box s.1 → Kept box t.1
  steady : ∀ fs, s.2.unread = some fs → s.2.read = none → ∀ x, (slot box fs x).1 ≠ none →
    slot box s.1 x = slot box fs x → slot box t.1 x = slot box fs x

/-- A listing returns every message that was there before it, and none twice. -/
structure Lists (box : String) (fs : Fs) (snap : InboxSnapshot) : Prop where
  once : ((snap.unread ++ snap.read).map (·.id)).Nodup
  all : ∀ m, Held box fs m → m ∈ snap.unread ++ snap.read

section
variable {box x : String} {p q r : Option Content × Option Content} {s t u : Shared} {m : Message}

theorem Moves.trans (h : Moves p q) (h' : Moves q r) : Moves p r := by
  cases h with
  | same => exact h'
  | arrives => exact .arrives r
  | taken c =>
    cases h' with
    | same => exact .taken c

theorem Moves.read {c : Content} (h : Moves (none, some c) p) : p = (none, some c) := by
  cases h with
  | same => rfl

theorem Passes.refl : Passes box s s :=
  ⟨rfl, fun _ h => h, fun _ => .same _, id, fun _ _ _ _ _ h => h⟩

theorem Passes.trans (h : Passes box s t) (h' : Passes box t u) : Passes box s u where
  looks := h'.looks.trans h.looks
  dirs d hd := h'.dirs d (h.dirs d hd)
  slots x := (h.slots x).trans (h'.slots x)
  kept hk := h'.kept (h.kept hk)
  steady fs hun hread x hx hs :=
    h'.steady fs (h.looks ▸ hun) (h.looks ▸ hread) x hx (h.steady fs hun hread x hx hs)

/-! ## The listing -/

/-- The listing, which promises what it returns; `fs` are the files before it. -/
def listing (box : String) (fs : Fs) : Task Shared InboxSnapshot StoreError where
  rely := Passes box
  guar s t := t.1 = s.1
  quiet _ _ := True
  commit _ _ _ := False
  idle snap _ := Lists box fs snap
  fails _ _ := False

/-- The mailbox since the listing began. -/
structure Since (box : String) (fs : Fs) (s : Shared) : Prop where
  kept : Kept box s.1
  slots : ∀ x, Moves (slot box fs x) (slot box s.1 x)

def Unmoved (box : String) (fs : Fs) (s : Shared) : Prop :=
  ∀ x, (slot box fs x).1 ≠ none → slot box s.1 x = slot box fs x

variable {fs seen : Fs} {α : Type} {K : Task Shared α StoreError} {A : FsCall → Shared → Prop}

theorem Since.passes (h : Since box fs s) (hst : Passes box s t) : Since box fs t :=
  ⟨hst.kept h.kept, fun x => (h.slots x).trans (hst.slots x)⟩

theorem Unmoved.passes (h : Unmoved box seen s) (hlooks : s.2 = ⟨some seen, none⟩) (hst : Passes box s t) :
    Unmoved box seen t := fun x hx =>
  hst.steady seen (by rw [hlooks]) (by rw [hlooks]) x hx (h x hx)

/-- A part of the listing. -/
structure Looking (box : String) (K : Task Shared α StoreError) : Prop where
  rely : K.rely = Passes box
  guar : ∀ s t, t.1 = s.1 → K.guar s t
  quiet : ∀ s t, K.quiet s t

theorem Looking.part {β : Type} {Q : β → Shared → Prop} (hK : Looking box K) : Looking box (K.part Q) :=
  ⟨hK.rely, hK.guar, hK.quiet⟩

theorem looking_listing : Looking box (listing box fs) := ⟨rfl, fun _ _ h => h, fun _ _ => trivial⟩

theorem ready_look (hK : Looking box K) {op : FsCall} {k : op.Res → FsM α}
    (hfs : ∀ t r u, fsCall op () t = some (r, u) → u = t)
    (hk : ∀ t, Passes box s t → ∀ r, fsCall op () t.1 = some (r, t.1) →
      Ready (look box) A K (k r) (t.1, t.2.after box t.1 op)) :
    Ready (look box) A K (.call op k) s := by
  refine ready_call fun t hst _ c r u hr => ?_
  rw [hK.rely] at hst
  obtain ⟨⟨r', fs'⟩, hop, heq⟩ := Option.map_eq_some_iff.mp hr
  cases heq
  obtain rfl := hfs t.1 _ _ hop
  exact ⟨hK.guar _ _ rfl, hK.quiet _ _, hk t hst _ hop⟩

theorem look_existsSync (hK : Looking box K) {p : Path} {k : Bool → FsM α}
    (hk : ∀ t, Passes box s t → Ready (look box) A K (k ((t.1.files.lookup p).isSome || decide (p ∈ t.1.dirs)))
      (t.1, t.2.after box t.1 (.existsSync p))) :
    Ready (look box) A K (existsSync p >>= k) s := by
  refine ready_look hK (fun t r u hr => by cases hr; rfl) fun t hst r hr => ?_
  cases hr
  exact hk t hst

theorem look_readdirSync (hK : Looking box K) {p : Path} {k : Option (List Seg) → FsM α}
    (hk : ∀ t, Passes box s t → Ready (look box) A K (k (if p ∈ t.1.dirs then some (entries t.1 p) else none))
      (t.1, t.2.saw box p t.1)) :
    Ready (look box) A K (readdirSync p >>= k) s := by
  refine ready_look hK (fun t r u hr => by cases hr; rfl) fun t hst r hr => ?_
  cases hr
  exact hk t hst

theorem look_readFileSync (hK : Looking box K) {p : Path} {k : Option Content → FsM α}
    (hk : ∀ t, Passes box s t → Ready (look box) A K (k (t.1.files.lookup p)) t) :
    Ready (look box) A K (readFileSync p >>= k) s := by
  refine ready_look hK (fun t r u hr => by cases hr; rfl) fun t hst r hr => ?_
  cases hr
  exact hk t hst

/-! ### The entries of a folder -/

variable {dir : Path} {file : String → Path} {pick : Option Content × Option Content → Option Content}

theorem entries_nodup (hS : Shelf box dir file pick) (hdirs : ∀ d ∈ fs.dirs, ∀ x, d ≠ file x) :
    ((entries fs dir).filter endsWithJson).Nodup := by
  unfold entries
  rw [List.filterMap_append, List.filter_append]
  have hnone : ((fs.dirs.filterMap fun p =>
      if dirname p = dir then p.getLast? else none).filter endsWithJson) = [] := by
    refine List.filter_eq_nil_iff.mpr fun f hf hjson => ?_
    obtain ⟨d, hd, hlast⟩ := List.mem_filterMap.mp hf
    by_cases hdir : dirname d = dir
    · rw [if_pos hdir] at hlast
      obtain ⟨x, rfl⟩ := json_name hjson
      refine hdirs d hd x ?_
      rw [hS.file_eq, ← hdir]
      exact (List.dropLast_append_getLast? _ hlast).symm
    · rw [if_neg hdir] at hlast; cases hlast
  rw [hnone, List.append_nil]
  refine List.Nodup.filter _ (List.Nodup.filterMap ?_ fs.files.keys_nodup)
  intro p p' f hp hp'
  by_cases hdir : dirname p = dir
  · by_cases hdir' : dirname p' = dir
    · rw [if_pos hdir] at hp
      rw [if_pos hdir'] at hp'
      rw [← List.dropLast_append_getLast? _ hp, ← List.dropLast_append_getLast? _ hp']
      show dirname p ++ _ = dirname p' ++ _
      rw [hdir, hdir']
    · rw [if_neg hdir'] at hp'; cases hp'
  · rw [if_neg hdir] at hp; cases hp

theorem mem_entries (hS : Shelf box dir file pick) (hdirs : ∀ d ∈ fs.dirs, ∀ x, d ≠ file x) :
    Seg.name (x ++ ".json") ∈ (entries fs dir).filter endsWithJson ↔ pick (slot box fs x) ≠ none := by
  have hfile : dirname (file x) = dir ∧ (file x).getLast? = some (.name (x ++ ".json")) := by
    rw [hS.file_eq]
    exact ⟨List.dropLast_concat, List.getLast?_concat⟩
  have hkey : file x ∈ fs.files.keys ↔ pick (slot box fs x) ≠ none := by
    rw [hS.lookup, Ne, AList.lookup_eq_none, not_not]
    exact Iff.rfl
  rw [List.mem_filter, ← hkey]
  constructor
  · rintro ⟨hmem, -⟩
    obtain ⟨p, hp, hlast⟩ := List.mem_filterMap.mp hmem
    by_cases hdir : dirname p = dir
    · rw [if_pos hdir] at hlast
      obtain rfl : p = file x := by
        rw [← List.dropLast_append_getLast? _ hlast, hS.file_eq, ← hdir]
        rfl
      exact (List.mem_append.mp hp).resolve_right fun hd => hdirs _ hd x rfl
    · rw [if_neg hdir] at hlast; cases hlast
  · intro hmem
    refine ⟨List.mem_filterMap.mpr ⟨file x, List.mem_append_left _ hmem, ?_⟩, endsWith_json.mpr ⟨x, rfl⟩⟩
    rw [if_pos hfile.1, hfile.2]

/-! ### One folder -/

/-- What the listing of one folder needs: `J` holds until it looks into the folder, and then
`I` of what the files were, under which the files it saw stay. -/
structure Folder (box : String) (dir : Path) (file : String → Path)
    (pick : Option Content × Option Content → Option Content)
    (J : Shared → Prop) (I : Fs → Shared → Prop) : Prop where
  shelf : Shelf box dir file pick
  noDir : ∀ fs, Kept box fs → ∀ d ∈ fs.dirs, ∀ x, d ≠ file x
  before : ∀ s t, J s → Passes box s t → J t
  kept : ∀ s, J s → Kept box s.1
  sees : ∀ s, J s → I s.1 (s.1, s.2.saw box dir s.1)
  since : ∀ fs s t, I fs s → Passes box s t → I fs t
  stays : ∀ fs x c s, I fs s → pick (slot box fs x) = some c → pick (slot box s.1 x) = some c

structure Read (box : String) (pick : Option Content × Option Content → Option Content) (fs : Fs)
    (l : List Message) : Prop where
  nodup : (l.map (·.id)).Nodup
  all : ∀ x, pick (slot box fs x) ≠ none → ∃ m ∈ l, m.id = x
  held : ∀ m ∈ l, pick (slot box fs m.id) = some (.message m)

variable {J : Shared → Prop} {I : Fs → Shared → Prop}

theorem look_readFiles (hK : Looking box K) (hF : Folder box dir file pick J I) {names : List Seg}
    (hnames : ∀ f ∈ names, ∃ x m, f = .name (x ++ ".json") ∧ m.id = x ∧ pick (slot box seen x) = some (.message m))
    (hs : I seen s) :
    Ready (look box) A (K.part fun l u => I seen u ∧ l.map (fun m => Seg.name (m.id ++ ".json")) = names ∧
      ∀ m ∈ l, pick (slot box seen m.id) = some (.message m)) (names.mapM fun f => readJsonRecord (dir ++ [f])) s := by
  induction names generalizing s with
  | nil => exact ⟨hs, rfl, fun m hm => absurd hm List.not_mem_nil⟩
  | cons f names ih =>
    obtain ⟨x, m, rfl, rfl, hpick⟩ := hnames f List.mem_cons_self
    rw [List.mapM_cons, ← hF.shelf.file_eq]
    refine Ready.bind (Q := fun m' t => m' = m ∧ I seen t) ?_ fun m' t hm => ?_
    · refine look_readFileSync hK.part.part fun t hst => ?_
      have ht := hF.since seen s t hs hst
      have hstays := hF.stays seen m.id _ t ht hpick
      rw [hF.shelf.lookup] at hstays
      rw [hstays]
      exact ⟨rfl, ht⟩
    · obtain ⟨rfl, ht⟩ := hm
      refine Ready.bind (ih (fun f hf => hnames f (List.mem_cons_of_mem _ hf)) ht) fun l u hl => ?_
      obtain ⟨hu, hl, hheld⟩ := hl
      refine ⟨hu, by rw [List.map_cons, hl], fun m'' hm'' => ?_⟩
      rcases List.mem_cons.mp hm'' with rfl | hm''
      · exact hpick
      · exact hheld m'' hm''

theorem look_readMessages (hK : Looking box K) (hF : Folder box dir file pick J I) (hs : J s) :
    Ready (look box) A (K.part fun l u => ∃ fs, I fs u ∧ Read box pick fs l ∧ Kept box fs) (readMessages dir) s := by
  refine look_existsSync hK.part fun t hst => ?_
  have ht := hF.before s t hs hst
  have hkept := hF.kept t ht
  rw [hF.shelf.noFile t.1 hkept.toMailbox]
  by_cases hmem : dir ∈ t.1.dirs
  · have hafter : t.2.after box t.1 (.existsSync dir) = t.2 := by
      exact if_pos (by rw [decide_eq_true hmem, Bool.or_true])
    rw [decide_eq_true hmem, hafter]
    refine look_readdirSync hK.part fun t' ht' => ?_
    have hJ := hF.before t t' ht ht'
    have hkept' := hF.kept t' hJ
    rw [if_pos (ht'.dirs _ hmem)]
    refine Ready.mono (look_readFiles hK hF (fun f hf => ?_) (hF.sees t' hJ)) ?_
    · obtain ⟨x, rfl⟩ := json_name (List.mem_filter.mp hf).2
      have hpick := (mem_entries hF.shelf (hF.noDir t'.1 hkept')).mp hf
      obtain ⟨c, hc⟩ := Option.ne_none_iff_exists'.mp hpick
      obtain ⟨m, hid, rfl⟩ := hF.shelf.message t'.1 x c hkept'.toMailbox hc
      exact ⟨x, m, rfl, hid, hc⟩
    · rintro l u ⟨hu, hnames, hheld⟩
      refine ⟨t'.1, hu, ⟨?_, fun x hx => ?_, hheld⟩, hkept'⟩
      · have hnodup := entries_nodup hF.shelf (hF.noDir t'.1 hkept')
        rw [← hnames] at hnodup
        refine List.Nodup.of_map (fun x => Seg.name (x ++ ".json")) ?_
        rw [List.map_map]
        exact hnodup
      · have hname := (mem_entries hF.shelf (hF.noDir t'.1 hkept')).mpr hx
        rw [← hnames] at hname
        obtain ⟨m, hm, heq⟩ := List.mem_map.mp hname
        exact ⟨m, hm, json_inj (Seg.name.inj heq)⟩
  · have hafter : t.2.after box t.1 (.existsSync dir) = t.2.saw box dir t.1 := by
      exact if_neg (by rw [hF.shelf.noFile t.1 hkept.toMailbox, decide_eq_false hmem]; exact Bool.false_ne_true)
    rw [decide_eq_false hmem, hafter]
    refine ⟨t.1, hF.sees t ht, ⟨List.nodup_nil, fun x hx => ?_, fun m hm => absurd hm List.not_mem_nil⟩, hkept⟩
    exact absurd (hF.shelf.there t.1 x hkept.toMailbox hx) hmem

/-! ### Both folders -/

theorem folder_unread :
    Folder box (inboxOf box) (unreadPath box) Prod.fst (fun s => Since box fs s ∧ s.2 = ⟨none, none⟩)
    (fun seen s => Since box seen s ∧ s.2 = ⟨some seen, none⟩ ∧ Unmoved box seen s ∧ Since box fs (seen, s.2)) where
  shelf := shelf_unread
  noDir fs hk d hd x := (hk.noDir d hd x).1
  before s t h hst := ⟨h.1.passes hst, hst.looks.trans h.2⟩
  kept s h := h.1.kept
  sees s h := by
    have hlooks : s.2.saw box (inboxOf box) s.1 = ⟨some s.1, none⟩ := by
      rw [Looks.saw, if_pos rfl, h.2]
    rw [hlooks]
    exact ⟨⟨h.1.kept, fun _ => .same _⟩, rfl, fun _ _ => rfl, h.1.kept, h.1.slots⟩
  since seen s t h hst := by
    obtain ⟨hsince, hlooks, hunmoved, hseen⟩ := h
    exact ⟨hsince.passes hst, hst.looks.trans hlooks, hunmoved.passes hlooks hst, hseen.kept, hseen.slots⟩
  stays seen x c s h hc := by
    rw [h.2.2.1 x (by rw [hc]; exact Option.some_ne_none c)]
    exact hc

theorem folder_read : Folder box (readOf box) (readPath box) Prod.snd
    (fun s => Since box seen s ∧ s.2 = ⟨some seen, none⟩ ∧ Unmoved box seen s)
    (fun read s => Since box seen (read, s.2) ∧ Unmoved box seen (read, s.2) ∧
      ∀ x c, (slot box read x).2 = some c → (slot box s.1 x).2 = some c ∧ (slot box s.1 x).1 = none) where
  shelf := shelf_read
  noDir fs hk d hd x := (hk.noDir d hd x).2
  before s t h hst := ⟨h.1.passes hst, hst.looks.trans h.2.1, h.2.2.passes h.2.1 hst⟩
  kept s h := h.1.kept
  sees s h := by
    refine ⟨⟨h.1.kept, h.1.slots⟩, h.2.2, fun x c hc => ⟨hc, ?_⟩⟩
    obtain ⟨m, -, -, hslot, -⟩ := h.1.kept.read (x := x) hc
    rw [hslot]
  since read s t h hst := by
    refine ⟨⟨h.1.kept, h.1.slots⟩, h.2.1, fun x c hc => ?_⟩
    obtain ⟨hread, hunread⟩ := h.2.2 x c hc
    have hslot : slot box s.1 x = (none, some c) := Prod.ext hunread hread
    have hmoves := hst.slots x
    rw [hslot] at hmoves
    rw [hmoves.read]
    exact ⟨rfl, rfl⟩
  stays read x c s h hc := (h.2.2 x c hc).1

/-- As long as no message that it saw unread is moved before it looks into the read folder, a
listing returns every message that was there when it began, and none twice. -/
theorem ready_listInbox (hkept : Kept box s.1) (hlooks : s.2 = ⟨none, none⟩) :
    Ready (look box) A (listing box s.1) (listInbox box) s := by
  rw [listInbox]
  by_cases hb : safeId box = true
  · rw [paths.inboxDir, paths.inboxReadDir, assertSafeId, if_pos hb]
    have hsince : Since box s.1 s := ⟨hkept, fun _ => .same _⟩
    refine Ready.bind (look_readMessages looking_listing folder_unread ⟨hsince, hlooks⟩) ?_
    rintro unread t ⟨seen, ⟨hsince', hlooks', hunmoved, hseen⟩, hread, hkept'⟩
    refine Ready.bind (look_readMessages looking_listing folder_read ⟨hsince', hlooks', hunmoved⟩) ?_
    rintro read u ⟨readAt, ⟨hsince'', hunmoved', -⟩, hread', -⟩
    have hapart : ∀ m ∈ unread, (slot box readAt m.id).2 = none := by
      intro m hm
      have hfirst := hread.held m hm
      obtain ⟨m', -, -, hslot, -⟩ := hkept'.unread hfirst
      have hsame := hunmoved' m.id (by rw [hfirst]; exact Option.some_ne_none _)
      rw [show slot box readAt m.id = _ from hsame, hslot]
    refine ⟨?_, fun m hm => ?_⟩
    · rw [List.map_append]
      refine List.Nodup.append hread.nodup hread'.nodup fun x hx hx' => ?_
      obtain ⟨m, hm, rfl⟩ := List.mem_map.mp hx
      obtain ⟨m', hm', hid⟩ := List.mem_map.mp hx'
      have hheld := hread'.held m' hm'
      rw [hid, hapart m hm] at hheld
      cases hheld
    · rw [List.mem_append]
      have hslot : slot box seen m.id = (some (.message m), none) ∨ slot box seen m.id = (none, some (.message m)) := by
        have hmoves := hseen.slots m.id
        rcases hm with hm | hm
        · rw [hm] at hmoves
          generalize slot box seen m.id = p at hmoves
          cases hmoves with
          | same => exact .inl rfl
          | taken => exact .inr rfl
        · rw [hm] at hmoves
          exact .inr hmoves.read
      rcases hslot with hslot | hslot
      · obtain ⟨m', hm', hid⟩ := hread.all m.id (by rw [hslot]; exact Option.some_ne_none _)
        have hheld := hread.held m' hm'
        rw [hid, hslot] at hheld
        cases hheld
        exact .inl hm'
      · have hmoves := hsince''.slots m.id
        rw [hslot] at hmoves
        have hslot' : slot box readAt m.id = (none, some (.message m)) := hmoves.read
        obtain ⟨m', hm', hid⟩ := hread'.all m.id (by rw [hslot']; exact Option.some_ne_none _)
        have hheld := hread'.held m' hm'
        rw [hid, hslot'] at hheld
        cases hheld
        exact .inr hm'
  · rw [paths.inboxDir, paths.inboxReadDir, assertSafeId, if_neg hb]
    refine ⟨List.nodup_nil, fun m hm => ?_⟩
    have hf := hkept.filed m.id
    rcases hm with hm | hm
    · rw [hm] at hf
      cases hf
      exact absurd ‹safeId box = true› hb
    · rw [hm] at hf
      cases hf
      exact absurd ‹safeId box = true› hb

end

end Cyberlegion.Listing
