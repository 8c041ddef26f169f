import Cyberlegion.Consuming
import Cyberlegion.Mail
import Cyberlegion.Lib.Rely
import Mathlib.Data.List.Infix

/-!
# Consumers of one mailbox

A message only moves on: from the unread set to the read set, and out of the mailbox.
Each consuming verb is ready under that relation as long as the message files it
listed or checked stay where it found them; the takers of a message are then told
apart by the one move that takes it.
-/

namespace Cyberlegion.Consume

open Effects FileStore Mail

/-! ## Where a message is -/

def slot (box : String) (fs : Fs) (x : String) : Option Content × Option Content :=
  (fs.files.lookup (unreadPath box x), fs.files.lookup (readPath box x))

inductive Filed (box x : String) : Option Content × Option Content → Prop
  | gone : Filed box x (none, none)
  | unread (m : Message) (hid : m.id = x) (hb : safeId box) (hx : safeId x) : Filed box x (some (.message m), none)
  | read (m : Message) (hid : m.id = x) (hb : safeId box) (hx : safeId x) : Filed box x (none, some (.message m))

inductive Evolves : Option Content × Option Content → Option Content × Option Content → Prop
  | same (p : Option Content × Option Content) : Evolves p p
  | taken (c : Content) : Evolves (some c, none) (none, some c)
  | dropped (p : Option Content × Option Content) : Evolves p (none, none)

/-- A mailbox as its deliveries and its consumers leave it. -/
structure Mailbox (box : String) (fs : Fs) : Prop where
  filed : ∀ x, Filed box x (slot box fs x)
  inboxDir : ∀ x, (slot box fs x).1 ≠ none → [.name "inbox", .name box] ∈ fs.dirs
  readDir : ∀ x, (slot box fs x).2 ≠ none → [.name "inbox", .name box, .name "read"] ∈ fs.dirs
  noFile : fs.files.lookup [.name "inbox", .name box] = none ∧
    fs.files.lookup [.name "inbox", .name box, .name "read"] = none

/-- What the consumers of a mailbox do to it. -/
structure Onward (box : String) (t u : Fs) : Prop where
  dirs : ∀ d ∈ t.dirs, d ∈ u.dirs
  slots : ∀ x, Evolves (slot box t x) (slot box u x)
  mailbox : Mailbox box t → Mailbox box u

section
variable {box x : String} {p q r : Option Content × Option Content} {s t u : Fs} {m : Message}

theorem Evolves.trans (h : Evolves p q) (h' : Evolves q r) : Evolves p r := by
  cases h' with
  | same => exact h
  | dropped => exact .dropped p
  | taken c =>
    cases h with
    | same => exact .taken c

theorem Onward.refl : Onward box t t := ⟨fun _ h => h, fun _ => .same _, id⟩

theorem Onward.trans (h : Onward box s t) (h' : Onward box t u) : Onward box s u where
  dirs d hd := h'.dirs d (h.dirs d hd)
  slots x := (h.slots x).trans (h'.slots x)
  mailbox hm := h'.mailbox (h.mailbox hm)

def Held (box : String) (fs : Fs) (m : Message) : Prop :=
  slot box fs m.id = (some (.message m), none) ∨ slot box fs m.id = (none, some (.message m))

def Gone (box : String) (fs : Fs) (x : String) : Prop := slot box fs x = (none, none)

theorem Onward.gone (h : Onward box t u) (hg : Gone box t x) : Gone box u x := by
  have hev := h.slots x
  rw [hg] at hev
  generalize hu : slot box u x = p at hev
  cases hev with
  | same | dropped => exact hu

theorem Onward.not_unread (h : Onward box t u) (hx : (slot box t x).1 = none) : (slot box u x).1 = none := by
  have hev := h.slots x
  revert hx
  generalize slot box t x = p at hev
  generalize slot box u x = q at hev
  cases hev with
  | same => exact id
  | taken | dropped => exact fun _ => rfl

theorem Onward.read (h : Onward box t u) (hx : slot box t m.id = (none, some (.message m))) :
    slot box u m.id = (none, some (.message m)) ∨ Gone box u m.id := by
  have hev := h.slots m.id
  rw [hx] at hev
  generalize hu : slot box u m.id = q at hev
  cases hev with
  | same => exact .inl rfl
  | dropped => exact .inr hu

theorem Onward.held (h : Onward box t u) (hx : Held box t m) : Held box u m ∨ Gone box u m.id := by
  have hev := h.slots m.id
  rcases hx with hx | hx
  · rw [hx] at hev
    generalize hu : slot box u m.id = q at hev
    cases hev with
    | same => exact .inl (.inl hu)
    | taken => exact .inl (.inr hu)
    | dropped => exact .inr hu
  · exact (h.read hx).imp_left .inr

theorem Mailbox.unread (h : Mailbox box t) {c : Content} (hc : (slot box t x).1 = some c) :
    ∃ m, m.id = x ∧ c = .message m ∧ slot box t x = (some (.message m), none) ∧ safeId box ∧ safeId x := by
  have hf := h.filed x
  revert hc
  generalize slot box t x = p at hf
  cases hf with
  | gone | read => intro hc; cases hc
  | unread m hid hb hx => intro hc; cases hc; exact ⟨m, hid, rfl, rfl, hb, hx⟩

theorem Mailbox.read (h : Mailbox box t) {c : Content} (hc : (slot box t x).2 = some c) :
    ∃ m, m.id = x ∧ c = .message m ∧ slot box t x = (none, some (.message m)) ∧ safeId box ∧ safeId x := by
  have hf := h.filed x
  revert hc
  generalize slot box t x = p at hf
  cases hf with
  | gone | unread => intro hc; cases hc
  | read m hid hb hx => intro hc; cases hc; exact ⟨m, hid, rfl, rfl, hb, hx⟩

theorem Mailbox.update (h : Mailbox box t) (hdirs : ∀ d ∈ t.dirs, d ∈ u.dirs)
    (hslot : slot box u = Function.update (slot box t) x q) (hq : Filed box x q)
    (hunread : q.1 ≠ none → [.name "inbox", .name box] ∈ u.dirs)
    (hread : q.2 ≠ none → [.name "inbox", .name box, .name "read"] ∈ u.dirs)
    (hfiles : ∀ p : Path, (∀ y, p ≠ unreadPath box y) → (∀ y, p ≠ readPath box y) →
      u.files.lookup p = t.files.lookup p) : Mailbox box u where
  filed y := by
    rw [hslot]
    by_cases hy : y = x
    · subst hy; rw [Function.update_self]; exact hq
    · rw [Function.update_of_ne hy]; exact h.filed y
  inboxDir y hne := by
    rw [hslot] at hne
    by_cases hy : y = x
    · subst hy; rw [Function.update_self] at hne; exact hunread hne
    · rw [Function.update_of_ne hy] at hne; exact hdirs _ (h.inboxDir y hne)
  readDir y hne := by
    rw [hslot] at hne
    by_cases hy : y = x
    · subst hy; rw [Function.update_self] at hne; exact hread hne
    · rw [Function.update_of_ne hy] at hne; exact hdirs _ (h.readDir y hne)
  noFile := by
    have hne : ∀ (p : Path), p.length < 3 ∨ p = [.name "inbox", .name box, .name "read"] →
        u.files.lookup p = t.files.lookup p := by
      intro p hp
      refine hfiles p (fun y heq => ?_) fun y heq => ?_
      · rcases hp with hp | hp
        · rw [heq] at hp; exact absurd hp (by simp [unreadPath])
        · rw [heq] at hp
          simp only [unreadPath, List.cons.injEq, Seg.name.injEq, true_and, and_true] at hp
          exact json_ne_read y hp
      · rcases hp with hp | hp
        · rw [heq] at hp; exact absurd hp (by simp [readPath])
        · exact absurd (congrArg List.length (heq.symm.trans hp)) (by simp [readPath])
    refine ⟨(hne _ (.inl ?_)).trans h.noFile.1, (hne _ (.inr rfl)).trans h.noFile.2⟩
    exact show 2 < 3 by decide

/-! ## What the calls do -/

def Takes (box : String) (m : Message) (t u : Fs) : Prop :=
  slot box t m.id = (some (.message m), none) ∧ slot box u = Function.update (slot box t) m.id (none, some (.message m))

def Removes (box x : String) (t u : Fs) : Prop :=
  slot box t x ≠ (none, none) ∧ slot box u = Function.update (slot box t) x (none, none)

theorem onward_quiet (hfiles : u.files = t.files) (hdirs : ∀ d ∈ t.dirs, d ∈ u.dirs) :
    Onward box t u ∧ slot box u = slot box t := by
  have hslot : slot box u = slot box t := by
    funext y
    rw [slot, slot, hfiles]
  refine ⟨⟨hdirs, fun y => by rw [hslot]; exact .same _, fun h => ⟨?_, ?_, ?_, ?_⟩⟩, hslot⟩
  · rw [hslot]; exact h.filed
  · rw [hslot]; exact fun y hy => hdirs _ (h.inboxDir y hy)
  · rw [hslot]; exact fun y hy => hdirs _ (h.readDir y hy)
  · rw [hfiles]; exact h.noFile

theorem onward_take (h : slot box t m.id = (some (.message m), none))
    (hdir : [.name "inbox", .name box, .name "read"] ∈ t.dirs)
    (hu : u = { t with files := (t.files.erase (unreadPath box m.id)).insert (readPath box m.id) (.message m) }) :
    Onward box t u ∧ Takes box m t u := by
  have hslot : slot box u = Function.update (slot box t) m.id (none, some (.message m)) := by
    funext y
    rw [hu]
    by_cases hy : y = m.id
    · subst hy
      simp [slot, Function.update_self]
    · rw [Function.update_of_ne hy]
      simp [slot, hy]
  have hdirs : ∀ d ∈ t.dirs, d ∈ u.dirs := by rw [hu]; exact fun _ h => h
  refine ⟨⟨hdirs, fun y => ?_, fun hmail => ?_⟩, h, hslot⟩
  · rw [hslot]
    by_cases hy : y = m.id
    · subst hy; rw [Function.update_self, h]; exact .taken _
    · rw [Function.update_of_ne hy]; exact .same _
  · obtain ⟨m', -, -, -, hb, hx⟩ := hmail.unread (x := m.id) (c := .message m) (by rw [h])
    refine hmail.update hdirs hslot (.read m rfl hb hx) (fun hne => absurd rfl hne)
      (fun _ => hdirs _ hdir) fun p hp hp' => ?_
    rw [hu]
    show ((t.files.erase _).insert _ _).lookup p = _
    rw [Table.lookup_insert_eq, if_neg (hp' m.id), Table.lookup_erase_eq, if_neg (hp m.id)]

theorem onward_remove {file : Path} (h : slot box t x ≠ (none, none)) (hmail : Mailbox box t)
    (hfile : file = unreadPath box x ∧ (slot box t x).1 ≠ none ∨ file = readPath box x ∧ (slot box t x).2 ≠ none)
    (hu : u = { t with files := t.files.erase file }) : Onward box t u ∧ Removes box x t u := by
  have hslot : slot box u = Function.update (slot box t) x (none, none) := by
    funext y
    rw [hu]
    by_cases hy : y = x
    · subst hy
      rw [Function.update_self]
      rcases hfile with ⟨rfl, hne⟩ | ⟨rfl, hne⟩
      · obtain ⟨c, hc⟩ := Option.ne_none_iff_exists'.mp hne
        obtain ⟨m, -, -, hm, -⟩ := hmail.unread hc
        have hread : t.files.lookup (readPath box y) = none := (Prod.mk.inj hm).2
        simp [slot, hread]
      · obtain ⟨c, hc⟩ := Option.ne_none_iff_exists'.mp hne
        obtain ⟨m, -, -, hm, -⟩ := hmail.read hc
        have hunread : t.files.lookup (unreadPath box y) = none := (Prod.mk.inj hm).1
        simp [slot, hunread]
    · rw [Function.update_of_ne hy]
      rcases hfile with ⟨rfl, -⟩ | ⟨rfl, -⟩ <;> simp [slot, hy]
  have hdirs : ∀ d ∈ t.dirs, d ∈ u.dirs := by rw [hu]; exact fun _ h => h
  refine ⟨⟨hdirs, fun y => ?_, fun hmail => ?_⟩, h, hslot⟩
  · rw [hslot]
    by_cases hy : y = x
    · subst hy; rw [Function.update_self]; exact .dropped _
    · rw [Function.update_of_ne hy]; exact .same _
  · refine hmail.update hdirs hslot .gone (fun hne => absurd rfl hne) (fun hne => absurd rfl hne) fun p hp hp' => ?_
    rw [hu]
    show (t.files.erase file).lookup p = _
    rw [Table.lookup_erase_eq, if_neg]
    rcases hfile with ⟨rfl, -⟩ | ⟨rfl, -⟩
    · exact hp x
    · exact hp' x

/-! ## The verbs as tasks -/

def isMessageFile (p : Path) : Bool := p.getLast?.any endsWithJson

/-- The message file that the call is about is where the verb found it: of a `readAck`
or an await the one it listed; of a `removeMessage` the unread one it checked, unless
the message is gone. -/
def Present (box : String) : Job → FsCall → Fs → Prop
  | .readAck _, .existsSync p, fs | .await _ _ _, .existsSync p, fs => isMessageFile p → (fs.files.lookup p).isSome
  | .readAck _, .readFileSync p, fs | .await _ _ _, .readFileSync p, fs
  | .readAck _, .renameSync p _, fs | .await _ _ _, .renameSync p _, fs => (fs.files.lookup p).isSome
  | .remove x, .rmSync p, fs =>
    p = unreadPath box x → (fs.files.lookup p).isSome ∨ fs.files.lookup (readPath box x) = none
  | _, _, _ => True

def Job.commits (box : String) : Job → Result → Fs → Fs → Prop
  | .readAck x, r, t, u => ∃ m, m.id = x ∧ r = .read m true ∧ Takes box m t u
  | .await _ _ _, r, t, u => ∃ item, r = .awaited (some (.matched item)) ∧ Takes box item.message t u
  | .ack x, r, t, u => ∃ m, m.id = x ∧ r = .acked m ∧ Takes box m t u
  | .remove x, r, t, u => r = .removed ∧ Removes box x t u

def Job.idles (box : String) : Job → Result → Fs → Prop
  | .readAck x, r, u => ∃ m, m.id = x ∧ r = .read m false ∧ (slot box u x = (none, some (.message m)) ∨ Gone box u x)
  | .await _ _ _, r, _ => ∃ o, r = .awaited o ∧ ∀ item, o ≠ some (.matched item)
  | _, _, _ => False

def Job.fails (box : String) : Job → Fs → Prop
  | .readAck x, u | .remove x, u => Gone box u x
  | .await _ _ _, _ => False
  | .ack _, _ => True

def task (box : String) (J : Job) : Task Fs Result StoreError where
  rely t u := Onward box t u
  guar t u := Onward box t u
  quiet t u := slot box u = slot box t
  commit := J.commits box
  idle := J.idles box
  fails _ := J.fails box

/-! A quiet call of a verb. -/

variable {J : Job} {α : Type} {K : Task Fs α StoreError}

/-- A task that shares the mailbox with the others. -/
structure Shares (box : String) (K : Task Fs α StoreError) : Prop where
  rely : K.rely = Onward box
  guar : K.guar = Onward box
  quiet : ∀ t u, K.quiet t u ↔ slot box u = slot box t

theorem shares_task : Shares box (task box J) := ⟨rfl, rfl, fun _ _ => Iff.rfl⟩

theorem Shares.part {β : Type} {Q : β → Fs → Prop} (hK : Shares box K) : Shares box (K.part Q) :=
  ⟨hK.rely, hK.guar, hK.quiet⟩

variable {A : FsCall → Fs → Prop}

theorem ready_pure_call (hK : Shares box K) {op : FsCall} {k : op.Res → FsM α}
    (hfs : ∀ t r u, fsCall op () t = some (r, u) → u.files = t.files ∧ ∀ d ∈ t.dirs, d ∈ u.dirs)
    (hk : ∀ t, Onward box s t → A op t → ∀ r u, fsCall op () t = some (r, u) → Onward box t u →
      Ready fsCall A K (k r) u) :
    Ready fsCall A K (.call op k) s := by
  refine ready_call fun t hst hA c r u hr => ?_
  obtain ⟨hfiles, hdirs⟩ := hfs t r u hr
  obtain ⟨hon, hslot⟩ : Onward box t u ∧ slot box u = slot box t := onward_quiet hfiles hdirs
  rw [hK.rely] at hst
  rw [hK.guar]
  exact ⟨hon, (hK.quiet t u).mpr hslot, hk t hst hA r u hr hon⟩

theorem ready_existsSync (hK : Shares box K) {p : Path} {k : Bool → FsM α}
    (hk : ∀ t, Onward box s t → A (.existsSync p) t →
      Ready fsCall A K (k ((t.files.lookup p).isSome || decide (p ∈ t.dirs))) t) :
    Ready fsCall A K (existsSync p >>= k) s := by
  refine ready_pure_call hK (fun t r u hr => by cases hr; exact ⟨rfl, fun _ h => h⟩) fun t hst hA r u hr _ => ?_
  cases hr
  exact hk t hst hA

theorem ready_readdirSync (hK : Shares box K) {p : Path} {k : Option (List Seg) → FsM α}
    (hk : ∀ t, Onward box s t → Ready fsCall A K (k (if p ∈ t.dirs then some (entries t p) else none)) t) :
    Ready fsCall A K (readdirSync p >>= k) s := by
  refine ready_pure_call hK (fun t r u hr => by cases hr; exact ⟨rfl, fun _ h => h⟩) fun t hst _ r u hr _ => ?_
  cases hr
  exact hk t hst

theorem ready_readFileSync (hK : Shares box K) {p : Path} {k : Option Content → FsM α}
    (hk : ∀ t, Onward box s t → A (.readFileSync p) t → Ready fsCall A K (k (t.files.lookup p)) t) :
    Ready fsCall A K (readFileSync p >>= k) s := by
  refine ready_pure_call hK (fun t r u hr => by cases hr; exact ⟨rfl, fun _ h => h⟩) fun t hst hA r u hr _ => ?_
  cases hr
  exact hk t hst hA

theorem ready_mkdirSync (hK : Shares box K) {p : Path} {k : Unit → FsM α}
    (hk : ∀ t u, Onward box s t → Onward box t u → u.files = t.files → p ∈ u.dirs → Ready fsCall A K (k ()) u) :
    Ready fsCall A K (mkdirSync p >>= k) s := by
  refine ready_pure_call hK (fun t r u hr => ?_) fun t hst _ r u hr hon => ?_
  · cases hr; exact ⟨rfl, fun d hd => List.mem_append_right _ hd⟩
  · cases hr
    exact hk t _ hst hon rfl (List.mem_append_left _ ((List.mem_inits p p).mpr List.prefix_rfl))

/-! A listing. -/

/-- One of the two folders of a mailbox: its message files, and the part of a slot that
they are. -/
structure Shelf (box : String) (dir : Path) (file : String → Path)
    (pick : Option Content × Option Content → Option Content) : Prop where
  file_eq : ∀ x, file x = dir ++ [.name (x ++ ".json")]
  lookup : ∀ fs x, pick (slot box fs x) = fs.files.lookup (file x)
  noFile : ∀ fs, Mailbox box fs → fs.files.lookup dir = none
  there : ∀ fs x, Mailbox box fs → pick (slot box fs x) ≠ none → dir ∈ fs.dirs
  message : ∀ fs x c, Mailbox box fs → pick (slot box fs x) = some c → ∃ m, m.id = x ∧ c = .message m

theorem shelf_unread : Shelf box [.name "inbox", .name box] (unreadPath box) Prod.fst where
  file_eq _ := rfl
  lookup _ _ := rfl
  noFile _ h := h.noFile.1
  there _ x h := h.inboxDir x
  message fs x c h hc := by
    obtain ⟨m, hid, hm, -⟩ := h.unread hc
    exact ⟨m, hid, hm⟩

theorem shelf_read : Shelf box [.name "inbox", .name box, .name "read"] (readPath box) Prod.snd where
  file_eq _ := rfl
  lookup _ _ := rfl
  noFile _ h := h.noFile.2
  there _ x h := h.readDir x
  message fs x c h hc := by
    obtain ⟨m, hid, hm, -⟩ := h.read hc
    exact ⟨m, hid, hm⟩

theorem json_name {f : Seg} (h : endsWithJson f = true) : ∃ x, f = .name (x ++ ".json") := by
  cases f with
  | tmp => cases h
  | name s =>
    obtain ⟨x, rfl⟩ := endsWith_json.mp h
    exact ⟨x, rfl⟩

section
variable {dir : Path} {file : String → Path} {pick : Option Content × Option Content → Option Content}

/-- Of a listing: each message was there when it was read. -/
def Seen (box : String) (pick : Option Content × Option Content → Option Content) (s u : Fs) (m : Message) : Prop :=
  ∃ v, Onward box s v ∧ Onward box v u ∧ pick (slot box v m.id) = some (.message m)

theorem Seen.onward {m : Message} (h : Seen box pick s t m) (hu : Onward box t u) : Seen box pick s u m := by
  obtain ⟨v, hsv, hvt, hm⟩ := h
  exact ⟨v, hsv, hvt.trans hu, hm⟩

theorem Seen.before {m : Message} (h : Seen box pick t u m) (hs : Onward box s t) : Seen box pick s u m := by
  obtain ⟨v, htv, hvu, hm⟩ := h
  exact ⟨v, hs.trans htv, hvu, hm⟩

theorem ready_readJsonRecord (hK : Shares box K) (hS : Shelf box dir file pick) (hmail : Mailbox box s)
    (hA : ∀ p t, A (.readFileSync p) t → (t.files.lookup p).isSome) {x : String} :
    Ready fsCall A (K.part fun m u => m.id = x ∧ Onward box s u ∧ Seen box pick s u m) (readJsonRecord (file x)) s := by
  refine ready_readFileSync hK.part fun t hst hread => ?_
  obtain ⟨c, hc⟩ := Option.isSome_iff_exists.mp (hA _ t hread)
  obtain ⟨m, hid, rfl⟩ := hS.message t x c (hst.mailbox hmail) ((hS.lookup t x).trans hc)
  rw [hc]
  exact ⟨hid, hst, t, hst, .refl, by rw [hid, hS.lookup, hc]⟩

theorem ready_readFiles (hK : Shares box K) (hS : Shelf box dir file pick) (hmail : Mailbox box s)
    (hA : ∀ p t, A (.readFileSync p) t → (t.files.lookup p).isSome) {names : List Seg}
    (hnames : ∀ f ∈ names, endsWithJson f = true) :
    Ready fsCall A (K.part fun l u => Onward box s u ∧
      (∀ x, Seg.name (x ++ ".json") ∈ names → ∃ m ∈ l, m.id = x) ∧
      ∀ m ∈ l, Seen box pick s u m) (names.mapM fun f => readJsonRecord (dir ++ [f])) s := by
  induction names generalizing s with
  | nil => exact ⟨.refl, fun x hx => absurd hx List.not_mem_nil, fun m hm => absurd hm List.not_mem_nil⟩
  | cons f names ih =>
    obtain ⟨x, rfl⟩ := json_name (hnames f List.mem_cons_self)
    rw [List.mapM_cons, ← hS.file_eq]
    refine Ready.bind (ready_readJsonRecord hK.part hS hmail hA (x := x)) fun m t hm => ?_
    obtain ⟨hid, hst, hseen⟩ := hm
    have htail := ih (hst.mailbox hmail) fun f hf => hnames f (List.mem_cons_of_mem _ hf)
    refine Ready.bind htail fun l u hl => ?_
    obtain ⟨htu, hall, hseen'⟩ := hl
    refine ⟨hst.trans htu, fun y hy => ?_, fun m' hm' => ?_⟩
    · rcases List.mem_cons.mp hy with heq | hy
      · exact ⟨m, List.mem_cons_self, hid.trans (json_inj (Seg.name.inj heq)).symm⟩
      · obtain ⟨m', hm', hid'⟩ := hall y hy
        exact ⟨m', List.mem_cons_of_mem _ hm', hid'⟩
    · rcases List.mem_cons.mp hm' with rfl | hm'
      · exact hseen.onward htu
      · exact (hseen' m' hm').before hst

theorem ready_readMessages (hK : Shares box K) (hS : Shelf box dir file pick) (hmail : Mailbox box s)
    (hA : ∀ p t, A (.readFileSync p) t → (t.files.lookup p).isSome) :
    Ready fsCall A (K.part fun l u => (∃ t, Onward box s t ∧ Onward box t u ∧
      ∀ x, (∀ m ∈ l, m.id ≠ x) → pick (slot box t x) = none) ∧ ∀ m ∈ l, Seen box pick s u m)
        (readMessages dir) s := by
  refine ready_existsSync hK.part fun t hst _ => ?_
  have hmt := hst.mailbox hmail
  rw [hS.noFile t hmt]
  by_cases hdir : dir ∈ t.dirs
  · rw [decide_eq_true hdir]
    refine ready_readdirSync hK.part fun t' ht' => ?_
    have hst' := hst.trans ht'
    rw [if_pos (ht'.dirs _ hdir)]
    refine Ready.mono (ready_readFiles hK hS (hst'.mailbox hmail) hA fun f hf => (List.mem_filter.mp hf).2) ?_
    rintro l u ⟨htu, hall, hseen⟩
    refine ⟨⟨t', hst', htu, fun x hx => ?_⟩, fun m hm => (hseen m hm).before hst'⟩
    by_contra hne
    have hkey : file x ∈ t'.files.keys := by
      rw [hS.lookup] at hne
      exact AList.mem_keys.mp (by_contra fun hmem => hne (AList.lookup_eq_none.mpr hmem))
    have hname : Seg.name (x ++ ".json") ∈ (entries t' dir).filter endsWithJson := by
      refine List.mem_filter.mpr ⟨List.mem_filterMap.mpr ⟨file x, List.mem_append_left _ hkey, ?_⟩,
        endsWith_json.mpr ⟨x, rfl⟩⟩
      rw [hS.file_eq, dirname, List.dropLast_concat, if_pos rfl, List.getLast?_concat]
    obtain ⟨m, hm, hid⟩ := hall x hname
    exact hx m hm hid
  · rw [decide_eq_false hdir]
    refine ⟨⟨t, hst, .refl, fun x _ => ?_⟩, fun m hm => absurd hm List.not_mem_nil⟩
    by_contra hne
    exact hdir (hS.there t x hmt hne)

end

/-- Both listings of a mailbox, as it is when they end. -/
structure Snapshot (box : String) (s u : Fs) (snap : InboxSnapshot) : Prop where
  onward : Onward box s u
  unread : ∀ m ∈ snap.unread, (Held box u m ∨ Gone box u m.id) ∧ safeId box ∧ safeId m.id
  read : ∀ m ∈ snap.read, slot box u m.id = (none, some (.message m)) ∨ Gone box u m.id
  other : ∀ x, (∀ m ∈ snap.unread, m.id ≠ x) → (∀ m ∈ snap.read, m.id ≠ x) → Gone box u x

theorem ready_listInbox (hK : Shares box K) (hmail : Mailbox box s)
    (hA : ∀ p t, A (.readFileSync p) t → (t.files.lookup p).isSome) :
    Ready fsCall A (K.part fun snap u => Snapshot box s u snap) (listInbox box) s := by
  rw [listInbox]
  by_cases hb : safeId box = true
  · rw [paths.inboxDir, paths.inboxReadDir, assertSafeId, if_pos hb]
    refine Ready.bind (ready_readMessages hK.part shelf_unread hmail hA) ?_
    rintro unread t ⟨⟨t₁, hs₁, h₁t, hother⟩, hseen⟩
    have hst := hs₁.trans h₁t
    refine Ready.bind (ready_readMessages hK.part shelf_read (hst.mailbox hmail) hA) ?_
    rintro read u ⟨⟨t₂, ht₂, h₂u, hother'⟩, hseen'⟩
    refine ⟨hst.trans (ht₂.trans h₂u), fun m hm => ?_, fun m hm => ?_, fun x hx hx' => ?_⟩
    · obtain ⟨v, hsv, hvt, hv⟩ := hseen m hm
      obtain ⟨m', -, hm', hslot, hb', hx⟩ := (hsv.mailbox hmail).unread hv
      cases hm'
      exact ⟨(hvt.trans (ht₂.trans h₂u)).held (.inl hslot), hb', hx⟩
    · obtain ⟨v, hsv, hvu, hv⟩ := hseen' m hm
      obtain ⟨m', -, hm', hslot, -⟩ := ((hst.trans hsv).mailbox hmail).read hv
      cases hm'
      exact hvu.read hslot
    · exact h₂u.gone (Prod.ext (ht₂.not_unread (h₁t.not_unread (hother x hx))) (hother' x hx'))
  · rw [paths.inboxDir, paths.inboxReadDir, assertSafeId, if_neg hb]
    refine ⟨.refl, fun m hm => absurd hm List.not_mem_nil, fun m hm => absurd hm List.not_mem_nil, fun x _ _ => ?_⟩
    show slot box s x = (none, none)
    have hf := hmail.filed x
    generalize slot box s x = p at hf
    cases hf with
    | gone => rfl
    | unread | read => exact absurd ‹safeId box = true› hb

/-! An acknowledgement. -/

theorem Onward.still (h : Onward box t u) {c : Content} (ht : slot box t x = (some c, none))
    (hu : (slot box u x).1 ≠ none) :
    slot box u x = (some c, none) := by
  have hev := h.slots x
  rw [ht] at hev
  revert hu
  generalize slot box u x = q at hev
  cases hev with
  | same => exact fun _ => rfl
  | taken | dropped => exact fun hu => absurd rfl hu

/-- `ackMessage` takes the message it returns; where it finds the file gone, it fails. -/
theorem ready_ackMessage {g : Message → Result} (hmail : Mailbox box s) (hb : safeId box) (hx : safeId x)
    (hmiss : ∀ t, (A (.existsSync (unreadPath box x)) t ∨ A (.readFileSync (unreadPath box x)) t ∨
      A (.renameSync (unreadPath box x) (readPath box x)) t) → t.files.lookup (unreadPath box x) = none → J.fails box t)
    (hcommit : ∀ m t u, m.id = x → Onward box s t → Takes box m t u → J.commits box (g m) t u) :
    Ready fsCall A (task box J) (g <$> ackMessage box x) s := by
  have hfile : paths.messageFile box x = .ok (unreadPath box x) := messageFile_safe hb hx
  have hdest : paths.messageReadFile box x = .ok (readPath box x) := messageReadFile_safe hb hx
  rw [map_eq_pure_bind, ackMessage, hfile]
  refine ready_existsSync shares_task fun t hst hA => ?_
  by_cases hfound : ((t.files.lookup (unreadPath box x)).isSome || decide (unreadPath box x ∈ t.dirs)) = true
  · rw [hfound]
    refine ready_readFileSync shares_task fun t₁ ht₁ hA₁ => ?_
    have hmail₁ := (hst.trans ht₁).mailbox hmail
    cases hc : t₁.files.lookup (unreadPath box x) with
    | none => exact hmiss t₁ (.inr (.inl hA₁)) hc
    | some c =>
      obtain ⟨m, rfl, rfl, hslot, -⟩ := hmail₁.unread (x := x) hc
      rw [hdest]
      refine ready_mkdirSync shares_task fun t₂ t₃ ht₂ ht₃ _ hdir => ?_
      intro t₄ ht₄ hA₄ c' r u hr
      have hon : Onward box t₁ t₄ := ht₂.trans (ht₃.trans ht₄)
      have hdir₄ : dirname (readPath box m.id) ∈ t₄.dirs := ht₄.dirs _ hdir
      cases hc₄ : t₄.files.lookup (unreadPath box m.id) with
      | none =>
        simp only [fsCall, hc₄, Option.some.injEq, Prod.mk.injEq] at hr
        obtain ⟨rfl, rfl⟩ := hr
        exact ⟨.refl, .inl ⟨rfl, hmiss t₄ (.inr (.inr hA₄)) hc₄⟩⟩
      | some c₄ =>
        have hslot₄ := hon.still hslot
          (show t₄.files.lookup (unreadPath box m.id) ≠ none by rw [hc₄]; exact Option.some_ne_none c₄)
        have hc₄' : t₄.files.lookup (unreadPath box m.id) = some (.message m) := (Prod.mk.inj hslot₄).1
        simp only [fsCall, hc₄', hdir₄, if_true, Option.some.injEq, Prod.mk.injEq] at hr
        obtain ⟨rfl, hu⟩ := hr
        obtain ⟨hon', htakes⟩ := onward_take hslot₄ hdir₄ hu.symm
        exact ⟨hon', .inr ⟨g m, rfl, hcommit m t₄ u rfl (hst.trans (ht₁.trans hon)) htakes⟩⟩
  · rw [Bool.eq_false_iff.mpr hfound]
    refine hmiss t (.inl hA) ?_
    rw [Bool.or_eq_true, not_or] at hfound
    exact Option.not_isSome_iff_eq_none.mp hfound.1

/-! ## Each verb is ready -/

theorem gone_of_not_safe (hmail : Mailbox box s) (h : ¬ (safeId box ∧ safeId x)) : Gone box s x := by
  show slot box s x = (none, none)
  have hf := hmail.filed x
  generalize slot box s x = p at hf
  cases hf with
  | gone => rfl
  | unread m _ hb hx | read m _ hb hx => exact absurd ⟨hb, hx⟩ h

variable {before : String → String → Bool}

theorem ready_ack (hmail : Mailbox box s) :
    Ready fsCall (Present box (.ack x)) (task box (.ack x)) ((Job.ack x).prog before box) s := by
  by_cases hsafe : safeId box ∧ safeId x
  · exact ready_ackMessage hmail hsafe.1 hsafe.2 (fun _ _ _ => trivial) fun m _ _ hid _ ht => ⟨m, hid, rfl, ht⟩
  · rw [Job.prog, ackMessage, (messageFile_of_not_safe hsafe).1]
    exact trivial

theorem not_missing {P : Prop}
    (hA : (isMessageFile (unreadPath box x) = true → (t.files.lookup (unreadPath box x)).isSome) ∨
    (t.files.lookup (unreadPath box x)).isSome ∨ (t.files.lookup (unreadPath box x)).isSome)
    (hnone : t.files.lookup (unreadPath box x) = none) : P := by
  rw [hnone] at hA
  rcases hA with hA | hA | hA
  · cases hA (endsWith_json.mpr ⟨x, rfl⟩)
  · cases hA
  · cases hA

theorem ready_readAck (hmail : Mailbox box s) :
    Ready fsCall (Present box (.readAck x)) (task box (.readAck x)) ((Job.readAck x).prog before box) s := by
  rw [Job.prog, map_eq_pure_bind, readAck, bind_assoc]
  refine Ready.bind (ready_listInbox shares_task hmail fun p t hA => hA) fun snap u hsnap => ?_
  by_cases hany : snap.unread.any (fun m => m.id = x) = true
  · rw [if_pos hany, bind_assoc]
    obtain ⟨m, hm, hid⟩ := List.any_eq_true.mp hany
    obtain rfl : m.id = x := of_decide_eq_true hid
    obtain ⟨-, hb, hx⟩ := hsnap.unread m hm
    exact ready_ackMessage (g := fun m => .read m true) (hsnap.onward.mailbox hmail) hb hx (fun _ => not_missing)
      fun m _ _ hid _ ht => ⟨m, hid, rfl, ht⟩
  · rw [if_neg hany]
    have hunread : ∀ m ∈ snap.unread, m.id ≠ x := by
      intro m hm hid
      exact hany (List.any_eq_true.mpr ⟨m, hm, decide_eq_true hid⟩)
    cases hfind : snap.read.find? fun m => m.id = x with
    | none =>
      refine hsnap.other x hunread fun m hm hid => ?_
      exact List.find?_eq_none.mp hfind m hm (decide_eq_true hid)
    | some m =>
      obtain rfl : m.id = x := by simpa using List.find?_some hfind
      exact ⟨m, rfl, rfl, hsnap.read m (List.mem_of_find?_eq_some hfind)⟩

theorem ready_inbox (hK : Shares box K) (hmail : Mailbox box s)
    (hA : ∀ p t, A (.readFileSync p) t → (t.files.lookup p).isSome) {thread : Option String} {sender : Option String} :
    Ready fsCall A (K.part fun items u => Onward box s u ∧ ∀ item ∈ items,
      (Held box u item.message ∨ Gone box u item.message.id) ∧ safeId box ∧ safeId item.message.id)
      (inbox before { meId := box, unread := true, thread := thread, «from» := sender }) s := by
  refine Ready.bind (ready_listInbox hK.part hmail hA) fun snap u hsnap => ⟨hsnap.onward, fun item hitem => ?_⟩
  rw [List.mem_insertionSort] at hitem
  have hmem := (List.mem_filter.mp (List.mem_filter.mp hitem).1).1
  rw [if_pos rfl, List.append_nil] at hmem
  obtain ⟨m, hm, rfl⟩ := List.mem_map.mp hmem
  exact hsnap.unread m hm

theorem taken_eq {m m' : Message} (hheld : Held box s m' ∨ Gone box s m'.id) (hst : Onward box s t)
    (ht : slot box t m'.id = (some (.message m), none)) : m = m' := by
  have hcases : Held box t m' ∨ Gone box t m'.id := hheld.elim hst.held fun hg => .inr (hst.gone hg)
  rcases hcases with (h | h) | h
  · rw [ht] at h; cases h; rfl
  · rw [ht] at h; cases h
  · rw [Gone, ht] at h; cases h

theorem ready_awaitLoop {input : AwaitInput} {start : Int} {clock clock₀ : List (Int × Int)} (hmail : Mailbox box s) :
    Ready fsCall (Present box (.await input start clock₀)) (task box (.await input start clock₀))
      (.awaited <$> awaitLoop before { input with meId := box } start clock) s := by
  induction clock generalizing s with
  | nil => exact ⟨none, rfl, fun _ h => by cases h⟩
  | cons now clock ih =>
    rw [map_eq_pure_bind, awaitLoop, bind_assoc]
    refine Ready.bind (ready_inbox shares_task hmail fun p t hA => hA) fun items u hitems => ?_
    obtain ⟨hsu, hall⟩ := hitems
    have hmail' := hsu.mailbox hmail
    cases items with
    | nil =>
      dsimp only
      split_ifs
      · exact ⟨some .timedOut, rfl, fun _ h => by cases h⟩
      · exact ⟨some .waiting, rfl, fun _ h => by cases h⟩
      · rw [← map_eq_pure_bind]
        exact ih hmail'
    | cons item items =>
      obtain ⟨hheld, hb, hx⟩ := hall item List.mem_cons_self
      dsimp only
      rw [bind_assoc]
      refine ready_ackMessage (g := fun _ => .awaited (some (.matched item))) hmail' hb hx (fun _ => not_missing)
        fun m t v hid hut ht => ⟨item, rfl, ?_⟩
      obtain rfl := taken_eq hheld hut (hid ▸ ht.1)
      exact ht

theorem ready_rmSync {file : Path} {k : Bool → FsM Result}
    (hfile : ∀ t, file = unreadPath box x ∧ t.files.lookup file = (slot box t x).1 ∨
      file = readPath box x ∧ t.files.lookup file = (slot box t x).2)
    (hmail : Mailbox box s) (hk : k true = .ret .removed)
    (hmiss : ∀ t, Onward box s t → A (.rmSync file) t → t.files.lookup file = none →
      Ready fsCall A (task box (.remove x)) (k false) t) :
    Ready fsCall A (task box (.remove x)) (rmSync file >>= k) s := by
  intro t hst hA c r u hr
  cases hlook : t.files.lookup file with
  | none =>
    simp only [fsCall, hlook, Option.some.injEq, Prod.mk.injEq] at hr
    obtain ⟨rfl, rfl⟩ := hr
    exact ⟨.refl, .inl ⟨rfl, hmiss t hst hA hlook⟩⟩
  | some v =>
    simp only [fsCall, hlook, Option.some.injEq, Prod.mk.injEq] at hr
    obtain ⟨rfl, hu⟩ := hr
    have hpart : file = unreadPath box x ∧ (slot box t x).1 ≠ none ∨ file = readPath box x ∧
        (slot box t x).2 ≠ none := by
      have hne : t.files.lookup file ≠ none := by rw [hlook]; exact Option.some_ne_none v
      rcases hfile t with ⟨heq, hpick⟩ | ⟨heq, hpick⟩
      · exact .inl ⟨heq, hpick ▸ hne⟩
      · exact .inr ⟨heq, hpick ▸ hne⟩
    have hslot : slot box t x ≠ (none, none) := by
      intro hgone
      rw [hgone] at hpart
      rcases hpart with ⟨-, h⟩ | ⟨-, h⟩ <;> exact absurd rfl h
    obtain ⟨hon, hremoves⟩ := onward_remove hslot (hst.mailbox hmail) hpart hu.symm
    exact ⟨hon, .inr ⟨.removed, hk, rfl, hremoves⟩⟩

theorem ready_remove (hmail : Mailbox box s) :
    Ready fsCall (Present box (.remove x)) (task box (.remove x)) ((Job.remove x).prog before box) s := by
  by_cases hsafe : safeId box ∧ safeId x
  · have hfile : paths.messageFile box x = .ok (unreadPath box x) := messageFile_safe hsafe.1 hsafe.2
    have hread : paths.messageReadFile box x = .ok (readPath box x) := messageReadFile_safe hsafe.1 hsafe.2
    rw [Job.prog, map_eq_pure_bind, removeMessage, hfile]
    refine ready_existsSync shares_task fun t hst _ => ?_
    by_cases hfound : ((t.files.lookup (unreadPath box x)).isSome || decide (unreadPath box x ∈ t.dirs)) = true
    · rw [hfound]
      refine ready_rmSync (fun _ => .inl ⟨rfl, rfl⟩) (hst.mailbox hmail) rfl fun u _ hA hnone => ?_
      have hgone : u.files.lookup (readPath box x) = none := by
        rcases hA rfl with hsome | hgone
        · rw [hnone] at hsome; cases hsome
        · exact hgone
      exact Prod.ext hnone hgone
    · rw [Bool.eq_false_iff.mpr hfound]
      rw [Bool.or_eq_true, not_or] at hfound
      have hnone : (slot box t x).1 = none := Option.not_isSome_iff_eq_none.mp hfound.1
      show Ready _ _ _ (removeRead box x >>= _) t
      rw [removeRead, hread]
      refine ready_existsSync shares_task fun u htu _ => ?_
      have hnone' := htu.not_unread hnone
      by_cases hfound' : ((u.files.lookup (readPath box x)).isSome || decide (readPath box x ∈ u.dirs)) = true
      · rw [hfound']
        refine ready_rmSync (fun _ => .inr ⟨rfl, rfl⟩) (htu.mailbox (hst.mailbox hmail)) rfl fun v huv _ hnone'' => ?_
        exact Prod.ext (huv.not_unread hnone') hnone''
      · rw [Bool.eq_false_iff.mpr hfound']
        rw [Bool.or_eq_true, not_or] at hfound'
        exact Prod.ext hnone' (Option.not_isSome_iff_eq_none.mp hfound'.1)
  · rw [Job.prog, removeMessage, (messageFile_of_not_safe hsafe).1]
    show Ready _ _ _ (_ <$> removeRead box x) s
    rw [removeRead, (messageFile_of_not_safe hsafe).2]
    exact gone_of_not_safe hmail hsafe

theorem ready (hmail : Mailbox box s) (J : Job) :
    Ready fsCall (Present box J) (task box J) (J.prog before box) s := by
  cases J with
  | readAck x => exact ready_readAck hmail
  | await input start clock => exact ready_awaitLoop hmail
  | ack x => exact ready_ack hmail
  | remove x => exact ready_remove hmail

end

end Cyberlegion.Consume
