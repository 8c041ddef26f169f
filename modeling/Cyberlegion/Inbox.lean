import Cyberlegion.ListingRuns
import Cyberlegion.Standing

/-!
# A mailbox at rest

What `inbox` and `awaitReply` return where sends and acks were made one after another, in
terms of the messages sent and of the folder each of them is in.
-/

namespace Cyberlegion.Inbox

open Effects FileStore Mail Consume Listing

/-! ## Sends -/

/-- What a send reads: its input, the sender's record, the clock and the random tail. -/
structure Letter where
  input : SendInput
  sender : Option AgentRecord := none
  ts : Nat
  hex : String

def Letter.message (box : String) (l : Letter) : Message := messageOf l.input box l.sender l.ts l.hex

/-- Messages sent one after another, and any of them acked in between. -/
inductive Posted (box : String) (fs₀ : Fs) : List Message → Fs → Prop
  | start : Posted box fs₀ [] fs₀
  | sent {sent : List Message} {fs fs' : Fs} {msg : Message} {pid n : Nat} {cs : List Unit} {r : Option Message}
      (h : Posted box fs₀ sent fs) (hrun : run fsCall ((Mail.Job.send pid n msg).prog box) cs fs = some (.ok r, fs')) :
      Posted box fs₀ (sent ++ [msg]) fs'
  | acked {sent : List Message} {fs fs' : Fs} {msgId : String} {cs : List Unit} {r : Except StoreError (Option Message)}
      (h : Posted box fs₀ sent fs) (hrun : run fsCall ((Mail.Job.ack msgId).prog box) cs fs = some (r, fs')) :
      Posted box fs₀ sent fs'

theorem Posted.send {box : String} {fs₀ fs fs' : Fs} {sent : List Message} (h : Posted box fs₀ sent fs) (pid n : Nat)
    (msg : Message) (hrun : run fsCall ((Mail.Job.send pid n msg).prog box) [(), (), ()] fs = some (.ok none, fs')) :
    Posted box fs₀ (sent ++ [msg]) fs' := .sent h hrun

/-- The mailbox holds these messages and no others. -/
structure Holds (box : String) (sent : List Message) (fs : Fs) : Prop where
  kept : Listing.Kept box fs
  held : ∀ m, Held box fs m ↔ m ∈ sent

section
variable {box : String} {sent : List Message} {fs fs' : Fs} {msg : Message} {pid n : Nat} {x : String}

theorem slot_deliver (hfresh : slot box fs msg.id = (none, none)) :
    slot box
        { fs with files :=
            (fs.files.erase (tmpPath box msg.id pid n)).insert (unreadPath box msg.id) (.message msg) } =
      Function.update (slot box fs) msg.id (some (.message msg), none) := by
  funext y
  by_cases hy : y = msg.id
  · subst hy
    have hread : fs.files.lookup (readPath box msg.id) = none := (Prod.mk.inj hfresh).2
    simp [slot, hread]
  · rw [Function.update_of_ne hy]
    simp [slot, hy]

theorem send_delivers (hkept : Listing.Kept box fs) (hfresh : slot box fs msg.id = (none, none)) :
    wp fsCall (fun _ _ => True) (fun _ _ => True) ((Mail.Job.send pid n msg).prog box) (fun r fs' => (∃ a, r = .ok a) →
      Listing.Kept box fs' ∧ slot box fs' = Function.update (slot box fs) msg.id (some (.message msg), none)) fs := by
  by_cases hsafe : safeId box ∧ safeId msg.id
  · obtain ⟨hb, hx⟩ := hsafe
    have hsends : (Listing.Job.send pid n msg).sends msg.id := rfl
    rw [send_prog hb hx]
    refine ⟨trivial, fun _ _ fs₁ _ hop => ?_⟩
    cases hop
    have hdir : inboxOf box ∈ (inboxOf box).inits ++ fs.dirs :=
      List.mem_append_left _ ((List.mem_inits _ _).mpr List.prefix_rfl)
    have h₁ := (does_mkdir (J := .send pid n msg) (t := (fs, {})) (p := inboxOf box)
      ⟨[.name "read"], rfl⟩).passes.kept hkept
    refine ⟨trivial, fun _ written fs₂ _ hop => ?_⟩
    have hwrite : dirname (tmpPath box msg.id pid n) ∈ (inboxOf box).inits ++ fs.dirs := hdir
    simp only [fsCall, hwrite, if_true] at hop
    cases hop
    have hwritten : Does box (.send pid n msg) ({ fs with dirs := (inboxOf box).inits ++ fs.dirs }, {})
        ({ fs with files := fs.files.insert (tmpPath box msg.id pid n) (.message msg)
                   dirs := (inboxOf box).inits ++ fs.dirs }, {}) := does_write hsends
    have h₂ := hwritten.passes.kept h₁
    refine ⟨trivial, fun _ renamed fs₃ _ hop => ?_⟩
    have hslot : slot box { fs with files := fs.files.insert (tmpPath box msg.id pid n) (.message msg)
                                    dirs := (inboxOf box).inits ++ fs.dirs } = slot box fs :=
      slot_insert_tmp (t := ({ fs with dirs := (inboxOf box).inits ++ fs.dirs }, {}))
    have hfresh₂ : slot box { fs with files := fs.files.insert (tmpPath box msg.id pid n) (.message msg)
                                      dirs := (inboxOf box).inits ++ fs.dirs } msg.id = (none, none) := by
      rw [hslot, hfresh]
    have htmp : (fs.files.insert (tmpPath box msg.id pid n) (.message msg)).lookup (tmpPath box msg.id pid n) =
        some (.message msg) := AList.lookup_insert _
    have hdest : dirname (unreadPath box msg.id) ∈ (inboxOf box).inits ++ fs.dirs := hdir
    simp only [fsCall, htmp, hdest, if_true] at hop
    cases hop
    have hdelivered : Does box (.send pid n msg)
        ({ fs with
            files := fs.files.insert (tmpPath box msg.id pid n) (.message msg)
            dirs := (inboxOf box).inits ++ fs.dirs }, {}) _ :=
      does_deliver rfl hb hx hdir hfresh₂
    refine fun _ => ⟨hdelivered.passes.kept h₂, ?_⟩
    rw [slot_deliver hfresh₂, hslot]
  · obtain ⟨e, he⟩ : ∃ e, (Mail.Job.send pid n msg).prog box = .throw e := done_of_not_safe hsafe
    rw [he]
    rintro ⟨a, ha⟩
    cases ha

theorem held_take {m m' : Message} (h : slot box fs m.id = (some (.message m), none))
    (hslot : slot box fs' = Function.update (slot box fs) m.id (none, some (.message m))) :
    Held box fs' m' ↔ Held box fs m' := by
  unfold Held
  rw [hslot]
  by_cases hid : m'.id = m.id
  · rw [hid, Function.update_self, h]
    simp
  · rw [Function.update_of_ne hid]

theorem ack_keeps (hkept : Listing.Kept box fs) :
    wp fsCall (fun _ _ => True) (fun _ _ => True) ((Mail.Job.ack x).prog box)
    (fun _ fs' => Listing.Kept box fs' ∧ ∀ m, Held box fs' m ↔ Held box fs m) fs := by
  have hsame : Listing.Kept box fs ∧ ∀ m, Held box fs m ↔ Held box fs m := ⟨hkept, fun _ => Iff.rfl⟩
  by_cases hsafe : safeId box ∧ safeId x
  · rw [ack_prog hsafe.1 hsafe.2]
    refine ⟨trivial, fun _ found fs₁ _ hop => ?_⟩
    cases hop
    dsimp only
    split
    · refine ⟨trivial, fun _ text fs₂ _ hop => ?_⟩
      cases hop
      cases hc : fs.files.lookup (unreadPath box x) with
      | none => exact hsame
      | some c =>
        obtain ⟨m, rfl, rfl, hslot, -⟩ := hkept.unread (x := x) hc
        refine ⟨trivial, fun _ _ fs₃ _ hop => ?_⟩
        cases hop
        refine ⟨trivial, fun _ renamed fs₄ _ hop => ?_⟩
        have hdir : readOf box ∈ (readOf box).inits ++ fs.dirs :=
          List.mem_append_left _ ((List.mem_inits _ _).mpr List.prefix_rfl)
        have hdest : dirname (readPath box m.id) ∈ (readOf box).inits ++ fs.dirs := hdir
        have hmade := (does_mkdir (J := .ack m.id) (t := (fs, {})) (p := readOf box) List.prefix_rfl).passes.kept hkept
        have hslot' : slot box { fs with dirs := (readOf box).inits ++ fs.dirs } m.id =
          (some (.message m), none) := hslot
        simp only [fsCall, hc, hdest, if_true] at hop
        cases hop
        obtain ⟨hon, -, htaken⟩ := onward_take hslot' hdir rfl
        refine ⟨⟨hon.mailbox hmade.toMailbox, hmade.noDir⟩, fun m' => ?_⟩
        exact held_take hslot htaken
    · exact hsame
  · obtain ⟨e, he⟩ : ∃ e, (Mail.Job.ack x).prog box = .throw e := done_of_not_safe hsafe
    rw [he]
    exact hsame

/-- Every run of sends of distinct ids, and of acks, keeps every message it sent. -/
theorem holds_of_posted {fs₀ : Fs} (hkept : Listing.Kept box fs₀)
    (hempty : ∀ y, slot box fs₀ y = (none, none)) (h : Posted box fs₀ sent fs)
    (hids : (sent.map (·.id)).Nodup) : Holds box sent fs := by
  induction h with
  | start =>
    refine ⟨hkept, fun m => iff_of_false ?_ List.not_mem_nil⟩
    unfold Held
    rw [hempty]
    rintro (h | h) <;> cases h
  | @sent sent fs fs' msg pid n cs r h hrun ih =>
    rw [List.map_append, List.nodup_append] at hids
    obtain ⟨hbefore, -, hnew⟩ := hids
    have hholds := ih hbefore
    have hfresh : slot box fs msg.id = (none, none) := by
      have hnone : ∀ m, Held box fs m → m.id ≠ msg.id := by
        intro m hm heq
        exact hnew m.id (List.mem_map_of_mem (f := (·.id)) ((hholds.held m).mp hm)) msg.id
          (List.mem_singleton_self _) heq
      generalize hp : slot box fs msg.id = p
      have hfiled := hholds.kept.filed msg.id
      rw [hp] at hfiled
      cases hfiled with
      | gone => rfl
      | unread m hid => exact absurd hid (hnone m (.inl (by rw [hid, hp])))
      | read m hid => exact absurd hid (hnone m (.inr (by rw [hid, hp])))
    obtain ⟨hkept', hslot⟩ := wp_run (send_delivers hholds.kept hfresh) (fun _ _ => trivial) hrun ⟨r, rfl⟩
    refine ⟨hkept', fun m => ?_⟩
    rw [List.mem_append, List.mem_singleton, ← hholds.held, Held, Held, hslot]
    by_cases hid : m.id = msg.id
    · rw [hid, Function.update_self, hfresh]
      simp only [Prod.mk.injEq, Option.some.injEq, Content.message.injEq, and_true, reduceCtorEq, and_false,
        or_false, false_or]
      exact eq_comm
    · rw [Function.update_of_ne hid]
      have hne : m ≠ msg := fun h => hid (congrArg _ h)
      simp [hne]
  | acked h hrun ih =>
    have hholds := ih hids
    obtain ⟨hkept', hheld⟩ := wp_run (ack_keeps hholds.kept) (fun _ _ => trivial) hrun
    exact ⟨hkept', fun m => (hheld m).trans (hholds.held m)⟩

/-! ## The listing -/

section
variable {Φ : FsCall → Fs → Prop} {dir : Path} {file : String → Path}
  {pick : Option Content × Option Content → Option Content}

theorem readFiles_answers (hS : Shelf box dir file pick) (hΦ : ∀ op, Φ op fs) (names : List Seg)
    (hnames : ∀ f ∈ names, ∃ x m, f = .name (x ++ ".json") ∧ m.id = x ∧ pick (slot box fs x) = some (.message m)) :
    ∃ l : List Message, Answers fsCall Φ (names.mapM fun f => readJsonRecord (dir ++ [f])) fs (.ok l) ∧
      l.map (fun m => Seg.name (m.id ++ ".json")) = names ∧ ∀ m ∈ l, pick (slot box fs m.id) = some (.message m) := by
  induction names with
  | nil => exact ⟨[], answers_ret _, rfl, fun m hm => absurd hm List.not_mem_nil⟩
  | cons f names ih =>
    obtain ⟨x, m, rfl, rfl, hpick⟩ := hnames f List.mem_cons_self
    obtain ⟨l, hl, hmap, hheld⟩ := ih fun f hf => hnames f (List.mem_cons_of_mem _ hf)
    have hread : Answers fsCall Φ (readJsonRecord (dir ++ [.name (m.id ++ ".json")])) fs (.ok m) := by
      refine answers_call (hΦ _) (fun _ => rfl) ?_
      rw [← hS.file_eq, ← hS.lookup fs m.id, hpick]
      exact answers_ret _
    refine ⟨m :: l, ?_, by rw [List.map_cons, hmap], fun m' hm' => ?_⟩
    · rw [List.mapM_cons]
      exact hread.then (hl.then (answers_ret _))
    · rcases List.mem_cons.mp hm' with rfl | hm'
      · exact hpick
      · exact hheld m' hm'

theorem readMessages_answers (hS : Shelf box dir file pick) (hnoDir : ∀ d ∈ fs.dirs, ∀ x, d ≠ file x)
    (hkept : Listing.Kept box fs)
    (hΦ : ∀ op, Φ op fs) : ∃ l, Answers fsCall Φ (readMessages dir) fs (.ok l) ∧ Read box pick fs l := by
  have hfound : ((fs.files.lookup dir).isSome || decide (dir ∈ fs.dirs)) = decide (dir ∈ fs.dirs) := by
    rw [hS.noFile fs hkept.toMailbox]
    rfl
  by_cases hdir : dir ∈ fs.dirs
  · obtain ⟨l, hl, hmap, hheld⟩ := readFiles_answers (Φ := Φ) hS hΦ ((entries fs dir).filter endsWithJson)
      fun f hf => by
      obtain ⟨x, rfl⟩ := json_name (List.mem_filter.mp hf).2
      obtain ⟨c, hc⟩ := Option.ne_none_iff_exists'.mp ((mem_entries hS hnoDir).mp hf)
      obtain ⟨m, hid, rfl⟩ := hS.message fs x c hkept.toMailbox hc
      exact ⟨x, m, rfl, hid, hc⟩
    refine ⟨l, ?_, ?_, fun x hx => ?_, hheld⟩
    · refine answers_call (hΦ _) (fun _ => rfl) ?_
      rw [hfound, decide_eq_true hdir]
      refine answers_call (hΦ _) (fun _ => rfl) ?_
      rw [if_pos hdir]
      exact hl
    · have hnodup := entries_nodup hS hnoDir
      rw [← hmap] at hnodup
      refine List.Nodup.of_map (fun x => Seg.name (x ++ ".json")) ?_
      rw [List.map_map]
      exact hnodup
    · have hname := (mem_entries hS hnoDir).mpr hx
      rw [← hmap] at hname
      obtain ⟨m, hm, heq⟩ := List.mem_map.mp hname
      exact ⟨m, hm, json_inj (Seg.name.inj heq)⟩
  · refine ⟨[], ?_, List.nodup_nil, fun x hx => absurd (hS.there fs x hkept.toMailbox hx) hdir,
      fun m hm => absurd hm List.not_mem_nil⟩
    refine answers_call (hΦ _) (fun _ => rfl) ?_
    rw [hfound, decide_eq_false hdir]
    exact answers_ret _

theorem listInbox_answers (hb : safeId box) (hkept : Listing.Kept box fs) (hΦ : ∀ op, Φ op fs) :
    ∃ snap, Answers fsCall Φ (listInbox box) fs (.ok snap) ∧ Read box Prod.fst fs snap.unread ∧
      Read box Prod.snd fs snap.read := by
  obtain ⟨unread, hunread, hfst⟩ :=
    readMessages_answers (Φ := Φ) shelf_unread (fun d hd x => (hkept.noDir d hd x).1) hkept hΦ
  obtain ⟨read, hread, hsnd⟩ :=
    readMessages_answers (Φ := Φ) shelf_read (fun d hd x => (hkept.noDir d hd x).2) hkept hΦ
  refine ⟨⟨unread, read⟩, ?_, hfst, hsnd⟩
  rw [listInbox, paths.inboxDir, paths.inboxReadDir, assertSafeId, if_pos hb]
  exact hunread.then (hread.then (answers_ret _))

end

/-! ## The items -/

def itemOf (box : String) (fs : Fs) (m : Message) : InboxItem := ⟨m, (slot box fs m.id).1.isNone⟩

def letsThrough (q : InboxQuery) (item : InboxItem) : Bool :=
  !(q.unread && item.read) && ((passes q.from fun f => item.message.sender = f || item.message.fromHandle = f) &&
    passes q.thread fun thread => item.message.thread = some thread)

/-- The messages that an inbox query lets through, as they were sent. -/
def inSendOrder (q : InboxQuery) (fs : Fs) (sent : List Message) : List InboxItem :=
  (sent.map (itemOf q.meId fs)).filter (letsThrough q)

theorem Holds.unread (h : Holds box sent fs) {m : Message} : (slot box fs m.id).1 = some (.message m) ↔
    m ∈ sent ∧ (slot box fs m.id).1.isNone = false := by
  rw [← h.held]
  constructor
  · intro hm
    obtain ⟨m', -, heq, hslot, -⟩ := h.kept.unread hm
    cases heq
    exact ⟨.inl hslot, by rw [hslot]; rfl⟩
  · rintro ⟨hheld | hheld, hsome⟩
    · rw [hheld]
    · rw [hheld] at hsome
      cases hsome

theorem Holds.read (h : Holds box sent fs) {m : Message} : (slot box fs m.id).2 = some (.message m) ↔
    m ∈ sent ∧ (slot box fs m.id).1.isNone = true := by
  rw [← h.held]
  constructor
  · intro hm
    obtain ⟨m', -, heq, hslot, -⟩ := h.kept.read hm
    cases heq
    exact ⟨.inr hslot, by rw [hslot]; rfl⟩
  · rintro ⟨hheld | hheld, hnone⟩
    · rw [hheld] at hnone
      cases hnone
    · rw [hheld]

theorem mem_read {pick : Option Content × Option Content → Option Content} {l : List Message} (hl : Read box pick fs l)
    {m : Message} : m ∈ l ↔ pick (slot box fs m.id) = some (.message m) := by
  refine ⟨hl.held m, fun hm => ?_⟩
  obtain ⟨m', hm', hid⟩ := hl.all m.id (by rw [hm]; exact Option.some_ne_none _)
  have hheld := hl.held m' hm'
  rw [hid, hm] at hheld
  cases hheld
  exact hm'

theorem Holds.perm (h : Holds box sent fs) (hids : (sent.map (·.id)).Nodup) {snap : InboxSnapshot}
    (hunread : Read box Prod.fst fs snap.unread) (hread : Read box Prod.snd fs snap.read) :
    (snap.unread ++ snap.read).Perm sent := by
  refine (List.perm_ext_iff_of_nodup ?_ hids.of_map).mpr fun m => ?_
  · refine List.Nodup.append hunread.nodup.of_map hread.nodup.of_map fun m hm hm' => ?_
    have hfirst := (h.unread.mp ((mem_read hunread).mp hm)).2
    rw [(h.read.mp ((mem_read hread).mp hm')).2] at hfirst
    cases hfirst
  · rw [List.mem_append, mem_read hunread, mem_read hread, h.unread, h.read]
    cases (slot box fs m.id).1.isNone <;> simp

/-- The inbox lists the messages that the query lets through, sorted. -/
theorem inbox_answers (before : String → String → Bool) {Φ : FsCall → Fs → Prop} (q : InboxQuery)
    (hb : safeId q.meId)
    (h : Holds q.meId sent fs) (hids : (sent.map (·.id)).Nodup) (hΦ : ∀ op, Φ op fs) : ∃ items : List InboxItem,
      Answers fsCall Φ (inbox before q) fs (.ok (items.insertionSort fun a b => before a.message.id b.message.id)) ∧
        items.Perm (inSendOrder q fs sent) := by
  obtain ⟨snap, hsnap, hunread, hread⟩ := listInbox_answers (Φ := Φ) hb h.kept hΦ
  refine ⟨_, hsnap.then (answers_ret _), ?_⟩
  have hall : (snap.unread.map (InboxItem.mk · false) ++ snap.read.map (InboxItem.mk · true)).Perm
      (sent.map (itemOf q.meId fs)) := by
    refine List.Perm.trans (.of_eq ?_) ((h.perm hids hunread hread).map (itemOf q.meId fs))
    rw [List.map_append]
    congr 1
    · refine List.map_congr_left fun m hm => ?_
      rw [itemOf, (h.unread.mp ((mem_read hunread).mp hm)).2]
    · refine List.map_congr_left fun m hm => ?_
      rw [itemOf, (h.read.mp ((mem_read hread).mp hm)).2]
  have hread : snap.unread.map (InboxItem.mk · false) ++
      (if q.unread then [] else snap.read.map (InboxItem.mk · true)) =
      (snap.unread.map (InboxItem.mk · false) ++ snap.read.map (InboxItem.mk · true)).filter fun item =>
        !(q.unread && item.read) := by
    rw [List.filter_append]
    congr 1
    · refine (List.filter_eq_self.mpr fun item hitem => ?_).symm
      obtain ⟨m, -, rfl⟩ := List.mem_map.mp hitem
      rw [Bool.and_false]
      rfl
    · by_cases hq : q.unread = true
      · rw [if_pos hq, hq]
        refine (List.filter_eq_nil_iff.mpr fun item hitem => ?_).symm
        obtain ⟨m, -, rfl⟩ := List.mem_map.mp hitem
        exact Bool.false_ne_true
      · rw [if_neg hq, Bool.eq_false_iff.mpr hq]
        exact (List.filter_eq_self.mpr fun _ _ => rfl).symm
  rw [hread, List.filter_filter, List.filter_filter]
  refine List.Perm.trans (.of_eq ?_) (hall.filter (letsThrough q))
  congr 1
  funext item
  rw [letsThrough]
  ac_rfl

theorem ack_answers {m : Message} (hkept : Listing.Kept box fs) (hslot : slot box fs m.id = (some (.message m), none)) :
    wp fsCall (fun _ _ => True) (fun _ _ => True) (ackMessage box m.id) (fun r _ => r = .ok m) fs := by
  have hc : fs.files.lookup (unreadPath box m.id) = some (.message m) := (Prod.mk.inj hslot).1
  obtain ⟨-, -, -, -, hb, hx⟩ := hkept.unread (x := m.id) hc
  have hfile : paths.messageFile box m.id = .ok (unreadPath box m.id) := messageFile_safe hb hx
  have hdest : paths.messageReadFile box m.id = .ok (readPath box m.id) := messageReadFile_safe hb hx
  rw [ackMessage, hfile]
  refine ⟨trivial, fun _ _ _ _ hop => ?_⟩
  cases hop
  rw [hc]
  refine ⟨trivial, fun _ _ _ _ hop => ?_⟩
  cases hop
  rw [hc, hdest]
  refine ⟨trivial, fun _ _ _ _ hop => ?_⟩
  cases hop
  refine ⟨trivial, fun _ renamed _ _ hop => ?_⟩
  have hdir : dirname (readPath box m.id) ∈ (dirname (readPath box m.id)).inits ++ fs.dirs :=
    List.mem_append_left _ ((List.mem_inits _ _).mpr List.prefix_rfl)
  simp only [fsCall, hc, hdir, if_true] at hop
  cases hop
  rfl

end

end Cyberlegion.Inbox
