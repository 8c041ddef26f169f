import Cyberlegion.Mail

/-!
# Mail is neither lost nor duplicated

Each of `send`, `ack` and `delete` is pending up to its last call, under any
interleaving. A message is unsent, unread, read or deleted, and every step of a
run leaves its phase alone or moves it once along that order.
-/

namespace Cyberlegion.Mail

open Effects FileStore

/-! ## The operations, call by call -/

section
variable {box x : String}

theorem send_prog {pid n : Nat} {msg : Message} (hb : safeId box) (hx : safeId msg.id) :
    (Job.send pid n msg).prog box =
      .call (.mkdirSync [.name "inbox", .name box]) fun _ =>
      .call (.writeFileSync (tmpPath box msg.id pid n) (.message msg)) fun written =>
        if written then
          .call (.renameSync (tmpPath box msg.id pid n) (unreadPath box msg.id)) fun renamed =>
            if renamed then .ret none else .throw (.enoent (tmpPath box msg.id pid n))
        else .throw (.enoent (tmpPath box msg.id pid n)) := by
  simp only [Job.prog, putMessage, messageFile_safe hb hx, orThrow, writeFileAtomic, mkdirSync, writeFileSync,
    renameSync, Prog.pure_eq, Prog.ret_bind, Prog.call_bind, Prog.throw_eq]
  refine congrArg (Prog.call _) (funext fun _ => congrArg (Prog.call _) (funext fun written => ?_))
  cases written
  · rfl
  · refine congrArg (Prog.call _) (funext fun renamed => ?_)
    cases renamed <;> rfl

theorem ack_prog (hb : safeId box) (hx : safeId x) :
    (Job.ack x).prog box =
      .call (.existsSync (unreadPath box x)) fun found =>
        if found then
          .call (.readFileSync (unreadPath box x)) fun text =>
            match text with
            | none => .throw (.enoent (unreadPath box x))
            | some .corrupt => .throw (.corruptRecord (unreadPath box x))
            | some (.message msg) =>
              .call (.mkdirSync [.name "inbox", .name box, .name "read"]) fun _ =>
              .call (.renameSync (unreadPath box x) (readPath box x)) fun renamed =>
                if renamed then .ret (some msg) else .throw (.enoent (unreadPath box x))
        else .throw (.notUnread x) := by
  simp only [Job.prog, ackMessage, messageFile_safe hb hx, messageReadFile_safe hb hx, readPathOrUndefined, orThrow,
    readJsonRecord, existsSync, readFileSync, mkdirSync, renameSync, Prog.pure_eq, Prog.ret_bind,
      Prog.call_bind, Prog.throw_eq]
  refine congrArg (Prog.call _) (funext fun found => ?_)
  cases found
  · rfl
  · refine congrArg (Prog.call _) (funext fun text => ?_)
    rcases text with _ | msg | _
    · rfl
    · refine congrArg (Prog.call _) (funext fun _ => congrArg (Prog.call _) (funext fun renamed => ?_))
      cases renamed <;> rfl
    · rfl

theorem delete_prog (hb : safeId box) (hx : safeId x) :
    (Job.delete x).prog box =
      .call (.existsSync (unreadPath box x)) fun found =>
        if found then
          .call (.rmSync (unreadPath box x)) fun removed =>
            if removed then .ret none else .throw (.enoent (unreadPath box x))
        else
          .call (.existsSync (readPath box x)) fun found =>
            if found then
              .call (.rmSync (readPath box x)) fun removed =>
                if removed then .ret none else .throw (.enoent (readPath box x))
            else .throw (.notInInbox x) := by
  simp only [Job.prog, removeMessage, removeRead, messageFile_safe hb hx, messageReadFile_safe hb hx,
    readPathOrUndefined, existsSync, rmSync, Prog.pure_eq, Prog.ret_bind, Prog.call_bind, Prog.throw_eq]
  refine congrArg (Prog.call _) (funext fun found => ?_)
  cases found
  · refine congrArg (Prog.call _) (funext fun found => ?_)
    cases found
    · rfl
    · refine congrArg (Prog.call _) (funext fun removed => ?_)
      cases removed <;> rfl
  · refine congrArg (Prog.call _) (funext fun removed => ?_)
    cases removed <;> rfl


/-! ## The operations are pending -/

variable {t u : Fs}

theorem mailbox_insert_tmp (hb : safeId box) {pid n : Nat} {c : Content} :
    mailbox box { t with files := t.files.insert (tmpPath box x pid n) c } = mailbox box t := by
  funext y
  exact mailbox_congr hb y fun _ => by simp

theorem mailbox_dirs (hb : safeId box) {ds : List Path} : mailbox box { t with dirs := ds } = mailbox box t := by
  funext y
  exact mailbox_congr hb y fun _ => ⟨rfl, rfl⟩

theorem send_pending {pid n : Nat} {msg : Message} (hb : safeId box) (hx : safeId msg.id) :
    Pending fsCall (contract box (.send pid n msg)) ((Job.send pid n msg).prog box) t := by
  rw [send_prog hb hx]
  intro t1 _ _ _ u1 h1
  cases h1
  refine ⟨⟨fun d hd => List.mem_append_right _ hd, fun _ _ _ _ => rfl⟩, .inr (.inr ⟨mailbox_dirs hb, ?_⟩)⟩
  intro t2 h2 _ written u2 hw
  have hdir : [Seg.name "inbox", Seg.name box] ∈ t2.dirs :=
    h2.1 _ (List.mem_append_left _ (by simp [List.inits]))
  have hdir' : dirname (tmpPath box msg.id pid n) ∈ t2.dirs := hdir
  simp only [fsCall, hdir', if_true] at hw
  cases hw
  refine ⟨⟨fun d hd => hd, fun y hy p m => ?_⟩, .inr (.inr ⟨mailbox_insert_tmp hb, ?_⟩)⟩
  · show (t2.files.insert _ _).lookup _ = _
    rw [Table.lookup_insert_eq, if_neg (tmpPath_ne fun h => hy h.symm)]
  intro t3 h3 _ renamed u3 hr
  have htmp : t3.files.lookup (tmpPath box msg.id pid n) = some (.message msg) := by
    rw [h3.2 msg.id rfl]
    exact AList.lookup_insert _
  have hdir3 : dirname (unreadPath box msg.id) ∈ t3.dirs := h3.1 _ hdir
  simp only [fsCall, htmp, hdir3, if_true] at hr
  cases hr
  refine ⟨⟨fun d hd => hd, fun y hy p m => ?_⟩, .inl ⟨⟨none, rfl⟩, ?_⟩⟩
  · show ((t3.files.erase _).insert _ _).lookup _ = _
    rw [Table.lookup_insert_eq, if_neg tmpPath_ne_unreadPath, Table.lookup_erase_eq,
      if_neg (tmpPath_ne fun h => hy h.symm)]
  · funext y
    by_cases hy : y = msg.id
    · subst hy
      rw [Function.update_self, mailbox_safe hb hx, mailbox_safe hb hx]
      simp
    · rw [Function.update_of_ne hy]
      exact mailbox_congr hb y fun _ => by simp [hy]

theorem keepsTmp_erase {P : String → Prop} {p : Path} (hp : ∀ y pid n, p ≠ tmpPath box y pid n) :
    KeepsTmp box P t { t with files := t.files.erase p } := by
  refine ⟨fun d hd => hd, fun y _ pid n => ?_⟩
  exact AList.lookup_erase_ne fun h => hp y pid n h.symm

theorem mailbox_erase_unread (hb : safeId box) (hx : safeId x) :
    mailbox box { t with files := t.files.erase (unreadPath box x) } =
      Function.update (mailbox box t) x (none, (mailbox box t x).2) := by
  funext y
  by_cases hy : y = x
  · subst hy
    rw [Function.update_self, mailbox_safe hb hx, mailbox_safe hb hx]
    simp
  · rw [Function.update_of_ne hy]
    exact mailbox_congr hb y fun _ => by simp [hy]

theorem mailbox_erase_read (hb : safeId box) (hx : safeId x) :
    mailbox box { t with files := t.files.erase (readPath box x) } =
      Function.update (mailbox box t) x ((mailbox box t x).1, none) := by
  funext y
  by_cases hy : y = x
  · subst hy
    rw [Function.update_self, mailbox_safe hb hx, mailbox_safe hb hx]
    simp
  · rw [Function.update_of_ne hy]
    exact mailbox_congr hb y fun _ => by simp [hy]

theorem ack_pending (hb : safeId box) (hx : safeId x) :
    Pending fsCall (contract box (.ack x)) ((Job.ack x).prog box) t := by
  rw [ack_prog hb hx]
  intro t1 _ _ found u1 h1
  simp only [fsCall, Option.some.injEq, Prod.mk.injEq] at h1
  obtain ⟨hfound, rfl⟩ := h1
  refine ⟨KeepsTmp.refl, ?_⟩
  cases found with
  | false =>
    refine .inr (.inl ⟨⟨_, rfl⟩, rfl, fun m hm => ?_⟩)
    rw [mailbox_safe hb hx] at hm
    have hm : t1.files.lookup (unreadPath box x) = some (.message m) := hm
    rw [hm] at hfound
    cases hfound
  | true =>
  refine .inr (.inr ⟨rfl, ?_⟩)
  intro t2 _ _ text u2 h2
  cases h2
  refine ⟨KeepsTmp.refl, ?_⟩
  have hbox : mailbox box t2 x = _ := mailbox_safe hb hx
  cases hc : t2.files.lookup (unreadPath box x) with
  | none => exact .inr (.inl ⟨⟨_, rfl⟩, rfl, fun m hm => by rw [hbox, hc] at hm; cases hm⟩)
  | some content =>
    cases content with
    | corrupt => exact .inr (.inl ⟨⟨_, rfl⟩, rfl, fun m hm => by rw [hbox, hc] at hm; cases hm⟩)
    | message msg =>
      refine .inr (.inr ⟨rfl, ?_⟩)
      intro t3 _ _ _ u3 h3
      cases h3
      refine ⟨⟨fun d hd => List.mem_append_right _ hd, fun _ _ _ _ => rfl⟩, .inr (.inr ⟨mailbox_dirs hb, ?_⟩)⟩
      intro t4 h4 _ renamed u4 h
      have hdir : dirname (readPath box x) ∈ t4.dirs :=
        h4.1 _ (List.mem_append_left _ (by simp [List.inits, dirname, readPath]))
      have hbox : mailbox box t4 x = _ := mailbox_safe hb hx
      cases hc : t4.files.lookup (unreadPath box x) with
      | none =>
        simp only [fsCall, hc] at h
        cases h
        exact ⟨KeepsTmp.refl, .inr (.inl ⟨⟨_, rfl⟩, rfl, fun m hm => by rw [hbox, hc] at hm; cases hm⟩)⟩
      | some c =>
        simp only [fsCall, hc, hdir, if_true] at h
        cases h
        refine ⟨⟨fun d hd => hd, fun y _ p n => ?_⟩, .inl ⟨⟨some msg, rfl⟩, c, by rw [hbox, hc], ?_⟩⟩
        · show ((t4.files.erase _).insert _ _).lookup _ = _
          rw [AList.lookup_insert_ne tmpPath_ne_readPath, AList.lookup_erase_ne tmpPath_ne_unreadPath]
        · funext y
          by_cases hy : y = x
          · subst hy
            rw [Function.update_self, mailbox_safe hb hx]
            simp
          · rw [Function.update_of_ne hy]
            exact mailbox_congr hb y fun _ => by simp [hy]

theorem rm_pending (hb : safeId box) (hx : safeId x) {p : Path}
    (hp : (p = unreadPath box x ∧ ∀ t, mailbox box { t with files := t.files.erase p } =
        Function.update (mailbox box t) x (none, (mailbox box t x).2)) ∨
      (p = readPath box x ∧ ∀ t, mailbox box { t with files := t.files.erase p } =
        Function.update (mailbox box t) x ((mailbox box t x).1, none))) :
    Pending fsCall (contract box (.delete x))
      (.call (.rmSync p) fun removed => if removed then .ret (none : Option Message)
        else .throw (StoreError.enoent p)) t := by
  intro u _ _ removed v h
  cases hc : u.files.lookup p with
  | none =>
    simp only [fsCall, hc] at h
    cases h
    exact ⟨KeepsTmp.refl, .inr (.inl ⟨⟨_, rfl⟩, rfl, trivial⟩)⟩
  | some c =>
    simp only [fsCall, hc] at h
    cases h
    rcases hp with ⟨rfl, hp⟩ | ⟨rfl, hp⟩
    · refine ⟨keepsTmp_erase fun _ _ _ => unreadPath_ne_tmpPath, .inl ⟨⟨none, rfl⟩, .inl ⟨?_, hp u⟩⟩⟩
      rw [mailbox_safe hb hx, hc]
      exact Option.some_ne_none c
    · refine ⟨keepsTmp_erase fun _ _ _ => readPath_ne_tmpPath, .inl ⟨⟨none, rfl⟩, .inr ⟨?_, hp u⟩⟩⟩
      rw [mailbox_safe hb hx, hc]
      exact Option.some_ne_none c

theorem delete_pending (hb : safeId box) (hx : safeId x) :
    Pending fsCall (contract box (.delete x)) ((Job.delete x).prog box) t := by
  rw [delete_prog hb hx]
  intro t1 _ _ found u1 h1
  cases (Prod.mk.inj (Option.some.inj h1)).2
  refine ⟨KeepsTmp.refl, .inr (.inr ⟨rfl, ?_⟩)⟩
  cases found with
  | true => exact rm_pending hb hx (.inl ⟨rfl, fun _ => mailbox_erase_unread hb hx⟩)
  | false =>
    intro t2 _ _ found u2 h2
    cases (Prod.mk.inj (Option.some.inj h2)).2
    refine ⟨KeepsTmp.refl, ?_⟩
    cases found with
    | true => exact .inr (.inr ⟨rfl, rm_pending hb hx (.inr ⟨rfl, fun _ => mailbox_erase_read hb hx⟩)⟩)
    | false => exact .inr (.inl ⟨⟨_, rfl⟩, rfl, trivial⟩)

/-- An operation with an unsafe id throws before its first call. -/
theorem done_of_not_safe {J : Job} (h : ¬ (safeId box ∧ safeId J.msgId)) : ∃ e, J.prog box = .throw e := by
  obtain ⟨hu, hr⟩ := messageFile_of_not_safe h
  cases J with
  | send pid n msg =>
    cases hp : paths.messageFile box msg.id with
    | ok p => rw [show (Job.send pid n msg).msgId = msg.id from rfl, hp] at hu; cases hu
    | error e => exact ⟨.invalidId e, by simp [Job.prog, putMessage, hp, orThrow]⟩
  | ack y =>
    have hu : readPathOrUndefined (paths.messageFile box y) = none := hu
    exact ⟨.notUnread y, by rw [Job.prog, ackMessage, hu]; rfl⟩
  | delete y =>
    have hu : readPathOrUndefined (paths.messageFile box y) = none := hu
    have hr : readPathOrUndefined (paths.messageReadFile box y) = none := hr
    exact ⟨.notInInbox y, by rw [Job.prog, removeMessage, hu, removeRead, hr]; rfl⟩

theorem prog_pending (box : String) (J : Job) (t : Fs) :
    (J.prog box).done = true ∨ Pending fsCall (contract box J) (J.prog box) t := by
  by_cases h : safeId box ∧ safeId J.msgId
  · cases J with
    | send pid n msg => exact .inr (send_pending h.1 h.2)
    | ack y => exact .inr (ack_pending h.1 h.2)
    | delete y => exact .inr (delete_pending h.1 h.2)
  · obtain ⟨e, he⟩ := done_of_not_safe h
    exact .inl (by rw [he]; rfl)

end

/-! ## The life of a message -/

section
variable {ι : Type} {box : String} {jobs : ι → Job}

abbrev St (ι : Type) := Fs × (ι → FsM (Option Message))

def start (box : String) (jobs : ι → Job) (fs : Fs) : St ι := (fs, fun i => (jobs i).prog box)

def Succeeded (s : St ι) (i : ι) : Prop := ∃ a, s.2 i = .ret a

def Sent (jobs : ι → Job) (s : St ι) (msg : Message) : Prop :=
  ∃ i pid n, jobs i = .send pid n msg ∧ Succeeded s i

def Deleted (jobs : ι → Job) (s : St ι) (x : String) : Prop := ∃ i, jobs i = .delete x ∧ Succeeded s i

inductive Life (box : String) (jobs : ι → Job) (s : St ι) (x : String) : Prop
  | unsent (hbox : mailbox box s.1 x = (none, none)) (hnone : ∀ i, (jobs i).msgId = x → ¬ Succeeded s i)
  | unread (msg : Message) (hid : msg.id = x) (hsent : Sent jobs s msg)
      (hbox : mailbox box s.1 x = (some (.message msg), none))
      (honly : ∀ i, (jobs i).msgId = x → Succeeded s i → (jobs i).sends x)
  | read (msg : Message) (i : ι) (hid : msg.id = x) (hsent : Sent jobs s msg)
      (hbox : mailbox box s.1 x = (none, some (.message msg)))
      (hack : jobs i = .ack x) (hi : Succeeded s i)
      (honly : ∀ j, (jobs j).msgId = x → Succeeded s j → (jobs j).sends x ∨ j = i)
  | deleted (hdel : Deleted jobs s x) (hbox : mailbox box s.1 x = (none, none))
      (hsent : ∃ i, (jobs i).sends x ∧ Succeeded s i)
      (hacks : ∀ i j, jobs i = .ack x → jobs j = .ack x → Succeeded s i → Succeeded s j → i = j)

variable {s t : St ι} {x : String}

theorem Life.congr (hs : Life box jobs s x) (hbox : mailbox box t.1 x = mailbox box s.1 x)
    (hsucc : ∀ i, (jobs i).msgId = x → (Succeeded t i ↔ Succeeded s i)) : Life box jobs t x := by
  have hsent : ∀ msg, msg.id = x → Sent jobs s msg → Sent jobs t msg := by
    rintro msg rfl ⟨i, pid, n, hi, hsi⟩
    exact ⟨i, pid, n, hi, (hsucc i (by rw [hi]; rfl)).mpr hsi⟩
  cases hs with
  | unsent hb hn => exact .unsent (hbox.trans hb) fun i hi h => hn i hi ((hsucc i hi).mp h)
  | unread msg hid hm hb ho =>
    exact .unread msg hid (hsent msg hid hm) (hbox.trans hb) fun i hi h => ho i hi ((hsucc i hi).mp h)
  | read msg i hid hm hb hi hsi ho =>
    exact .read msg i hid (hsent msg hid hm) (hbox.trans hb) hi ((hsucc i (by rw [hi]; rfl)).mpr hsi)
      fun j hj h => ho j hj ((hsucc j hj).mp h)
  | deleted hd hb hm ha =>
    obtain ⟨d, hd, hsd⟩ := hd
    obtain ⟨i, hi, hsi⟩ := hm
    refine .deleted ⟨d, hd, (hsucc d (by rw [hd]; rfl)).mpr hsd⟩ (hbox.trans hb)
      ⟨i, hi, (hsucc i (Job.sends_msgId hi)).mpr hsi⟩ fun j k hj hk hsj hsk => ?_
    exact ha j k hj hk ((hsucc j (by rw [hj]; rfl)).mp hsj) ((hsucc k (by rw [hk]; rfl)).mp hsk)

theorem Life.commit {e : ι} (hids : ∀ i j x, (jobs i).sends x → (jobs j).sends x → i = j)
    (hs : Life box jobs s x) (hx : (jobs e).msgId = x) (hc : (jobs e).commits box s.1 t.1)
    (hold : ¬ Succeeded s e) (hnew : Succeeded t e) (hother : ∀ i, i ≠ e → (Succeeded t i ↔ Succeeded s i)) :
    Life box jobs t x := by
  have hkeep : ∀ i, Succeeded s i → Succeeded t i := by
    intro i hi
    by_cases hie : i = e
    · rw [hie]; exact hnew
    · exact (hother i hie).mpr hi
  have hback : ∀ i, i ≠ e → Succeeded t i → Succeeded s i := fun i hi => (hother i hi).mp
  have hsent : ∀ msg, Sent jobs s msg → Sent jobs t msg := by
    rintro msg ⟨i, pid, n, hi, hsi⟩
    exact ⟨i, pid, n, hi, hkeep i hsi⟩
  cases hj : jobs e with
  | send pid n msg =>
    rw [hj] at hx hc
    have hx : msg.id = x := hx
    have hsends : (jobs e).sends x := by rw [hj]; exact hx
    have hbox := congrFun hc x
    rw [hx, Function.update_self] at hbox
    cases hs with
    | unsent hb hn =>
      refine .unread msg hx ⟨e, pid, n, hj, hnew⟩ (by rw [hbox, hb]) fun i hi hsi => ?_
      by_cases hie : i = e
      · rw [hie]; exact hsends
      · exact absurd (hback i hie hsi) (hn i hi)
    | unread _ hid hm _ _ | read _ _ hid hm _ _ _ _ =>
      obtain ⟨i, _, _, hi, hsi⟩ := hm
      cases hids i e x (by rw [hi]; exact hid) hsends
      exact absurd hsi hold
    | deleted _ _ hm _ =>
      obtain ⟨i, hi, hsi⟩ := hm
      cases hids i e x hi hsends
      exact absurd hsi hold
  | ack y =>
    rw [hj] at hx hc
    obtain rfl : y = x := hx
    obtain ⟨c, hc1, hc⟩ := hc
    have hbox := congrFun hc y
    rw [Function.update_self] at hbox
    cases hs with
    | unsent hb _ | read _ _ _ _ hb _ _ _ | deleted _ hb _ _ => rw [hb] at hc1; cases hc1
    | unread msg hid hm hb ho =>
      rw [hb] at hc1
      cases hc1
      refine .read msg e hid (hsent msg hm) hbox hj hnew fun j hjx hsj => ?_
      by_cases hje : j = e
      · exact .inr hje
      · exact .inl (ho j hjx (hback j hje hsj))
  | delete y =>
    rw [hj] at hx hc
    obtain rfl : y = x := hx
    have hdel : Deleted jobs t y := ⟨e, hj, hnew⟩
    have hne : ∀ i, jobs i = .ack y → i ≠ e := by
      rintro i hi rfl
      rw [hj] at hi; cases hi
    cases hs with
    | unsent hb _ | deleted _ hb _ _ =>
      rcases hc with ⟨h, _⟩ | ⟨h, _⟩ <;> rw [hb] at h <;> exact absurd rfl h
    | unread msg hid hm hb ho =>
      rcases hc with ⟨_, hc⟩ | ⟨h, _⟩
      · have hbox := congrFun hc y
        rw [Function.update_self, hb] at hbox
        obtain ⟨k, pid, n, hk, hsk⟩ := hm
        refine .deleted hdel hbox ⟨k, by rw [hk]; exact hid, hkeep k hsk⟩ fun i _ hi _ hsi _ => ?_
        have hsend := ho i (by rw [hi]; rfl) (hback i (hne i hi) hsi)
        rw [hi] at hsend; exact hsend.elim
      · rw [hb] at h; exact absurd rfl h
    | read msg a hid hm hb ha hsa ho =>
      rcases hc with ⟨h, _⟩ | ⟨_, hc⟩
      · rw [hb] at h; exact absurd rfl h
      · have hbox := congrFun hc y
        rw [Function.update_self, hb] at hbox
        obtain ⟨k, pid, n, hk, hsk⟩ := hm
        have hacker : ∀ i, jobs i = .ack y → Succeeded t i → i = a := by
          intro i hi hsi
          rcases ho i (by rw [hi]; rfl) (hback i (hne i hi) hsi) with hsend | rfl
          · rw [hi] at hsend; exact hsend.elim
          · rfl
        exact .deleted hdel hbox ⟨k, by rw [hk]; exact hid, hkeep k hsk⟩ fun i j hi hj hsi hsj =>
          (hacker i hi hsi).trans (hacker j hj hsj).symm

/-! ## Runs -/

structure Inv (box : String) (jobs : ι → Job) (s : St ι) : Prop where
  pending : PoolPending fsCall (fun i => contract box (jobs i)) s
  life : ∀ x, Life box jobs s x

theorem not_succeeded_of_pending {i : ι} (h : (s.2 i).done = false) : ¬ Succeeded s i := by
  rintro ⟨a, ha⟩
  rw [ha] at h; cases h

theorem Inv.start {fs : Fs} (hempty : ∀ x, mailbox box fs x = (none, none)) :
    Inv box jobs (start box jobs fs) := by
  refine ⟨fun i => prog_pending box (jobs i) fs, fun x => .unsent (hempty x) ?_⟩
  rintro i - ⟨a, ha⟩
  by_cases h : safeId box ∧ safeId (jobs i).msgId
  · have hp : ((jobs i).prog box).done = false := by
      cases hj : jobs i with
      | send pid n msg => rw [hj] at h; exact (send_pending (t := fs) h.1 h.2).not_done
      | ack y => rw [hj] at h; exact (ack_pending (t := fs) h.1 h.2).not_done
      | delete y => rw [hj] at h; exact (delete_pending (t := fs) h.1 h.2).not_done
    exact not_succeeded_of_pending (s := Mail.start box jobs fs) hp ⟨a, ha⟩
  · obtain ⟨err, he⟩ := done_of_not_safe h
    have ha : (jobs i).prog box = .ret a := ha
    rw [he] at ha; cases ha

theorem succeeded_other {j : ι} (hother : ∀ i, i ≠ j → t.2 i = s.2 i) {i : ι} (hi : i ≠ j) :
    Succeeded t i ↔ Succeeded s i := by
  unfold Succeeded
  rw [hother i hi]

theorem Life.one_of (hids : ∀ i j x, (jobs i).sends x → (jobs j).sends x → i = j) {msg : Message}
    (hs : Life box jobs s msg.id) (hsent : Sent jobs s msg) (hdel : ¬ Deleted jobs s msg.id) :
    mailbox box s.1 msg.id = (some (.message msg), none) ∨
      (mailbox box s.1 msg.id = (none, some (.message msg)) ∧
        ∃ i, jobs i = .ack msg.id ∧ Succeeded s i ∧ ∀ j, jobs j = .ack msg.id → Succeeded s j → j = i) := by
  obtain ⟨k, pid, n, hk, hsk⟩ := hsent
  have hmsg : ∀ m, m.id = msg.id → Sent jobs s m → m = msg := by
    rintro m hm ⟨i, pid', n', hi, -⟩
    have hik : i = k := hids i k msg.id (by rw [hi]; exact hm) (by rw [hk]; exact rfl)
    rw [hik, hk] at hi
    cases hi; rfl
  cases hs with
  | unsent _ hn => exact absurd hsk (hn k (by rw [hk]; rfl))
  | unread m hid hm hb _ =>
    rw [hmsg m hid hm] at hb
    exact .inl hb
  | read m i hid hm hb hi hsi ho =>
    rw [hmsg m hid hm] at hb
    refine .inr ⟨hb, i, hi, hsi, fun j hj hsj => ?_⟩
    rcases ho j (by rw [hj]; rfl) hsj with h | h
    · rw [hj] at h; exact h.elim
    · exact h
  | deleted hd _ _ _ => exact absurd hd hdel

theorem Life.acks_eq (hs : Life box jobs s x) {i j : ι} (hi : jobs i = .ack x) (hj : jobs j = .ack x)
    (hsi : Succeeded s i) (hsj : Succeeded s j) : i = j := by
  have hmsg : ∀ {k}, jobs k = .ack x → (jobs k).msgId = x := fun hk => by rw [hk]; rfl
  have hnot : ∀ {k}, jobs k = .ack x → ¬ (jobs k).sends x := fun hk h => by rw [hk] at h; exact h
  cases hs with
  | unsent _ hn => exact absurd hsi (hn i (hmsg hi))
  | unread _ _ _ _ ho => exact absurd (ho i (hmsg hi) hsi) (hnot hi)
  | read _ a _ _ _ _ _ ho =>
    have hia := (ho i (hmsg hi) hsi).resolve_left (hnot hi)
    have hja := (ho j (hmsg hj) hsj).resolve_left (hnot hj)
    rw [hia, hja]
  | deleted _ _ _ ha => exact ha i j hi hj hsi hsj

variable [DecidableEq ι] {e : ι × Unit}

theorem Inv.step (hids : ∀ i j x, (jobs i).sends x → (jobs j).sends x → i = j) (hs : Inv box jobs s)
    (hst : stepPool fsCall s e = some t) : Inv box jobs t := by
  obtain ⟨hp, hrun, hother, hcases⟩ := hs.pending.step (compatible hids) hst
  have hold : ¬ Succeeded s e.1 := not_succeeded_of_pending hrun
  have hquiet : ¬ Succeeded t e.1 → ∀ i, Succeeded t i ↔ Succeeded s i := by
    intro hnot i
    by_cases hi : i = e.1
    · rw [hi]; exact iff_of_false hnot hold
    · exact succeeded_other hother hi
  refine ⟨hp, fun x => ?_⟩
  rcases hcases with ⟨hnew, hc⟩ | ⟨⟨err, herr⟩, hq, _⟩ | ⟨hnd, hq⟩
  · by_cases hx : (jobs e.1).msgId = x
    · exact (hs.life x).commit hids hx hc hold hnew fun i hi => succeeded_other hother hi
    · refine (hs.life x).congr (commits_other hc fun h => hx h.symm) fun i hi => succeeded_other hother ?_
      rintro rfl
      exact hx hi
  · refine (hs.life x).congr (congrFun hq x) fun i _ => hquiet ?_ i
    rintro ⟨a, ha⟩
    rw [herr] at ha; cases ha
  · exact (hs.life x).congr (congrFun hq x) fun i _ => hquiet (not_succeeded_of_pending hnd) i

theorem Inv.frame (hids : ∀ i j x, (jobs i).sends x → (jobs j).sends x → i = j) (hs : Inv box jobs s)
    (hst : stepPool fsCall s e = some t) {x : String} (hx : (jobs e.1).msgId ≠ x) :
    mailbox box t.1 x = mailbox box s.1 x := by
  obtain ⟨-, -, -, hcases⟩ := hs.pending.step (compatible hids) hst
  rcases hcases with ⟨-, hc⟩ | ⟨-, hq, -⟩ | ⟨-, hq⟩
  · exact commits_other hc fun h => hx h.symm
  · exact congrFun hq x
  · exact congrFun hq x

/-- What an ack knows once its message is sent: it has not ended, or it succeeded,
or the message is no longer unread. -/
structure AckInv (box : String) (jobs : ι → Job) (msg : Message) (i : ι) (s : St ι) : Prop extends
    Inv box jobs s where
  sent : Sent jobs s msg
  ended : (s.2 i).done = true → Succeeded s i ∨ (mailbox box s.1 msg.id).1 = none

theorem AckInv.step (hids : ∀ i j x, (jobs i).sends x → (jobs j).sends x → i = j) {msg : Message} {i : ι}
    (hi : jobs i = .ack msg.id) (hs : AckInv box jobs msg i s) (hst : stepPool fsCall s e = some t) :
    AckInv box jobs msg i t := by
  obtain ⟨-, hrun, hother, hcases⟩ := hs.pending.step (compatible hids) hst
  have hinv := hs.toInv.step hids hst
  obtain ⟨k, pid, n, hk, hsk⟩ := hs.sent
  have hsendk : (jobs k).sends msg.id := by rw [hk]; exact rfl
  have hke : k ≠ e.1 := by
    rintro rfl
    exact not_succeeded_of_pending hrun hsk
  -- no second send writes the message back into the unread set
  have hgone : (mailbox box s.1 msg.id).1 = none → (mailbox box t.1 msg.id).1 = none := by
    intro hnone
    rcases hcases with ⟨-, hc⟩ | ⟨-, hq, -⟩ | ⟨-, hq⟩
    · by_cases hid : (jobs e.1).msgId = msg.id
      · exact commits_gone hc hid (fun h => hke (hids k e.1 _ hsendk h)) hnone
      · rw [commits_other hc fun h => hid h.symm]; exact hnone
    · rw [congrFun hq]; exact hnone
    · rw [congrFun hq]; exact hnone
  refine ⟨hinv, ⟨k, pid, n, hk, (succeeded_other hother hke).mpr hsk⟩, fun hdone => ?_⟩
  by_cases hie : i = e.1
  · rcases hcases with ⟨hnew, -⟩ | ⟨-, hq, hf⟩ | ⟨hnd, -⟩
    · rw [hie]; exact .inl hnew
    · have hf : ∀ m, (mailbox box s.1 msg.id).1 ≠ some (.message m) := by
        have hf' := hf
        simp only [contract, ← hie, hi] at hf'
        exact hf'
      refine .inr ?_
      rw [congrFun hq]
      cases hs.life msg.id with
      | unsent hb _ | deleted _ hb _ _ | read _ _ _ _ hb _ _ _ => rw [hb]
      | unread m _ _ hb _ => exact absurd (by rw [hb]) (hf m)
    · rw [hie, hnd] at hdone; cases hdone
  · rw [hother i hie] at hdone
    exact (hs.ended hdone).imp (succeeded_other hother hie).mpr hgone

/-- From the moment its send completes a message is unread or read, never both, as
long as no delete of it has succeeded; at most one ack of it succeeds, and exactly
one if an ack ends after the send and nothing deletes the message; and operations on
other messages leave it where it is. -/
theorem mail_conserved {fs : Fs} {es es' : List (ι × Unit)} {s s' : St ι}
    (hids : ∀ i j x, (jobs i).sends x → (jobs j).sends x → i = j)
    (hempty : ∀ x, mailbox box fs x = (none, none))
    (hrun : Runs.exec (stepPool fsCall) (start box jobs fs) es = some s)
    (hrun' : Runs.exec (stepPool fsCall) s es' = some s') :
    (∀ msg, Sent jobs s msg → ¬ Deleted jobs s msg.id →
      mailbox box s.1 msg.id = (some (.message msg), none) ∨
        mailbox box s.1 msg.id = (none, some (.message msg))) ∧
    (∀ x i j, jobs i = .ack x → jobs j = .ack x → Succeeded s i → Succeeded s j → i = j) ∧
    (∀ msg i, Sent jobs s msg → jobs i = .ack msg.id → (s.2 i).done = false → (s'.2 i).done = true →
      ¬ Deleted jobs s' msg.id → ∃! j, jobs j = .ack msg.id ∧ Succeeded s' j) ∧
    (∀ x, (∀ e ∈ es', (jobs e.1).msgId ≠ x) → mailbox box s'.1 x = mailbox box s.1 x) := by
  have hinv : Inv box jobs s := Runs.exec_inv (fun _ _ _ h hst => h.step hids hst) (Inv.start hempty) hrun
  refine ⟨fun msg hsent hdel => ?_, fun x i j hi hj => (hinv.life x).acks_eq hi hj, ?_, fun x hx => ?_⟩
  · exact ((hinv.life msg.id).one_of hids hsent hdel).imp_right fun h => h.1
  · intro msg i hsent hi hnd hdone hdel
    have hack : AckInv box jobs msg i s' :=
      Runs.exec_inv (fun _ _ _ h hst => h.step hids hi hst)
        ⟨hinv, hsent, fun h => by rw [hnd] at h; cases h⟩ hrun'
    have hone : ∃ j, jobs j = .ack msg.id ∧ Succeeded s' j := by
      rcases hack.ended hdone with hsucc | hnone
      · exact ⟨i, hi, hsucc⟩
      · rcases (hack.life msg.id).one_of hids hack.sent hdel with hb | ⟨-, j, hj, hsj, -⟩
        · rw [hb] at hnone; cases hnone
        · exact ⟨j, hj, hsj⟩
    obtain ⟨j, hj, hsj⟩ := hone
    exact ⟨j, ⟨hj, hsj⟩, fun k hk => (hack.life msg.id).acks_eq hk.1 hj hk.2 hsj⟩
  · clear hrun
    induction es' generalizing s with
    | nil => cases hrun'; rfl
    | cons e es' ih =>
      obtain ⟨u, hu, hrun'⟩ := (Runs.exec_cons_eq_some _).mp hrun'
      rw [ih hrun' (hinv.step hids hu) fun e' he' => hx e' (List.mem_cons_of_mem e he')]
      exact hinv.frame hids hu (hx e List.mem_cons_self)

end

def raceMessage : Message :=
  { id := "1-ab", sender := "p", fromHandle := "peer", «to» := "u", body := "hi", ts := 1, sentAt := "" }

def raceJobs : Fin 3 → Job
  | 0 => .send 7 0 raceMessage
  | 1 => .ack "1-ab"
  | 2 => .ack "1-ab"

theorem mail_conserved_race : ∃ s s',
    Runs.exec (stepPool fsCall) (start "u" raceJobs ⟨∅, []⟩) [(0, ()), (0, ()), (0, ()), (1, ())] = some s ∧
    Runs.exec (stepPool fsCall) s [(2, ()), (1, ()), (2, ()), (1, ()), (2, ()), (2, ()), (1, ())] = some s' ∧
    ∃! j, raceJobs j = .ack raceMessage.id ∧ Succeeded s' j := by
  have hzero : ∀ i x, (raceJobs i).sends x → i = 0
    | 0, _, _ => rfl
    | 1, _, h => h.elim
    | 2, _, h => h.elim
  have hids : ∀ i j x, (raceJobs i).sends x → (raceJobs j).sends x → i = j :=
    fun i j x hi hj => (hzero i x hi).trans (hzero j x hj).symm
  have hempty : ∀ x, mailbox "u" ⟨∅, []⟩ x = (none, none) := by
    intro x
    by_cases h : safeId "u" ∧ safeId x
    · rw [mailbox_safe h.1 h.2]; rfl
    · exact mailbox_of_not_safe h
  have hends : ((Runs.exec (stepPool fsCall) (start "u" raceJobs ⟨∅, []⟩) [(0, ()), (0, ()), (0, ()), (1, ())]).bind
      fun s => (Runs.exec (stepPool fsCall) s [(2, ()), (1, ()), (2, ()), (1, ()), (2, ()), (2, ()), (1, ())]).map
        fun s' => ((s.2 0).returned, (s.2 1).done, (s'.2 1).done)) = some (true, false, true) := by
    decide +kernel
  obtain ⟨s, hs, hends⟩ := Option.bind_eq_some_iff.mp hends
  obtain ⟨s', hs', hends⟩ := Option.map_eq_some_iff.mp hends
  simp only [Prod.mk.injEq] at hends
  obtain ⟨hsent, hnd, hdone⟩ := hends
  refine ⟨s, s', hs, hs', ?_⟩
  refine (mail_conserved hids hempty hs hs').2.2.1 raceMessage 1
    ⟨0, 7, 0, rfl, Prog.returned_iff.mp hsent⟩ rfl hnd hdone ?_
  rintro ⟨i, hi, -⟩
  match i, hi with
  | 0, hi => cases hi
  | 1, hi => cases hi
  | 2, hi => cases hi

end Cyberlegion.Mail
