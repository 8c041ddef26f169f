import Cyberlegion.Listing
import Cyberlegion.ConsumingRuns

/-!
# Runs of one listing with sends and acks

The sends and acks stay within what the listing relies on as long as no message that the
listing saw unread is moved before it looks into the read folder.
-/

namespace Cyberlegion.Listing

open Effects FileStore Mail Consume

inductive Job
  | list
  | send (pid n : Nat) (msg : Message)
  | ack (msgId : String)

abbrev Answer := InboxSnapshot ⊕ Option Message

def Job.prog (box : String) : Job → FsM Answer
  | .list => .inl <$> listInbox box
  | .send pid n msg => .inr <$> (Mail.Job.send pid n msg).prog box
  | .ack msgId => .inr <$> (Mail.Job.ack msgId).prog box

def Job.sends : Job → String → Prop
  | .send _ _ msg, x => msg.id = x
  | _, _ => False

/-- What an operation other than the listing relies on. -/
structure Others (box : String) (J : Job) (s t : Shared) : Prop where
  tmp : KeepsTmp box J.sends s.1 t.1
  fresh : ∀ x, J.sends x → slot box s.1 x = (none, none) → slot box t.1 x = (none, none)
  kept : Kept box s.1 → Kept box t.1

structure Does (box : String) (J : Job) (s t : Shared) : Prop where
  tmp : KeepsTmp box (fun x => ¬J.sends x) s.1 t.1
  fresh : ∀ x, ¬J.sends x → slot box s.1 x = (none, none) → slot box t.1 x = (none, none)
  passes : Passes box s t

def other (box : String) (J : Job) : Task Shared Answer StoreError where
  rely := Others box J
  guar := Does box J
  quiet _ _ := True
  commit _ _ _ := False
  idle _ _ := True
  fails _ _ := True

/-- The operations as tasks; `fs` are the files before the listing. -/
def task (box : String) (fs : Fs) : Job → Task Shared Answer StoreError
  | .list => (listing box fs).answers .inl
  | J => other box J

section
variable {box x : String} {s t u : Shared} {J : Job} {fs : Fs} {msg : Message} {pid n : Nat}

/-! ## The operations -/

theorem Others.refl : Others box J s s := ⟨KeepsTmp.refl, fun _ _ h => h, id⟩

theorem Others.trans (h : Others box J s t) (h' : Others box J t u) : Others box J s u :=
  ⟨h.tmp.trans h'.tmp, fun x hx hs => h'.fresh x hx (h.fresh x hx hs), fun hk => h'.kept (h.kept hk)⟩

theorem passes_same (hlooks : u.2 = t.2) (hslot : slot box u.1 = slot box t.1) (hdirs : ∀ d ∈ t.1.dirs, d ∈ u.1.dirs)
    (hnew : ∀ d ∈ u.1.dirs, d ∈ t.1.dirs ∨ ∀ x, d ≠ unreadPath box x ∧ d ≠ readPath box x)
    (hfiles : u.1.files.lookup (inboxOf box) = t.1.files.lookup (inboxOf box) ∧
      u.1.files.lookup (readOf box) = t.1.files.lookup (readOf box)) : Passes box t u where
  looks := hlooks
  dirs := hdirs
  slots x := by rw [hslot]; exact .same _
  kept hk := by
    refine ⟨⟨?_, ?_, ?_, hfiles.1.trans hk.noFile.1, hfiles.2.trans hk.noFile.2⟩, fun d hd x => ?_⟩
    · rw [hslot]; exact hk.filed
    · rw [hslot]; exact fun y hy => hdirs _ (hk.inboxDir y hy)
    · rw [hslot]; exact fun y hy => hdirs _ (hk.readDir y hy)
    · exact (hnew d hd).elim (fun hd => hk.noDir d hd x) fun h => h x
  steady _ _ _ x _ h := by rw [hslot]; exact h

theorem does_same (hpasses : Passes box t u) (hslot : slot box u.1 = slot box t.1)
    (htmp : KeepsTmp box (fun x => ¬J.sends x) t.1 u.1) : Does box J t u :=
  ⟨htmp, fun x _ h => by rw [hslot]; exact h, hpasses⟩

theorem does_refl : Does box J t t := does_same Passes.refl rfl KeepsTmp.refl

theorem does_mkdir {p : Path} (hp : p <+: readOf box) :
    Does box J t ({ t.1 with dirs := p.inits ++ t.1.dirs }, t.2) := by
  refine does_same (passes_same rfl rfl (fun d hd => List.mem_append_right _ hd) (fun d hd => ?_) ⟨rfl, rfl⟩) rfl
    ⟨fun d hd => List.mem_append_right _ hd, fun _ _ _ _ => rfl⟩
  refine (List.mem_append.mp hd).symm.imp_right fun hd x => ?_
  have hinit : d <+: readOf box := ((List.mem_inits d p).mp hd).trans hp
  constructor
  · rintro rfl
    obtain ⟨rest, hrest⟩ := hinit
    simp only [unreadPath, readOf, List.cons_append, List.nil_append, List.cons.injEq, Seg.name.injEq,
      true_and] at hrest
    exact json_ne_read x hrest.1
  · rintro rfl
    have := hinit.length_le
    simp [readPath, readOf] at this

theorem slot_insert_tmp {c : Content} :
    slot box { t.1 with files := t.1.files.insert (tmpPath box x pid n) c } = slot box t.1 := by
  funext y
  simp [slot]

theorem does_write {c : Content} (hJ : J.sends x) :
    Does box J t ({ t.1 with files := t.1.files.insert (tmpPath box x pid n) c }, t.2) := by
  refine does_same (passes_same rfl slot_insert_tmp (fun _ h => h) (fun _ h => .inl h) ⟨?_, ?_⟩) slot_insert_tmp
    ⟨fun _ h => h, fun y hy pid' n' => ?_⟩
  · exact AList.lookup_insert_ne (by simp [tmpPath])
  · exact AList.lookup_insert_ne (by simp [tmpPath])
  · refine AList.lookup_insert_ne (tmpPath_ne ?_)
    rintro rfl
    exact hy hJ

theorem does_deliver (hJ : J = .send pid n msg) (hb : safeId box) (hx : safeId msg.id)
    (hdir : inboxOf box ∈ t.1.dirs) (hfresh : slot box t.1 msg.id = (none, none)) :
    Does box J t
      ({ t.1 with files :=
          (t.1.files.erase (tmpPath box msg.id pid n)).insert (unreadPath box msg.id) (.message msg) },
        t.2) := by
  have hsends : ∀ y, J.sends y ↔ msg.id = y := by
    intro y
    rw [hJ]
    rfl
  have hslot : slot box
      { t.1 with files :=
          (t.1.files.erase (tmpPath box msg.id pid n)).insert (unreadPath box msg.id) (.message msg) } =
      Function.update (slot box t.1) msg.id (some (.message msg), none) := by
    funext y
    by_cases hy : y = msg.id
    · subst hy
      have hread : t.1.files.lookup (readPath box msg.id) = none := (Prod.mk.inj hfresh).2
      simp [slot, hread]
    · rw [Function.update_of_ne hy]
      simp [slot, hy]
  refine ⟨⟨fun _ h => h, fun y hy pid' n' => ?_⟩, fun y hy h => ?_,
    ⟨rfl, fun _ h => h, fun y => ?_, fun hk => ?_, ?_⟩⟩
  · show ((t.1.files.erase _).insert _ _).lookup _ = _
    rw [AList.lookup_insert_ne tmpPath_ne_unreadPath]
    refine AList.lookup_erase_ne (tmpPath_ne ?_)
    rintro rfl
    exact hy ((hsends _).mpr rfl)
  · show slot box _ y = _
    rw [hslot, Function.update_of_ne fun h => hy ((hsends y).mpr h.symm)]
    exact h
  · show Moves _ (slot box _ y)
    rw [hslot]
    by_cases hy : y = msg.id
    · subst hy
      rw [hfresh]
      exact .arrives _
    · rw [Function.update_of_ne hy]; exact .same _
  · -- the temporary file goes first, then the message file is written
    have herase : Kept box { t.1 with files := t.1.files.erase (tmpPath box msg.id pid n) } := by
      refine (passes_same (t := t) (u := ({ t.1 with files := t.1.files.erase (tmpPath box msg.id pid n) }, t.2)) rfl ?_
        (fun _ h => h) (fun _ h => .inl h) ⟨?_, ?_⟩).kept hk
      · funext y
        simp [slot]
      · exact AList.lookup_erase_ne (by simp [tmpPath])
      · exact AList.lookup_erase_ne (by simp [tmpPath])
    refine ⟨herase.toMailbox.update (x := msg.id) (q := (some (.message msg), none)) (fun _ h => h) ?_
      (.unread msg rfl hb hx)
      (fun _ => hdir) (fun h => absurd rfl h) (fun p hp _ => ?_), hk.noDir⟩
    · rw [hslot]
      funext y
      by_cases hy : y = msg.id
      · subst hy; rw [Function.update_self, Function.update_self]
      · rw [Function.update_of_ne hy, Function.update_of_ne hy]
        simp [slot]
    · exact AList.lookup_insert_ne (hp msg.id)
  · intro seen _ _ y hseen hsame
    show slot box _ y = _
    rw [hslot]
    by_cases hy : y = msg.id
    · subst hy
      rw [hfresh] at hsame
      rw [← hsame] at hseen
      exact absurd rfl hseen
    · rw [Function.update_of_ne hy]
      exact hsame

theorem does_take (hslot : slot box t.1 msg.id = (some (.message msg), none))
    (hdir : readOf box ∈ t.1.dirs)
    (hsteady : Steady (.renameSync (unreadPath box msg.id) (readPath box msg.id)) t = true) :
    Does box J t
      ({ t.1 with files :=
          (t.1.files.erase (unreadPath box msg.id)).insert (readPath box msg.id) (.message msg) },
        t.2) := by
  obtain ⟨hon, -, htakes⟩ := onward_take hslot hdir rfl
  have hne : ∀ y, slot box t.1 y = (none, none) → y ≠ msg.id := by
    rintro y hy rfl
    rw [hslot] at hy
    cases hy
  refine ⟨⟨fun _ h => h, fun y hy pid' n' => ?_⟩, fun y _ h => ?_,
    ⟨rfl, fun _ h => h, fun y => ?_, fun hk => ?_, ?_⟩⟩
  · show ((t.1.files.erase _).insert _ _).lookup _ = _
    rw [AList.lookup_insert_ne tmpPath_ne_readPath, AList.lookup_erase_ne tmpPath_ne_unreadPath]
  · show slot box _ y = _
    rw [htakes, Function.update_of_ne (hne y h)]
    exact h
  · show Moves _ (slot box _ y)
    rw [htakes]
    by_cases hy : y = msg.id
    · subst hy
      rw [hslot, Function.update_self]
      exact .taken _
    · rw [Function.update_of_ne hy]; exact .same _
  · exact ⟨hon.mailbox hk.toMailbox, hk.noDir⟩
  · intro seen hseen hread y hy hsame
    show slot box _ y = _
    rw [htakes]
    by_cases hid : y = msg.id
    · subst hid
      have hjson : isMessageFile (unreadPath box msg.id) = true := endsWith_json.mpr ⟨msg.id, rfl⟩
      rw [Steady, hseen, hread] at hsteady
      simp only [Option.isSome_none, Option.all_some, hjson, Bool.not_true, Bool.false_or,
        Option.isNone_iff_eq_none] at hsteady
      exact absurd hsteady hy
    · rw [Function.update_of_ne hid]
      exact hsame

/-! ## Each operation is ready -/

abbrev Calm : FsCall → Shared → Prop := fun op s => Steady op s = true

theorem ready_list (hkept : Kept box s.1) (hlooks : s.2 = ⟨none, none⟩) :
    Ready (look box) Calm (task box s.1 .list) (Job.list.prog box) s := by
  exact (ready_listInbox hkept hlooks).answers

theorem ready_other {op : FsCall} {k : op.Res → FsM Answer}
    (hlooks : ∀ t : Shared, t.2.after box t.1 op = t.2)
    (hk : ∀ t, Others box J s t → Calm op t → ∀ r v, fsCall op () t.1 = some (r, v) →
      Does box J t (v, t.2) ∧ Ready (look box) Calm (other box J) (k r) (v, t.2)) :
    Ready (look box) Calm (other box J) (.call op k) s := by
  refine ready_call fun t hst hA c r u hr => ?_
  obtain ⟨⟨r', v⟩, hop, heq⟩ := Option.map_eq_some_iff.mp hr
  cases heq
  obtain ⟨hdoes, hready⟩ := hk t hst hA _ v hop
  rw [hlooks]
  exact ⟨hdoes, trivial, hready⟩

theorem ready_send (hfresh : slot box s.1 msg.id = (none, none)) :
    Ready (look box) Calm (task box fs (.send pid n msg)) ((Job.send pid n msg).prog box) s := by
  by_cases hsafe : safeId box ∧ safeId msg.id
  · have hJ : Job.send pid n msg ≠ .list := nofun
    have hsends : (Job.send pid n msg).sends msg.id := rfl
    rw [Job.prog, map_eq_pure_bind, send_prog hsafe.1 hsafe.2]
    refine ready_other (fun _ => rfl) fun t₁ h₁ _ r v hr => ?_
    cases hr
    refine ⟨does_mkdir ⟨[.name "read"], rfl⟩, ready_other (fun _ => rfl) fun t₂ h₂ _ written v hw => ?_⟩
    have hdir₂ : inboxOf box ∈ t₂.1.dirs :=
      h₂.tmp.1 _ (List.mem_append_left _ ((List.mem_inits _ _).mpr List.prefix_rfl))
    have hwrite : dirname (tmpPath box msg.id pid n) ∈ t₂.1.dirs := hdir₂
    simp only [fsCall, hwrite, if_true] at hw
    cases hw
    refine ⟨does_write hsends, ready_other (fun _ => rfl) fun t₃ h₃ _ renamed v hr => ?_⟩
    have htmp : t₃.1.files.lookup (tmpPath box msg.id pid n) = some (.message msg) := by
      rw [h₃.tmp.2 msg.id rfl]
      exact AList.lookup_insert _
    have hdir₃ : dirname (unreadPath box msg.id) ∈ t₃.1.dirs := h₃.tmp.1 _ hdir₂
    have hfresh₂ := h₂.fresh msg.id rfl (h₁.fresh msg.id rfl hfresh)
    have hfresh₃ : slot box t₃.1 msg.id = (none, none) := by
      refine h₃.fresh msg.id rfl ?_
      show slot box { t₂.1 with files := _ } msg.id = _
      rw [slot_insert_tmp]
      exact hfresh₂
    simp only [fsCall, htmp, hdir₃, if_true] at hr
    cases hr
    exact ⟨does_deliver rfl hsafe.1 hsafe.2 hdir₃ hfresh₃, trivial⟩
  · obtain ⟨e, he⟩ : ∃ e, (Mail.Job.send pid n msg).prog box = .throw e := done_of_not_safe hsafe
    rw [Job.prog, he]
    exact trivial

theorem ready_ack (hkept : Kept box s.1) : Ready (look box) Calm (task box fs (.ack x)) ((Job.ack x).prog box) s := by
  by_cases hsafe : safeId box ∧ safeId x
  · have hafter : ∀ t : Shared, t.2.after box t.1 (.existsSync (unreadPath box x)) = t.2 := by
      intro t
      unfold Looks.after Looks.saw
      simp [unreadPath, json_ne_read]
    rw [Job.prog, map_eq_pure_bind, ack_prog hsafe.1 hsafe.2]
    refine ready_other hafter fun t₁ h₁ _ found v hr => ?_
    cases hr
    refine ⟨does_refl, ?_⟩
    by_cases hfound : ((t₁.1.files.lookup (unreadPath box x)).isSome || decide (unreadPath box x ∈ t₁.1.dirs)) = true
    · rw [hfound]
      refine ready_other (fun _ => rfl) fun t₂ h₂ _ text v hr => ?_
      cases hr
      refine ⟨does_refl, ?_⟩
      have hkept₂ := h₂.kept (h₁.kept hkept)
      cases hc : t₂.1.files.lookup (unreadPath box x) with
      | none => exact trivial
      | some c =>
        obtain ⟨m, rfl, rfl, -⟩ := hkept₂.unread (x := x) hc
        refine ready_other (fun _ => rfl) fun t₃ h₃ _ r v hr => ?_
        cases hr
        refine ⟨does_mkdir List.prefix_rfl, ready_other (fun _ => rfl) fun t₄ h₄ hA renamed v hr => ?_⟩
        have hkept₄ := h₄.kept ((does_mkdir (J := .ack m.id) List.prefix_rfl).passes.kept (h₃.kept hkept₂))
        have hdir₄ : dirname (readPath box m.id) ∈ t₄.1.dirs :=
          h₄.tmp.1 _ (List.mem_append_left _ ((List.mem_inits _ _).mpr List.prefix_rfl))
        cases hc₄ : t₄.1.files.lookup (unreadPath box m.id) with
        | none =>
          simp only [fsCall, hc₄] at hr
          cases hr
          exact ⟨does_refl, trivial⟩
        | some c₄ =>
          obtain ⟨m', hid, rfl, hslot, -⟩ := hkept₄.unread (x := m.id) hc₄
          simp only [fsCall, hc₄, hdir₄, if_true] at hr
          cases hr
          rw [← hid] at hslot hA ⊢
          exact ⟨does_take hslot hdir₄ hA, trivial⟩
    · rw [Bool.eq_false_iff.mpr hfound]
      exact trivial
  · obtain ⟨e, he⟩ : ∃ e, (Mail.Job.ack x).prog box = .throw e := done_of_not_safe hsafe
    rw [Job.prog, he]
    exact trivial

end

/-! ## Runs -/

abbrev St (ι : Type) := Shared × (ι → FsM Answer)

section
variable {ι : Type} {box : String} {jobs : ι → Job} {fs : Fs} {s t : St ι} {e : ι × Unit} {es es' : List (ι × Unit)}

def start (box : String) (jobs : ι → Job) (fs : Fs) : St ι := ((fs, {}), fun i => (jobs i).prog box)

/-- The listing has returned what it promises, if it has ended. -/
def Returned (box : String) (fs : Fs) (p : FsM Answer) : Prop :=
  p.done = true → ∃ snap, p = .ret (.inl snap) ∧ Lists box fs snap

structure Inv (box : String) (jobs : ι → Job) (fs : Fs) (s : St ι) : Prop where
  ready : PoolReady (look box) (fun _ => Calm) (fun i => task box fs (jobs i)) s
  kept : Kept box s.1.1
  returned : ∀ i, jobs i = .list → Returned box fs (s.2 i)

theorem task_other {J : Job} (hJ : J ≠ .list) : task box fs J = other box J := by
  cases J with
  | list => exact absurd rfl hJ
  | send | ack => rfl

theorem task_refl {J : Job} (s : Shared) : (task box fs J).rely s s := by
  cases J with
  | list => exact Passes.refl
  | send | ack => exact Others.refl

theorem task_trans {J : Job} {s t u : Shared} (h : (task box fs J).rely s t) (h' : (task box fs J).rely t u) :
    (task box fs J).rely s u := by
  cases J with
  | list => exact Passes.trans h h'
  | send | ack => exact Others.trans h h'

theorem task_others (hone : ∀ i j, jobs i = .list → jobs j = .list → i = j)
    (hids : ∀ i j x, (jobs i).sends x → (jobs j).sends x → i = j) {i j : ι} (hij : i ≠ j) {s t : Shared}
    (h : (task box fs (jobs j)).guar s t) : (task box fs (jobs i)).rely s t := by
  by_cases hj : jobs j = .list
  · have hi : jobs i ≠ .list := fun hi => hij (hone i j hi hj)
    rw [hj] at h
    rw [task_other hi]
    have hfs : t.1 = s.1 := h
    refine ⟨?_, fun x _ hx => ?_, fun hk => ?_⟩
    · rw [hfs]; exact KeepsTmp.refl
    · rw [hfs]; exact hx
    · rw [hfs]; exact hk
  · rw [task_other hj] at h
    have hdoes : Does box (jobs j) s t := h
    by_cases hi : jobs i = .list
    · rw [hi]
      exact hdoes.passes
    · rw [task_other hi]
      have hnot : ∀ x, (jobs i).sends x → ¬(jobs j).sends x := fun x hx hx' => hij (hids i j x hx hx')
      exact ⟨⟨hdoes.tmp.1, fun x hx => hdoes.tmp.2 x (hnot x hx)⟩, fun x hx => hdoes.fresh x (hnot x hx),
        hdoes.passes.kept⟩

theorem returned_of_ready {p : FsM Answer} {s : Shared} (h : Ready (look box) Calm (task box fs .list) p s) :
    Returned box fs p := by
  intro hdone
  cases p with
  | ret r =>
    obtain ⟨snap, rfl, hsnap⟩ := h
    exact ⟨snap, rfl, hsnap⟩
  | throw e => exact h.elim
  | call op k => cases hdone

variable [DecidableEq ι]

theorem Inv.step (hone : ∀ i j, jobs i = .list → jobs j = .list → i = j)
    (hids : ∀ i j x, (jobs i).sends x → (jobs j).sends x → i = j) (h : Inv box jobs fs s)
    (hcalm : Permits (fun _ => Calm) s e) (hst : stepPool (look box) s e = some t) :
    Inv box jobs fs t ∧ (task box fs (jobs e.1)).guar s.1 t.1 ∧ ∀ i, i ≠ e.1 → t.2 i = s.2 i := by
  obtain ⟨hready, -, hother, hguar, hout⟩ := h.ready.step (fun _ => task_refl) (fun _ _ _ _ => task_trans)
    (fun _ _ _ _ hij => task_others hone hids hij) hcalm hst
  refine ⟨⟨hready, ?_, fun i hi => ?_⟩, hguar, hother⟩
  · by_cases hlist : jobs e.1 = .list
    · rw [hlist] at hguar
      have hfs : t.1.1 = s.1.1 := hguar
      rw [hfs]
      exact h.kept
    · rw [task_other hlist] at hguar
      exact (show Does box (jobs e.1) s.1 t.1 from hguar).passes.kept h.kept
  · by_cases hie : i = e.1
    · subst hie
      rw [hi] at hout
      intro hdone
      generalize t.2 e.1 = p at hout hdone
      cases hout with
      | commit a hc => obtain ⟨_, _, hfalse⟩ := hc; exact hfalse.elim
      | idle a _ hidle => obtain ⟨snap, rfl, hsnap⟩ := hidle; exact ⟨snap, rfl, hsnap⟩
      | fail x _ hf => exact hf.elim
      | going op k _ => cases hdone
    · rw [hother i hie]
      exact h.returned i hi

/-- Before the listing's first call. -/
structure Before (box : String) (jobs : ι → Job) (s : St ι) : Prop where
  inv : Inv box jobs s.1.1 s
  looks : s.1.2 = {}
  unbegun : ∀ i, jobs i = .list → s.2 i = Job.list.prog box

omit [DecidableEq ι] in
theorem before_of_inv (h : Inv box jobs fs s) (hlooks : s.1.2 = {})
    (hunbegun : ∀ i, jobs i = .list → s.2 i = Job.list.prog box) :
    Before box jobs s := by
  have hready : Ready (look box) Calm (task box s.1.1 .list) (Job.list.prog box) s.1 := ready_list h.kept hlooks
  refine ⟨⟨fun i => ?_, h.kept, fun i hi => ?_⟩, hlooks, hunbegun⟩
  · show _ ∨ Ready (look box) Calm (task box s.1.1 (jobs i)) (s.2 i) s.1
    by_cases hi : jobs i = .list
    · rw [hi, hunbegun i hi]
      exact .inr hready
    · have hold : _ ∨ Ready (look box) Calm (task box fs (jobs i)) (s.2 i) s.1 := h.ready i
      rw [task_other hi] at hold ⊢
      exact hold
  · rw [hunbegun i hi]
    exact returned_of_ready hready

omit [DecidableEq ι] in
theorem Before.start (hkept : Kept box fs) (hfresh : ∀ i x, (jobs i).sends x → slot box fs x = (none, none)) :
    Before box jobs (start box jobs fs) := by
  have hready : ∀ i, Ready (look box) Calm (task box fs (jobs i)) ((jobs i).prog box) (fs, {}) := by
    intro i
    cases hj : jobs i with
    | list => exact @ready_list box (fs, {}) hkept rfl
    | send pid n msg => exact ready_send (hfresh i msg.id (by rw [hj]; exact rfl))
    | ack x => exact @ready_ack box x (fs, {}) fs hkept
  refine ⟨⟨fun i => .inr (hready i), hkept, fun i hi => ?_⟩, rfl, fun i hi => ?_⟩
  · have hi' := hready i
    rw [hi] at hi'
    show Returned box fs ((jobs i).prog box)
    rw [hi]
    exact returned_of_ready hi'
  · show (jobs i).prog box = _
    rw [hi]

theorem Before.step (hone : ∀ i j, jobs i = .list → jobs j = .list → i = j)
    (hids : ∀ i j x, (jobs i).sends x → (jobs j).sends x → i = j) (h : Before box jobs s) (hnot : jobs e.1 ≠ .list)
    (hcalm : Permits (fun _ => Calm) s e) (hst : stepPool (look box) s e = some t) : Before box jobs t := by
  obtain ⟨hinv, hguar, hother⟩ := h.inv.step hone hids hcalm hst
  rw [task_other hnot] at hguar
  refine before_of_inv hinv ((show Does box (jobs e.1) s.1 t.1 from hguar).passes.looks.trans h.looks) fun i hi => ?_
  have hie : i ≠ e.1 := by
    rintro rfl
    exact hnot hi
  rw [hother i hie]
  exact h.unbegun i hi

/-- In a run in which no ack moves a message that the listing saw unread before the listing
looks into the read folder, the listing returns, with every message that was in the mailbox
when it began, and none twice. -/
theorem listing_consistent (hone : ∀ i j, jobs i = .list → jobs j = .list → i = j)
    (hids : ∀ i j x, (jobs i).sends x → (jobs j).sends x → i = j) (hkept : Kept box fs)
    (hfresh : ∀ i x, (jobs i).sends x → slot box fs x = (none, none))
    (hcalm : Runs.AllSteps (stepPool (look box)) (Permits fun _ => Calm) (start box jobs fs) (es ++ es'))
    (hbefore : ∀ e ∈ es, jobs e.1 ≠ .list) (hrun : Runs.exec (stepPool (look box)) (start box jobs fs) es = some s)
    (hrun' : Runs.exec (stepPool (look box)) s es' = some t) :
    ∀ i, jobs i = .list → (t.2 i).done = true → ∃ snap, t.2 i = .ret (.inl snap) ∧
      ((snap.unread ++ snap.read).map (·.id)).Nodup ∧
      ∀ m, Held box s.1.1 m → (snap.unread ++ snap.read).count m = 1 := by
  obtain ⟨hcalm₁, hcalm₂⟩ := hcalm.split hrun
  have hs : Before box jobs s := by
    have hsteps : Runs.AllSteps (stepPool (look box)) (fun s e => Permits (fun _ => Calm) s e ∧ jobs e.1 ≠ .list)
        (start box jobs fs) es := hcalm₁.and (Runs.allSteps_of_forall hbefore)
    exact Runs.exec_inv_of (fun _ _ _ h hA hst => h.step hone hids hA.2 hA.1 hst)
      (Before.start hkept hfresh) hsteps hrun
  have ht : Inv box jobs s.1.1 t :=
    Runs.exec_inv_of (fun _ _ _ h hA hst => (h.step hone hids hA hst).1) hs.inv hcalm₂ hrun'
  intro i hi hdone
  obtain ⟨snap, hsnap, hlists⟩ := ht.returned i hi hdone
  refine ⟨snap, hsnap, hlists.once, fun m hm => ?_⟩
  exact List.count_eq_one_of_mem (List.Nodup.of_map _ hlists.once) (hlists.all m hm)

end

/-! ## A listing and an ack -/

def listAndAck : Bool → Job
  | true => .list
  | false => .ack "1-ab"

theorem kept_mailFs : Kept "u" mailFs := by
  refine ⟨mailbox_mailFs, fun d hd x => ?_⟩
  have hlength : d.length < 3 := by
    revert d
    decide
  constructor
  · rintro rfl
    exact absurd hlength (by simp [unreadPath])
  · rintro rfl
    exact absurd hlength (by simp [readPath])

def listed (p : FsM Answer) : Option Nat :=
  (p.value.bind Sum.getLeft?).map fun snap => (snap.unread ++ snap.read).count mail

theorem listing_consistent_late_ack :
    ∃ es s snap, Runs.exec (stepPool (look "u")) (start "u" listAndAck mailFs) es = some s ∧
    s.2 true = .ret (.inl snap) ∧ (snap.unread ++ snap.read).count mail = 1 := by
  have hcalm : Runs.AllSteps (stepPool (look "u")) (Permits fun _ => Calm) (start "u" listAndAck mailFs)
      ([] ++ [(true, ()), (true, ()), (false, ()), (false, ()), (false, ()), (true, ()), (true, ()),
        (true, ()), (false, ())]) := by
    decide +kernel
  have hends : (Runs.exec (stepPool (look "u")) (start "u" listAndAck mailFs)
      [(true, ()), (true, ()), (false, ()), (false, ()), (false, ()), (true, ()), (true, ()), (true, ()),
        (false, ())]).map (fun s => (s.2 true).done) = some true := by
    decide +kernel
  obtain ⟨s, hs, hdone⟩ := Option.map_eq_some_iff.mp hends
  have hone : ∀ i, listAndAck i = .list → i = true
    | true, _ => rfl
    | false, h => by cases h
  have hsends : ∀ i x, ¬(listAndAck i).sends x
    | true, _ => id
    | false, _ => id
  obtain ⟨snap, hsnap, -, hcount⟩ := listing_consistent (fun i j hi hj => (hone i hi).trans (hone j hj).symm)
    (fun i j x hi => absurd hi (hsends i x)) kept_mailFs (fun i x hi => absurd hi (hsends i x)) hcalm
    (fun e he => absurd he List.not_mem_nil) rfl hs true rfl hdone
  exact ⟨_, s, snap, hs, hsnap, hcount mail (.inl (by decide))⟩

/-- An ack between the listing's look into the unread folder and the rest: the listing throws,
or lists the message twice. -/
theorem listing_torn : Kept "u" mailFs ∧ Held "u" mailFs mail ∧
    (∃ es s err, Runs.exec (stepPool (look "u")) (start "u" listAndAck mailFs) es = some s ∧ s.2 true = .throw err) ∧
    ∃ es s snap, Runs.exec (stepPool (look "u")) (start "u" listAndAck mailFs) es = some s ∧
      s.2 true = .ret (.inl snap) ∧
      (snap.unread ++ snap.read).count mail = 2 := by
  have hthrows : (Runs.exec (stepPool (look "u")) (start "u" listAndAck mailFs)
      (List.replicate 2 (true, ()) ++ List.replicate 4 (false, ()) ++ [(true, ())])).map
        (fun s => ((s.2 true).done, (s.2 true).returned)) = some (true, false) := by
    decide +kernel
  have htwice : (Runs.exec (stepPool (look "u")) (start "u" listAndAck mailFs)
      (List.replicate 3 (true, ()) ++ List.replicate 4 (false, ()) ++ List.replicate 3 (true, ()))).bind
        (fun s => listed (s.2 true)) = some 2 := by
    decide +kernel
  refine ⟨kept_mailFs, .inl (by decide), ?_, ?_⟩
  · obtain ⟨s, hs, hends⟩ := Option.map_eq_some_iff.mp hthrows
    obtain ⟨hdone, hreturned⟩ := Prod.mk.inj hends
    cases hp : s.2 true with
    | ret => rw [hp] at hreturned; cases hreturned
    | throw err => exact ⟨_, s, err, hs, hp⟩
    | call => rw [hp] at hdone; cases hdone
  · obtain ⟨s, hs, hlisted⟩ := Option.bind_eq_some_iff.mp htwice
    obtain ⟨snap, hsnap, hcount⟩ := Option.map_eq_some_iff.mp hlisted
    obtain ⟨answer, hanswer, hleft⟩ := Option.bind_eq_some_iff.mp hsnap
    refine ⟨_, s, snap, hs, ?_, hcount⟩
    rw [Prog.value_eq_some.mp hanswer]
    cases answer with
    | inl snap' => cases hleft; rfl
    | inr _ => cases hleft

end Cyberlegion.Listing
