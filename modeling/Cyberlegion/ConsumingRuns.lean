import Cyberlegion.ConsumingSound

/-!
# Runs of consumers of one mailbox

As long as no message file is moved away between a verb's look at it and its use of it,
the verbs tolerate each other: no await fails, every `readAck` of a message that stays
returns it, one taker has it, and a removal removes it.
-/

namespace Cyberlegion.Consume

open Effects FileStore Mail

abbrev St (ι : Type) := Fs × (ι → FsM Result)

section
variable {ι : Type} {before : String → String → Bool} {box : String} {jobs : ι → Job}

def start (before : String → String → Bool) (box : String) (jobs : ι → Job) (fs : Fs) : St ι :=
  (fs, fun i => (jobs i).prog before box)

def Result.takes : Result → String → Prop
  | .read m taken, x => taken = true ∧ m.id = x
  | .awaited (some (.matched item)), x => item.message.id = x
  | .acked m, x => m.id = x
  | _, _ => False

def Took (s : St ι) (i : ι) (x : String) : Prop := ∃ r, s.2 i = .ret r ∧ r.takes x

def Removed (jobs : ι → Job) (s : St ι) (i : ι) (x : String) : Prop := jobs i = .remove x ∧ s.2 i = .ret .removed

/-- Every message file is where the step's verb found it. -/
def Undisturbed (box : String) (jobs : ι → Job) : St ι → ι × Unit → Prop := Permits fun i => Present box (jobs i)

structure Inv (box : String) (jobs : ι → Job) (s : St ι) : Prop where
  ready : PoolReady fsCall (fun i => Present box (jobs i)) (fun i => task box (jobs i)) s
  mailbox : Mailbox box s.1
  taken : ∀ i x, Took s i x → (slot box s.1 x).1 = none
  unique : ∀ i j x, Took s i x → Took s j x → i = j
  removed : ∀ i x, Removed jobs s i x → Gone box s.1 x
  awaits : ∀ i input now clock, jobs i = .await input now clock → ∀ e, s.2 i ≠ .throw e

theorem idle_not_takes {J : Job} {r : Result} {u : Fs} {x : String} (h : J.idles box r u) : ¬ r.takes x := by
  cases J with
  | readAck y =>
    obtain ⟨m, -, rfl, -⟩ := h
    exact fun ht => Bool.false_ne_true ht.1
  | await input now clock =>
    obtain ⟨o, rfl, ho⟩ := h
    intro ht
    match o, ht with
    | some (.matched item), _ => exact ho item rfl
  | ack y | remove y => exact h.elim

theorem Inv.start {fs : Fs} (hmail : Mailbox box fs) : Inv box jobs (start before box jobs fs) := by
  have hready : ∀ i, Ready fsCall (Present box (jobs i)) (task box (jobs i)) ((jobs i).prog before box) fs :=
    fun i => Consume.ready hmail (jobs i)
  have hnot : ∀ i x, ¬ Took (Consume.start before box jobs fs) i x := by
    rintro i x ⟨r, hr, ht⟩
    have hi := hready i
    rw [show (jobs i).prog before box = .ret r from hr] at hi
    exact idle_not_takes (J := jobs i) hi ht
  refine ⟨fun i => .inr (hready i), hmail, fun i x h => absurd h (hnot i x), fun i j x h => absurd h (hnot i x), ?_, ?_⟩
  · rintro i x ⟨hi, hr⟩
    have hidle := hready i
    rw [show (jobs i).prog before box = .ret .removed from hr, hi] at hidle
    exact hidle.elim
  · intro i input now clock hi err hr
    have hfails := hready i
    rw [show (jobs i).prog before box = .throw err from hr, hi] at hfails
    exact hfails.elim

variable [DecidableEq ι] {s t : St ι} {e : ι × Unit}

/-- What a step does: one job's outcome, with everything else as it was. -/
structure Stepped (box : String) (jobs : ι → Job) (s t : St ι) (i : ι) : Prop where
  going : (s.2 i).done = false
  other : ∀ j, j ≠ i → t.2 j = s.2 j
  onward : Onward box s.1 t.1
  outcome : Outcome (task box (jobs i)) s.1 t.1 (t.2 i)

theorem Inv.stepped (h : Inv box jobs s) (hA : Undisturbed box jobs s e) (hst : stepPool fsCall s e = some t) :
    PoolReady fsCall (fun i => Present box (jobs i)) (fun i => task box (jobs i)) t ∧ Stepped box jobs s t e.1 := by
  obtain ⟨hready, hnd, hother, hon, hout⟩ := h.ready.step (fun _ _ => Onward.refl)
    (fun _ _ _ _ h h' => Onward.trans h h') (fun _ _ _ _ _ h => h) hA hst
  exact ⟨hready, hnd, hother, hon, hout⟩

theorem commit_cases {J : Job} {r : Result} {t u : Fs} (h : J.commits box r t u) :
    (∃ m, Takes box m t u ∧ (∀ x, r.takes x → m.id = x) ∧ r ≠ .removed) ∨
      ∃ x, J = .remove x ∧ r = .removed ∧ Removes box x t u := by
  cases J with
  | readAck x =>
    obtain ⟨m, -, rfl, ht⟩ := h
    exact .inl ⟨m, ht, fun x hx => hx.2, fun h => by cases h⟩
  | await input now clock =>
    obtain ⟨item, rfl, ht⟩ := h
    exact .inl ⟨item.message, ht, fun x hx => hx, fun h => by cases h⟩
  | ack x =>
    obtain ⟨m, -, rfl, ht⟩ := h
    exact .inl ⟨m, ht, fun x hx => hx, fun h => by cases h⟩
  | remove x => exact .inr ⟨x, rfl, h.1, h.2⟩

omit [DecidableEq ι] in
theorem took_iff {i j : ι} (h : Stepped box jobs s t i) (hj : j ≠ i) {x : String} : Took t j x ↔ Took s j x := by
  rw [Took, Took, h.other j hj]

omit [DecidableEq ι] in
theorem Stepped.took {i : ι} (h : Stepped box jobs s t i) {x : String} (ht : Took t i x) :
    (slot box s.1 x).1 ≠ none ∧ (slot box t.1 x).1 = none := by
  obtain ⟨r, hr, hx⟩ := ht
  have hout := h.outcome
  rw [hr] at hout
  cases hout with
  | idle _ _ hi => exact absurd hx (idle_not_takes hi)
  | commit _ hc =>
    rcases commit_cases hc with ⟨m, htakes, hid, -⟩ | ⟨y, -, rfl, -⟩
    · obtain rfl := hid x hx
      rw [htakes.1, htakes.2, Function.update_self]
      exact ⟨Option.some_ne_none _, rfl⟩
    · exact hx.elim

theorem Inv.step (h : Inv box jobs s) (hA : Undisturbed box jobs s e) (hst : stepPool fsCall s e = some t) :
    Inv box jobs t := by
  obtain ⟨hready, hstep⟩ := h.stepped hA hst
  refine ⟨hready, hstep.onward.mailbox h.mailbox, fun i x ht => ?_, fun i j x hi hj => ?_, fun i x hr => ?_,
    fun i input now clock hi err herr => ?_⟩
  · by_cases hie : i = e.1
    · rw [hie] at ht
      exact (hstep.took ht).2
    · exact hstep.onward.not_unread (h.taken i x ((took_iff hstep hie).mp ht))
  · by_cases hie : i = e.1
    · by_cases hje : j = e.1
      · rw [hie, hje]
      · rw [hie] at hi
        exact absurd (h.taken j x ((took_iff hstep hje).mp hj)) (hstep.took hi).1
    · by_cases hje : j = e.1
      · rw [hje] at hj
        exact absurd (h.taken i x ((took_iff hstep hie).mp hi)) (hstep.took hj).1
      · exact h.unique i j x ((took_iff hstep hie).mp hi) ((took_iff hstep hje).mp hj)
  · by_cases hie : i = e.1
    · subst hie
      have hout := hstep.outcome
      rw [hr.2, hr.1] at hout
      cases hout with
      | idle _ _ hi => exact hi.elim
      | commit _ hc => exact (congrFun hc.2.2 x).trans (Function.update_self ..)
    · exact hstep.onward.gone (h.removed i x ⟨hr.1, (hstep.other i hie).symm.trans hr.2⟩)
  · by_cases hie : i = e.1
    · subst hie
      have hout := hstep.outcome
      rw [herr, hi] at hout
      cases hout with
      | fail _ _ hf => exact hf
    · exact h.awaits i input now clock hi err ((hstep.other i hie).symm.trans herr)

/-! ## One message, from a state in which it is in the mailbox -/

/-- How a `readAck` or a removal of the message ends. -/
def Finishes (m : Message) : Job → FsM Result → Prop
  | .readAck x, p => x = m.id → ∃ acked, p = .ret (.read m acked)
  | .remove x, p => x = m.id → p = .ret .removed
  | _, _ => True

structure Watched (box : String) (jobs : ι → Job) (m : Message) (i : ι) (s : St ι) : Prop extends Inv box jobs s where
  held : Held box s.1 m ∨ ∃ j, Removed jobs s j m.id
  ended : (s.2 i).done = true → Finishes m (jobs i) (s.2 i) ∨ Gone box s.1 m.id

omit [DecidableEq ι] in
theorem Stepped.not_gone {i : ι} (h : Stepped box jobs s t i) {m : Message} (hheld : Held box s.1 m)
    (hgone : Gone box t.1 m.id) : Removed jobs t i m.id := by
  have hne : slot box s.1 m.id ≠ (none, none) := by
    rcases hheld with h | h <;> rw [h] <;> simp
  have hquiet : slot box t.1 ≠ slot box s.1 := fun heq => hne (heq ▸ hgone)
  have hout := h.outcome
  generalize hp : t.2 i = p at hout
  cases hout with
  | idle _ hq _ | fail _ hq _ | going _ _ hq => exact absurd hq hquiet
  | commit r hc =>
    rcases commit_cases hc with ⟨m', htakes, -, -⟩ | ⟨x, hx, rfl, hremoves⟩
    · rw [Gone, htakes.2] at hgone
      by_cases hid : m.id = m'.id
      · rw [hid, Function.update_self] at hgone; cases hgone
      · rw [Function.update_of_ne hid] at hgone
        exact absurd hgone hne
    · rw [Gone, hremoves.2] at hgone
      by_cases hid : m.id = x
      · exact ⟨hx.trans (by rw [hid]), hp⟩
      · rw [Function.update_of_ne hid] at hgone
        exact absurd hgone hne

omit [DecidableEq ι] in
theorem Watched.held_or_gone {m : Message} {i : ι} (h : Watched box jobs m i s) : Held box s.1 m ∨ Gone box s.1 m.id :=
  h.held.imp_right fun ⟨j, hj⟩ => h.removed j m.id hj

theorem Watched.step {m : Message} {i : ι} (h : Watched box jobs m i s) (hA : Undisturbed box jobs s e)
    (hst : stepPool fsCall s e = some t) : Watched box jobs m i t := by
  obtain ⟨-, hstep⟩ := h.stepped hA hst
  have hon := hstep.onward
  refine ⟨h.toInv.step hA hst, ?_, fun hdone => ?_⟩
  · rcases h.held with hheld | ⟨j, hj, hr⟩
    · exact (hon.held hheld).imp_right fun hgone => ⟨e.1, hstep.not_gone hheld hgone⟩
    · refine .inr ⟨j, hj, (hstep.other j ?_).trans hr⟩
      rintro rfl
      have hnd := hstep.going
      rw [hr] at hnd; cases hnd
  · by_cases hie : i = e.1
    · subst hie
      have hout := hstep.outcome
      generalize hp : t.2 e.1 = p at hout
      rw [hp] at hdone
      have hheld := h.held_or_gone
      cases hj : jobs e.1 with
      | await | ack => exact .inl trivial
      | readAck x =>
        rw [hj] at hout
        by_cases hx : x = m.id
        · subst hx
          cases hout with
          | going => cases hdone
          | fail _ _ hf => exact .inr hf
          | commit _ hc =>
            obtain ⟨m', hid, rfl, htakes⟩ := hc
            obtain rfl := taken_eq hheld .refl (hid ▸ htakes.1)
            exact .inl fun _ => ⟨true, rfl⟩
          | idle _ _ hi =>
            obtain ⟨m', hid, rfl, hread | hgone⟩ := hi
            · rcases hheld.elim hon.held fun hg => .inr (hon.gone hg) with (hm | hm) | hm
              · rw [hread] at hm; cases hm
              · rw [hread] at hm; cases hm
                exact .inl fun _ => ⟨false, rfl⟩
              · exact .inr hm
            · exact .inr hgone
        · exact .inl fun h => absurd h hx
      | remove x =>
        rw [hj] at hout
        cases hout with
        | going => cases hdone
        | fail _ _ hf =>
          by_cases hx : x = m.id
          · subst hx; exact .inr hf
          · exact .inl fun h => absurd h hx
        | commit _ hc => exact .inl fun _ => by rw [hc.1]
        | idle _ _ hi => exact hi.elim
    · rw [hstep.other i hie] at hdone ⊢
      exact (h.ended hdone).imp_right hon.gone

/-- In a run undisturbed at every step: a `readAck` of a message that is in the mailbox
before it ends, and that nothing removes, returns it; a message has one taker, be it by
`readAck`, by an await or by an ack; no await fails; and a removal of a message in the
mailbox that no other removal gets removes it. -/
theorem consumers_tolerate {fs : Fs} {es es' : List (ι × Unit)} {s s' : St ι} (hmail : Mailbox box fs)
    (hcalm : Runs.AllSteps (stepPool fsCall) (Undisturbed box jobs) (start before box jobs fs) (es ++ es'))
    (hrun : Runs.exec (stepPool fsCall) (start before box jobs fs) es = some s)
    (hrun' : Runs.exec (stepPool fsCall) s es' = some s') :
    (∀ i m, jobs i = .readAck m.id → (s.2 i).done = false → Held box s.1 m → (s'.2 i).done = true →
      (∀ j, ¬ Removed jobs s' j m.id) → ∃ acked, s'.2 i = .ret (.read m acked)) ∧
    (∀ i j x, Took s' i x → Took s' j x → i = j) ∧
    (∀ i input now clock, jobs i = .await input now clock → ∀ err, s'.2 i ≠ .throw err) ∧
    (∀ i m, jobs i = .remove m.id → (s.2 i).done = false → Held box s.1 m → (s'.2 i).done = true →
      (∀ j, j ≠ i → ¬ Removed jobs s' j m.id) → s'.2 i = .ret .removed ∧ Gone box s'.1 m.id) := by
  obtain ⟨hcalm₁, hcalm₂⟩ := hcalm.split hrun
  have hinv : Inv box jobs s :=
    Runs.exec_inv_of (fun _ _ _ h hA hst => h.step hA hst) (Inv.start hmail) hcalm₁ hrun
  have hinv' : Inv box jobs s' := Runs.exec_inv_of (fun _ _ _ h hA hst => h.step hA hst) hinv hcalm₂ hrun'
  have hwatched : ∀ i m, (s.2 i).done = false → Held box s.1 m → Watched box jobs m i s' := by
    intro i m hnd hheld
    refine Runs.exec_inv_of (fun _ _ _ h hA hst => h.step hA hst) ⟨hinv, .inl hheld, fun hdone => ?_⟩ hcalm₂ hrun'
    rw [hnd] at hdone; cases hdone
  refine ⟨fun i m hi hnd hheld hdone hkept => ?_, hinv'.unique, hinv'.awaits, fun i m hi hnd hheld hdone hother => ?_⟩
  · have hw := hwatched i m hnd hheld
    have hfin := hw.ended hdone
    rw [hi] at hfin
    rcases hfin with hfin | hgone
    · exact hfin rfl
    · rcases hw.held with hm | ⟨j, hj⟩
      · rcases hm with hm | hm <;> rw [Gone, hm] at hgone <;> cases hgone
      · exact absurd hj (hkept j)
  · have hw := hwatched i m hnd hheld
    have hremoved : Removed jobs s' i m.id := by
      have hfin := hw.ended hdone
      rw [hi] at hfin
      rcases hfin with hfin | hgone
      · exact ⟨hi, hfin rfl⟩
      · rcases hw.held with hm | ⟨j, hj⟩
        · rcases hm with hm | hm <;> rw [Gone, hm] at hgone <;> cases hgone
        · by_cases hji : j = i
          · exact hji ▸ hj
          · exact absurd hj (hother j hji)
    exact ⟨hremoved.2, hinv'.removed i m.id hremoved⟩

end

/-! ## Runs on one message -/

instance {box : String} : ∀ {J : Job} {op : FsCall} {fs : Fs}, Decidable (Present box J op fs)
  | .readAck _, .existsSync p, fs | .await _ _ _, .existsSync p, fs =>
    inferInstanceAs (Decidable (isMessageFile p → (fs.files.lookup p).isSome))
  | .readAck _, .readFileSync p, fs | .await _ _ _, .readFileSync p, fs
  | .readAck _, .renameSync p _, fs | .await _ _ _, .renameSync p _, fs =>
    inferInstanceAs (Decidable ((fs.files.lookup p).isSome))
  | .remove x, .rmSync p, fs =>
    inferInstanceAs (Decidable (p = unreadPath box x → (fs.files.lookup p).isSome ∨
      fs.files.lookup (readPath box x) = none))
  | .readAck _, .readdirSync _, _ | .readAck _, .mkdirSync _, _ | .readAck _, .writeFileSync _ _, _
  | .readAck _, .rmSync _, _ | .await _ _ _, .readdirSync _, _ | .await _ _ _, .mkdirSync _, _
  | .await _ _ _, .writeFileSync _ _, _ | .await _ _ _, .rmSync _, _ | .ack _, _, _ | .remove _, .existsSync _, _
  | .remove _, .readdirSync _, _ | .remove _, .readFileSync _, _ | .remove _, .mkdirSync _, _
  | .remove _, .writeFileSync _ _, _ | .remove _, .renameSync _ _, _ => .isTrue trivial

instance {ι : Type} {box : String} {jobs : ι → Job} (s : St ι) (e : ι × Unit) : Decidable (Undisturbed box jobs s e) :=
  inferInstanceAs (Decidable (Permits _ s e))

def mail : Message :=
  { id := "1-ab", sender := "p", fromHandle := "peer", «to» := "u", body := "hi", thread := some "t",
    ts := 1, sentAt := "" }

def mailFs : Fs where
  files := (∅ : Table Path Content).insert (unreadPath "u" "1-ab") (.message mail)
  dirs := [[], [.name "inbox"], [.name "inbox", .name "u"]]

theorem mailbox_mailFs : Mailbox "u" mailFs := by
  have hslot : ∀ x, slot "u" mailFs x = if x = "1-ab" then (some (.message mail), none) else (none, none) := by
    intro x
    by_cases hx : x = "1-ab"
    · subst hx; rfl
    · have hne : unreadPath "u" x ≠ unreadPath "u" "1-ab" := fun h => hx (unreadPath_inj.mp h)
      rw [if_neg hx, slot, mailFs, Table.lookup_insert_eq, if_neg hne, Table.lookup_insert_eq,
        if_neg readPath_ne_unreadPath]
      rfl
  refine ⟨fun x => ?_, fun x _ => by decide, fun x hne => ?_, by decide, by decide⟩
  · rw [hslot]
    by_cases hx : x = "1-ab"
    · rw [if_pos hx, hx]; exact .unread mail rfl (by decide) (by decide)
    · rw [if_neg hx]; exact .gone
  · rw [hslot] at hne
    by_cases hx : x = "1-ab" <;> simp [hx] at hne

def asc (_ _ : String) : Bool := true

theorem consumers_tolerate_twice : ∃ s', ∃ acked,
    Runs.exec (stepPool fsCall) (start asc "u" (fun _ : Bool => Job.readAck "1-ab") mailFs)
      (List.replicate 8 (false, ()) ++ List.replicate 5 (true, ())) = some s' ∧ s'.2 true = .ret
      (.read mail acked) := by
  have hcalm : Runs.AllSteps (stepPool fsCall) (Undisturbed "u" fun _ : Bool => Job.readAck "1-ab")
      (start asc "u" (fun _ : Bool => Job.readAck "1-ab") mailFs)
      ([] ++ (List.replicate 8 (false, ()) ++ List.replicate 5 (true, ()))) := by decide +kernel
  have hends : (Runs.exec (stepPool fsCall) (start asc "u" (fun _ : Bool => Job.readAck "1-ab") mailFs)
      (List.replicate 8 (false, ()) ++ List.replicate 5 (true, ()))).map (fun s' => (s'.2 true).done) = some true := by
    decide +kernel
  obtain ⟨s', hs', hdone⟩ := Option.map_eq_some_iff.mp hends
  obtain ⟨acked, hread⟩ := (consumers_tolerate mailbox_mailFs hcalm rfl hs').1 true mail rfl (by decide +kernel)
    (.inl (by decide)) hdone (by rintro j ⟨hj, -⟩; cases hj)
  exact ⟨s', acked, hs', hread⟩

def raceJobs (loser : Job) : Bool → Job
  | false => .ack "1-ab"
  | true => loser

theorem throws_of_done {p : FsM Result} (hdone : p.done = true) (hr : p.returned = false) : ∃ err, p = .throw err := by
  cases p with
  | ret => cases hr
  | throw err => exact ⟨err, rfl⟩
  | call => cases hdone

theorem race_throws {loser : Job} (n : Nat)
    (h : (Runs.exec (stepPool fsCall) (start asc "u" (raceJobs loser) mailFs)
      (List.replicate n (true, ()) ++ List.replicate 4 (false, ()) ++ [(true, ())])).map
        (fun s => ((s.2 true).done, (s.2 true).returned, slot "u" s.1 mail.id)) =
      some (true, false, none, some (.message mail))) :
    ∃ es s, Runs.exec (stepPool fsCall) (start asc "u" (raceJobs loser) mailFs) es = some s ∧
      (∃ err, s.2 true = .throw err) ∧ Held "u" s.1 mail := by
  obtain ⟨s, hs, hends⟩ := Option.map_eq_some_iff.mp h
  obtain ⟨hdone, hreturned, hslot⟩ : (s.2 true).done = true ∧ (s.2 true).returned = false ∧ _ := by
    simpa only [Prod.mk.injEq] using hends
  exact ⟨_, s, hs, throws_of_done hdone hreturned, .inr hslot⟩

/-- Against an ack that moves the message between a verb's look at it and its use of it,
a `readAck` and an await of the message throw, and a removal of it throws and leaves it. -/
theorem consumers_collide :
    Mailbox "u" mailFs ∧ Held "u" mailFs mail ∧
    ∀ loser ∈ [Job.readAck "1-ab", .await { meId := "u", thread := "t" } 0 [(0, 0)], .remove "1-ab"],
      ∃ es s, Runs.exec (stepPool fsCall) (start asc "u" (raceJobs loser) mailFs) es = some s ∧
        (∃ err, s.2 true = .throw err) ∧ Held "u" s.1 mail := by
  refine ⟨mailbox_mailFs, .inl (by decide), ?_⟩
  intro loser hloser
  simp only [List.mem_cons, List.not_mem_nil, or_false] at hloser
  rcases hloser with rfl | rfl | rfl
  · exact race_throws 4 (by decide +kernel)
  · exact race_throws 4 (by decide +kernel)
  · exact race_throws 1 (by decide +kernel)

end Cyberlegion.Consume
