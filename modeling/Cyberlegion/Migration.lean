import Cyberlegion.StoreRuns

/-!
# Merging one store into another

`migrateStore` reads one store and writes another, each a tree of its own. What it
makes of a key of the destination depends on what the two stores hold there alone, and
doing it twice makes the same of it.
-/

namespace Cyberlegion

namespace Tree

open Disk DiskM

/-! ## `migrateStore` -/

def MARKER_FILE : String := "config.json"

def markerText : String := "\x7b\n  \"version\": 1\n\x7d\n"

def ensureMarker (root : AbsPath) : TreeM Unit := do
  call .fs (mkdir root)
  if ← existsSync (root ++ [MARKER_FILE]) then return ()
  else call .fs (Disk.write (root ++ [MARKER_FILE]) (.text markerText))

structure MigrateResult where
  agents : Nat := 0
  messages : Nat := 0
  briefs : Nat := 0

def Process.after (proc : Process) (counts : MigrateResult) : Process :=
  { proc with tmpCounter := proc.tmpCounter + (counts.agents + counts.messages + counts.briefs) }

section
variable (source : Disk Data) (fromRoot toRoot : AbsPath) (proc : Process)

/-- A call on the source, of those that only read. -/
def reading {α : Type} (m : TreeM α) : TreeM α := ExceptT.mk (pure (m.result source).1)

def migrateMessages (id : String) : List Message → MigrateResult → TreeM MigrateResult
  | [], counts => return counts
  | msg :: msgs, counts => do
    putMessage toRoot (proc.after counts) id msg
    migrateMessages id msgs { counts with messages := counts.messages + 1 }

def migrateRecord (rec : AgentRecord) (counts : MigrateResult) : TreeM MigrateResult := do
  match ← getAgent toRoot rec.id with
  | some _ => return counts
  | none =>
    putAgent toRoot (proc.after counts) rec
    return { counts with agents := counts.agents + 1 }

def migrateBrief (id : String) (counts : MigrateResult) : TreeM MigrateResult := do
  match ← reading source (readBrief fromRoot id) with
  | none => return counts
  | some brief =>
    writeBrief toRoot (proc.after counts) id brief
    return { counts with briefs := counts.briefs + 1 }

def migrateAgents : List AgentRecord → MigrateResult → TreeM MigrateResult
  | [], counts => return counts
  | rec :: recs, counts => do
    let counts ← migrateRecord toRoot proc rec counts
    let snap ← reading source (listInbox fromRoot proc rec.id)
    let counts ← migrateMessages toRoot proc rec.id (snap.unread ++ snap.read) counts
    let counts ← migrateBrief source fromRoot toRoot proc rec.id counts
    migrateAgents recs counts

def migrateStore : TreeM MigrateResult := do
  ensureMarker toRoot
  let recs ← reading source (listAgents fromRoot proc)
  migrateAgents source fromRoot toRoot proc recs {}

end

/-! ## What it makes of a key -/

def Key.owner : Key → String
  | .agent id | .project id | .brief id => id
  | .lease owner _ => owner
  | .unread box _ | .read box _ => box

namespace Maps

/-- What the destination holds under a key, `v` before, when the key's owner has been
brought over from `s`. -/
def carried (s : Maps) (v : Option Data) : Key → Option Data
  | .agent id => v.or (s.get (.agent id))
  | .brief id => (s.get (.brief id)).or v
  | .unread box msgId => ((s.get (.read box msgId)).or (s.get (.unread box msgId))).or v
  | _ => v

/-- What it holds when the messages have been filed as unread for `id`, in that order. -/
def delivered (id : String) (msgs : List Message) (v : Option Data) : Key → Option Data
  | .unread box msgId => if box = id then ((msgs.reverse.find? (·.id = msgId)).map .message).or v else v
  | _ => v

/-- Every agent and every message stands under its own id. -/
structure Own (t : Maps) : Prop where
  agents : t.agents.Keyed fun id rec => rec.id = id
  unread : t.unread.Keyed fun key msg => msg.id = key.2
  read : t.read.Keyed fun key msg => msg.id = key.2

section
variable {s t t' : Maps} {v : Option Data} {k : Key} {r : Except StoreError Answer} {safe : Bool} {new : Maps}

theorem carried_carried : s.carried (s.carried v k) k = s.carried v k := by
  cases k with
  | agent id => simp only [carried, Option.or_assoc, Option.or_self]
  | brief id =>
    simp only [carried]
    rw [← Option.or_assoc, Option.or_self]
  | unread box msgId =>
    simp only [carried]
    rw [← Option.or_assoc, Option.or_self]
  | _ => rfl

theorem delivered_nil {id : String} : delivered id [] v k = v := by
  cases k with
  | unread box msgId => exact ite_self _
  | _ => rfl

theorem delivered_cons {id : String} {msg : Message} {msgs : List Message} :
    delivered id (msg :: msgs) v k = delivered id msgs
    (if k = .unread id msg.id then some (.message msg) else v) k := by
  cases k with
  | unread box msgId =>
    simp only [delivered, List.reverse_cons, List.find?_append, Key.unread.injEq]
    by_cases hbox : box = id
    · by_cases hmsg : msg.id = msgId
      · simp [hbox, hmsg]
      · simp [hbox, hmsg, Ne.symm hmsg]
    · simp [hbox]
  | _ => simp [delivered]

theorem get_putMessage {id : String} {msg : Message} :
    Maps.get { t with unread := t.unread.insert (id, msg.id) msg } k =
      if k = .unread id msg.id then some (.message msg) else t.get k := by
  cases k <;> simp [Maps.get, Table.lookup_insert_eq]
  split <;> rfl

theorem get_putAgent {rec : AgentRecord} :
    Maps.get { t with agents := t.agents.insert rec.id rec } k =
      if k = .agent rec.id then some (.agent rec) else t.get k := by
  cases k <;> simp [Maps.get, Table.lookup_insert_eq]
  split <;> rfl

theorem get_writeBrief {id text : String} :
    Maps.get { t with briefs := t.briefs.insert id text } k =
      if k = .brief id then some (.text text) else t.get k := by
  cases k <;> simp [Maps.get, Table.lookup_insert_eq]
  split <;> rfl

theorem own_empty : Own {} where
  agents _ _ h := by cases h
  unread _ _ h := by cases h
  read _ _ h := by cases h

theorem Writes.own (hw : Writes safe t new r t') (h : t.Own) (hnew : new.Own) : t'.Own := by
  rw [Writes] at hw
  by_cases hs : safe = true
  · rw [if_pos hs] at hw
    rw [hw.2]; exact hnew
  · rw [if_neg hs] at hw
    rw [hw.2]; exact h

theorem Step.own {op : Op} (hstep : t.Step op r t') (h : t.Own) : t'.Own := by
  obtain ⟨ha, hu, hr⟩ := h
  cases op with
  | getAgent | getProject | getServiceLease | readBrief | listAgents | listProjects | listInbox =>
    rw [hstep.1]
    exact ⟨ha, hu, hr⟩
  | putAgent rec => exact Writes.own hstep ⟨ha, hu, hr⟩ ⟨ha.insert rfl, hu, hr⟩
  | putMessage toId msg => exact Writes.own hstep ⟨ha, hu, hr⟩ ⟨ha, hu.insert rfl, hr⟩
  | removeAgent id => exact Writes.own hstep ⟨ha, hu, hr⟩ ⟨ha.erase, hu, hr⟩
  | removeMailbox id => exact Writes.own hstep ⟨ha, hu, hr⟩ ⟨ha, hu.without, hr.without⟩
  | putProject | putServiceLease | writeBrief | removeAgentData =>
    exact Writes.own hstep ⟨ha, hu, hr⟩ ⟨ha, hu, hr⟩
  | ackMessage id msgId =>
    rw [Step] at hstep
    cases hmsg : t.unread.lookup (id, msgId) with
    | none =>
      rw [hmsg] at hstep
      rw [hstep.2]
      exact ⟨ha, hu, hr⟩
    | some msg =>
      rw [hmsg] at hstep
      rw [hstep.2]
      exact ⟨ha, hu.erase, hr.insert (hu _ _ hmsg)⟩
  | removeMessage id msgId =>
    rw [Step] at hstep
    split_ifs at hstep <;> rw [hstep.2]
    · exact ⟨ha, hu.erase, hr⟩
    · exact ⟨ha, hu, hr.erase⟩
    · exact ⟨ha, hu, hr⟩

theorem Run.frame {ops : List Op} {rs : List (Except StoreError Answer)} (hrun : t.Run ops rs t')
    (hk : ∀ op ∈ ops, ¬ op.Writes k) : t'.get k = t.get k := by
  induction ops generalizing t rs with
  | nil =>
    cases rs with
    | nil => rw [hrun.1]
    | cons r rs => exact hrun.elim
  | cons op ops ih =>
    cases rs with
    | nil => exact hrun.elim
    | cons r rs =>
      obtain ⟨-, u, -, hframe, hrun⟩ := hrun
      rw [ih hrun fun op' hmem => hk op' (List.mem_cons_of_mem op hmem), hframe k (hk op List.mem_cons_self)]

theorem Run.own {ops : List Op} {rs : List (Except StoreError Answer)} (hrun : t.Run ops rs t')
    (h : t.Own) : t'.Own := by
  induction ops generalizing t rs with
  | nil =>
    cases rs with
    | nil => rw [hrun.1]; exact h
    | cons r rs => exact hrun.elim
  | cons op ops ih =>
    cases rs with
    | nil => exact hrun.elim
    | cons r rs =>
      obtain ⟨-, u, hstep, -, hrun⟩ := hrun
      exact ih hrun (hstep.own h)

end

end Maps

/-- A store: a tree that stands for maps with every record under its own id. -/
structure Stored (root : AbsPath) (d : Disk Data) (t : Maps) : Prop where
  refines : Refines root d t
  own : t.Own

theorem stored_run {root : AbsPath} {d : Disk Data} (h : Fresh root d) (ops : List (Process × Op)) :
    ∃ t, Maps.Run {} (ops.map (·.2)) (runOps root ops d).1 t ∧ Stored root (runOps root ops d).2 t := by
  obtain ⟨t, hrun, ht, -⟩ := run_sound h.refines ops
  exact ⟨t, hrun, ht, hrun.own Maps.own_empty⟩

/-! ## One call -/

section
variable {root toRoot fromRoot : AbsPath} {proc : Process} {source d : Disk Data} {s t new : Maps} {safe : Bool}
  {counts : MigrateResult}

theorem yields_of_map {α β : Type} {m : TreeM α} {f : α → β} {Q : Except StoreError β → Disk Data → Prop}
    (h : Yields (f <$> m) Q d) : Yields m (fun r d' => Q (r.map f) d') d := by
  rw [map_eq_pure_bind, Yields, result_bind] at h
  rw [Yields]
  rcases hm : m.result d with ⟨r, d'⟩
  rw [hm] at h
  cases r <;> exact h

theorem yields_reading {α β : Type} {m : TreeM α} {f : α → TreeM β} {a : α}
    {Q : Except StoreError β → Disk Data → Prop}
    (ha : (m.result source).1 = .ok a) (h : Yields (f a) Q d) : Yields (reading source m >>= f) Q d := by
  have hread : (reading source m).result d = ((m.result source).1, d) := rfl
  refine yields_bind ?_
  rw [Yields, hread, ha]
  exact h

theorem yields_written {m : TreeM Unit} {β : Type} {f : Unit → TreeM β} {Q : Except StoreError β → Disk Data → Prop}
    (hs : safe = true)
    (hm : Yields ((fun _ => Answer.done) <$> m)
      (fun r d' => ∃ t', Maps.Writes safe t new r t' ∧ Refines root d' t' ∧ Within root d d') d)
    (h : ∀ d', Refines root d' new → Yields (f ()) Q d') : Yields (m >>= f) Q d := by
  refine yields_bind ((yields_of_map hm).mono ?_)
  rintro r d' ⟨t', hw, href, -⟩
  rw [Maps.Writes, if_pos hs] at hw
  obtain ⟨hr, rfl⟩ := hw
  cases r with
  | error e => cases hr
  | ok u => exact h d' href

/-- What lies at the root beside the store's folders is none of its business. -/
theorem Refines.beside {d' : Disk Data} {name : String} (h : Refines root d t) (hname : name ∉ kinds)
    (hfiles : ∀ q, q ≠ root ++ [name] → d'.files.lookup q = d.files.lookup q)
    (hdirs : ∀ q, q ∈ d'.dirs ↔ q ∈ d.dirs ∨ q <+: root) : Refines root d' t := by
  have hne : ∀ {s : String} {p : AbsPath}, s ∈ kinds → root ++ s :: p ≠ root ++ [name] := by
    intro s p hs heq
    obtain rfl := (List.cons.inj (List.append_cancel_left heq)).1
    exact hname hs
  refine ⟨fun k hk => ?_, h.safe, fun s p v hs hv => ?_, fun s p hs hmem => ?_, fun k hk => ?_, fun q hq => ?_⟩
  · obtain ⟨s, hs, p, hp⟩ := kinds_path (k := k)
    rw [hfiles _ (hp ▸ hne hs)]
    exact h.holds k hk
  · rw [hfiles _ (hne hs)] at hv
    exact h.known s p v hs hv
  · rcases (hdirs _).mp hmem with hold | hpre
    · exact h.folders s p hs hold
    · have hlen := hpre.length_le
      rw [List.length_append, List.length_cons] at hlen
      omega
  · exact (hdirs _).mpr (.inl (h.parent k hk))
  · rw [hfiles]
    · exact h.clear q hq
    · rintro rfl
      have hlen := hq.length_le
      rw [List.length_append, List.length_singleton] at hlen
      omega

theorem yields_ensureMarker (h : Refines root d t) :
    Yields (ensureMarker root) (fun r d' => r = .ok () ∧ Refines root d' t) d := by
  let made : Disk Data := { d with dirs := root.inits.filter (· ∉ d.dirs) ++ d.dirs }
  have hmake : mkdir root d = .ok made := if_pos fun q hq => h.clear q ((List.mem_inits _ _).mp hq)
  have hdirs : ∀ q, q ∈ made.dirs ↔ q ∈ d.dirs ∨ q <+: root := by
    intro q
    rw [List.mem_append, List.mem_filter, List.mem_inits, decide_eq_true_iff]
    by_cases hq : q ∈ d.dirs
    · simp [hq]
    · simp [hq]
  have hname : MARKER_FILE ∉ kinds := by decide
  refine yields_bind (yields_call hmake ?_)
  cases hhas : (note d made).has (root ++ [MARKER_FILE]) with
  | true => exact yields_existsSync hhas ⟨rfl, h.beside hname (fun _ _ => rfl) hdirs⟩
  | false =>
    refine yields_existsSync hhas ?_
    have hdir : root ++ [MARKER_FILE] ∉ (note d made).dirs := of_decide_eq_false (Bool.or_eq_false_iff.mp hhas).2
    have hroot : (root ++ [MARKER_FILE]).dropLast ∈ (note d made).dirs := by
      rw [List.dropLast_concat]
      exact (hdirs _).mpr (.inr List.prefix_rfl)
    have hwrite : Disk.write (root ++ [MARKER_FILE]) (.text markerText) (note d made) =
        .ok { note d made with files := (note d made).files.insert (root ++ [MARKER_FILE]) (.text markerText) } := by
      rw [Disk.write, if_neg hdir, if_pos hroot]
    refine yields_call hwrite ⟨rfl, h.beside hname (fun q hq => ?_) hdirs⟩
    show (d.files.insert _ _).lookup q = _
    rw [Table.lookup_insert_eq, if_neg hq]

/-! What is read of the source. -/

theorem getAgent_result (h : Refines root d t) (id : String) :
    (getAgent root id).result d = (.ok (t.agents.lookup id), d) := by
  have hread : Yields (getAgent root id) (fun r d' => r = .ok (t.agents.lookup id) ∧ d' = d) d :=
    yields_getRecord h (builds_agentFile id) rfl fun _ => rfl
  exact Prod.ext hread.1 hread.2

theorem readBrief_result (h : Refines root d t) (id : String) :
    (readBrief root id).result d = (.ok (t.briefs.lookup id), d) := by
  have hread : Yields (readBrief root id) (fun r d' => r = .ok (t.briefs.lookup id) ∧ d' = d) d :=
    yields_getRecord h (builds_briefFile id) rfl fun _ => rfl
  exact Prod.ext hread.1 hread.2

variable (proc) in
theorem listAgents_result (h : Refines root d t) :
    ∃ recs, ((listAgents root proc).result d).1 = .ok recs ∧ recs.Perm t.agents.values := by
  obtain ⟨t', ⟨-, recs, hr, hl, -⟩, -⟩ := yields_of_map (f := Answer.agents) (@sound_listAgents _ proc _ _ h)
  cases hres : ((listAgents root proc).result d).1 with
  | error e => rw [hres] at hr; cases hr
  | ok l =>
    rw [hres] at hr
    cases hr
    exact ⟨recs, rfl, hl⟩

variable (proc) in
theorem listInbox_result (h : Refines root d t) (id : String) :
    ∃ snap, ((listInbox root proc id).result d).1 = .ok snap ∧
      snap.unread.Perm (t.unread.select fun key => key.1 = id) ∧
      snap.read.Perm (t.read.select fun key => key.1 = id) := by
  obtain ⟨t', ⟨-, u, v, hr, hu, hv⟩, -⟩ := yields_of_map (f := Answer.inbox) (@sound_listInbox _ proc _ _ h id)
  cases hres : ((listInbox root proc id).result d).1 with
  | error e => rw [hres] at hr; cases hr
  | ok snap =>
    rw [hres] at hr
    cases hr
    exact ⟨_, rfl, hu, hv⟩

theorem find_listed {table : Table (String × String) Message} {l : List Message} {id msgId : String}
    (hown : table.Keyed fun key msg => msg.id = key.2) (hl : l.Perm (table.select fun key => key.1 = id)) :
    l.reverse.find? (·.id = msgId) = table.lookup (id, msgId) := by
  have hmem : ∀ msg, msg ∈ l ↔ ∃ x, table.lookup (id, x) = some msg := by
    intro msg
    rw [hl.mem_iff, Table.select_eq, List.mem_filterMap]
    constructor
    · rintro ⟨⟨box, x⟩, hkey, hmsg⟩
      obtain rfl : box = id := of_decide_eq_true (List.mem_filter.mp hkey).2
      exact ⟨x, hmsg⟩
    · rintro ⟨x, hmsg⟩
      refine ⟨(id, x), List.mem_filter.mpr ⟨?_, decide_eq_true rfl⟩, hmsg⟩
      exact AList.lookup_isSome.mp (by rw [hmsg]; rfl)
  cases hfind : l.reverse.find? (·.id = msgId) with
  | some msg =>
    obtain ⟨x, hx⟩ := (hmem msg).mp (List.mem_reverse.mp (List.mem_of_find?_eq_some hfind))
    have hid : msg.id = msgId := of_decide_eq_true (List.find?_some hfind :)
    have hkey : msg.id = x := hown _ _ hx
    rw [← hid, hkey, hx]
  | none =>
    cases hlook : table.lookup (id, msgId) with
    | none => rfl
    | some msg =>
      have hnot := List.find?_eq_none.mp hfind msg (List.mem_reverse.mpr ((hmem msg).mpr ⟨msgId, hlook⟩))
      exact absurd (decide_eq_true (hown _ _ hlook)) hnot

/-! ## The steps -/

/-- A program on the destination that ends, and what it makes of each key. -/
def Makes (root : AbsPath) (m : TreeM MigrateResult) (after : Key → Option Data) (d : Disk Data) : Prop :=
  Yields m (fun r d' => ∃ counts t', r = .ok counts ∧ Refines root d' t' ∧ ∀ k, t'.get k = after k) d

theorem Makes.seq {m : TreeM MigrateResult} {f : MigrateResult → TreeM MigrateResult} {after : Key → Option Data}
    {final : Key → Option Data} (hm : Makes root m after d)
    (hf : ∀ counts d' t', Refines root d' t' → (∀ k, t'.get k = after k) → Makes root (f counts) final d') :
    Makes root (m >>= f) final d := by
  refine yields_bind (hm.mono ?_)
  rintro r d' ⟨counts, t', rfl, ht', hget⟩
  exact hf counts d' t' ht' hget

theorem Makes.congr {m : TreeM MigrateResult} {after after' : Key → Option Data} (hm : Makes root m after d)
    (h : ∀ k, after k = after' k) : Makes root m after' d := by
  refine hm.mono ?_
  rintro r d' ⟨counts, t', hr, ht', hget⟩
  exact ⟨counts, t', hr, ht', fun k => (hget k).trans (h k)⟩

theorem makes_return (h : Refines root d t) : Makes root (pure counts) t.get d := ⟨counts, t, rfl, h, fun _ => rfl⟩

theorem makes_migrateMessages {id : String} {msgs : List Message} (h : Refines root d t) (hid : safeId id)
    (hmsgs : ∀ msg ∈ msgs, safeId msg.id) :
    Makes root (migrateMessages root proc id msgs counts) (fun k => Maps.delivered id msgs (t.get k) k) d := by
  induction msgs generalizing counts d t with
  | nil => exact (makes_return h).congr fun k => Maps.delivered_nil.symm
  | cons msg msgs ih =>
    have hsafe : (safeId id && safeId msg.id) = true :=
      (Bool.and_eq_true _ _).mpr ⟨hid, hmsgs msg List.mem_cons_self⟩
    refine yields_written hsafe (sound_putMessage h id msg) fun d' hd' => ?_
    refine Makes.congr (ih hd' fun msg' hmem => hmsgs msg' (List.mem_cons_of_mem msg hmem)) fun k => ?_
    rw [Maps.get_putMessage, Maps.delivered_cons]

theorem makes_migrateRecord {rec : AgentRecord} (h : Refines root d t) (hid : safeId rec.id) :
    Makes root (migrateRecord root proc rec counts)
      (fun k => if k = .agent rec.id then (t.get k).or (some (.agent rec)) else t.get k) d := by
  have hget : ∀ {k}, k = Key.agent rec.id → t.get k = (t.agents.lookup rec.id).map .agent := by
    rintro k rfl
    rfl
  refine yields_bind ?_
  rw [Yields, getAgent_result h]
  cases hrec : t.agents.lookup rec.id with
  | some old =>
    refine (makes_return h).congr fun k => ?_
    by_cases hk : k = .agent rec.id
    · rw [if_pos hk, hget hk, hrec]; rfl
    · rw [if_neg hk]
  | none =>
    refine yields_written hid (sound_putAgent h rec) fun d' hd' => (makes_return hd').congr fun k => ?_
    rw [Maps.get_putAgent]
    by_cases hk : k = .agent rec.id
    · rw [if_pos hk, if_pos hk, hget hk, hrec]; rfl
    · rw [if_neg hk, if_neg hk]

theorem makes_migrateBrief {id : String} (hs : Refines fromRoot source s) (h : Refines root d t) (hid : safeId id) :
    Makes root (migrateBrief source fromRoot root proc id counts)
      (fun k => if k = .brief id then (s.get k).or (t.get k) else t.get k) d := by
  have hget : ∀ {k}, k = Key.brief id → s.get k = (s.briefs.lookup id).map .text := by
    rintro k rfl
    rfl
  refine yields_reading (congrArg Prod.fst (readBrief_result hs id)) ?_
  cases hbrief : s.briefs.lookup id with
  | none =>
    refine (makes_return h).congr fun k => ?_
    by_cases hk : k = .brief id
    · rw [if_pos hk, hget hk, hbrief]; rfl
    · rw [if_neg hk]
  | some brief =>
    refine yields_written hid (sound_writeBrief h id brief) fun d' hd' => (makes_return hd').congr fun k => ?_
    rw [Maps.get_writeBrief]
    by_cases hk : k = .brief id
    · rw [if_pos hk, if_pos hk, hget hk, hbrief]; rfl
    · rw [if_neg hk, if_neg hk]

/-! ## The run -/

/-- What the destination holds when the owners in `P` have been brought over. -/
def Maps.merged (s : Maps) (P : String → Bool) (v : Option Data) (k : Key) : Option Data :=
  if P k.owner then s.carried v k else v

theorem safe_of_listed {id : String} {l : List Message} {table : Table (String × String) Message}
    (hs : Refines fromRoot source s) (key : String → Key)
    (hget : ∀ x, s.get (key x) = (table.lookup (id, x)).map .message)
    (hkey : ∀ x, (key x).Safe → safeId x) (hown : table.Keyed fun key msg => msg.id = key.2)
    (hl : l.Perm (table.select fun key => key.1 = id)) : ∀ msg ∈ l, safeId msg.id := by
  intro msg hmsg
  have hsome : (l.reverse.find? (·.id = msg.id)).isSome :=
    List.find?_isSome.mpr ⟨msg, List.mem_reverse.mpr hmsg, decide_eq_true rfl⟩
  rw [find_listed hown hl] at hsome
  obtain ⟨held, hheld⟩ := Option.isSome_iff_exists.mp hsome
  exact hkey msg.id (hs.safe _ (.message held) (by rw [hget, hheld]; rfl))

theorem makes_turn {rec : AgentRecord} {recs : List AgentRecord} {final : Key → Option Data}
    (hs : Stored fromRoot source s) (h : Refines root d t) (hrec : s.agents.lookup rec.id = some rec)
    (hrest : ∀ counts d' t', Refines root d' t' → (∀ k, t'.get k = s.merged (· = rec.id) (t.get k) k) →
      Makes root (migrateAgents source fromRoot root proc recs counts) final d') :
    Makes root (migrateAgents source fromRoot root proc (rec :: recs) counts) final d := by
  have hagent : s.get (.agent rec.id) = some (.agent rec) := by rw [Maps.get, hrec]; rfl
  have hid : safeId rec.id := hs.refines.safe _ _ hagent
  obtain ⟨snap, hsnap, hu, hv⟩ := listInbox_result proc hs.refines rec.id
  have hsafe : ∀ msg ∈ snap.unread ++ snap.read, safeId msg.id := by
    intro msg hmsg
    rcases List.mem_append.mp hmsg with hmsg | hmsg
    · exact safe_of_listed hs.refines (Key.unread rec.id) (fun _ => rfl) (fun _ => And.right) hs.own.unread hu msg hmsg
    · exact safe_of_listed hs.refines (Key.read rec.id) (fun _ => rfl) (fun _ => And.right) hs.own.read hv msg hmsg
  refine (makes_migrateRecord h hid).seq fun counts₁ d₁ t₁ h₁ hget₁ => ?_
  refine yields_reading hsnap ?_
  refine (makes_migrateMessages h₁ hid hsafe).seq fun counts₂ d₂ t₂ h₂ hget₂ => ?_
  refine (makes_migrateBrief hs.refines h₂ hid).seq fun counts₃ d₃ t₃ h₃ hget₃ => ?_
  refine hrest counts₃ d₃ t₃ h₃ fun k => ?_
  rw [hget₃, hget₂, hget₁]
  cases k with
  | agent id =>
    by_cases heq : id = rec.id
    · simp [Maps.merged, Maps.carried, Maps.delivered, Key.owner, heq, hagent]
    · simp [Maps.merged, Maps.delivered, Key.owner, heq]
  | brief id =>
    by_cases heq : id = rec.id
    · simp [Maps.merged, Maps.carried, Maps.delivered, Key.owner, heq]
    · simp [Maps.merged, Maps.delivered, Key.owner, heq]
  | unread box msgId =>
    by_cases heq : box = rec.id
    · subst heq
      simp [Maps.merged, Maps.carried, Maps.delivered, Key.owner, List.find?_append, Maps.get,
        find_listed hs.own.unread hu, find_listed hs.own.read hv, Option.map_or]
    · simp [Maps.merged, Maps.delivered, Key.owner, heq]
  | _ => simp [Maps.merged, Maps.carried, Maps.delivered]

theorem makes_migrateAgents {recs : List AgentRecord} (hs : Stored fromRoot source s) (h : Refines root d t)
    (hrecs : ∀ rec ∈ recs, s.agents.lookup rec.id = some rec) :
    Makes root (migrateAgents source fromRoot root proc recs counts)
      (fun k => s.merged (· ∈ recs.map (·.id)) (t.get k) k) d := by
  induction recs generalizing counts d t with
  | nil => exact (makes_return h).congr fun k => rfl
  | cons rec recs ih =>
    refine makes_turn hs h (hrecs rec List.mem_cons_self) fun counts' d' t' h' hget => ?_
    refine (ih h' fun rec' hmem => hrecs rec' (List.mem_cons_of_mem rec hmem)).congr fun k => ?_
    rw [hget]
    simp only [Maps.merged, List.map_cons, List.mem_cons, decide_eq_true_iff]
    by_cases hlater : k.owner ∈ recs.map (·.id)
    · by_cases hnow : k.owner = rec.id
      · rw [if_pos hlater, if_pos hnow, if_pos (.inl hnow), Maps.carried_carried]
      · rw [if_pos hlater, if_neg hnow, if_pos (.inr hlater)]
    · by_cases hnow : k.owner = rec.id
      · rw [if_neg hlater, if_pos hnow, if_pos (.inl hnow)]
      · rw [if_neg hlater, if_neg hnow, if_neg fun hor => hor.elim hnow hlater]

variable (proc) in
theorem makes_migrateStore (hs : Stored fromRoot source s) (h : Refines root d t) :
    Makes root (migrateStore source fromRoot root proc)
      (fun k => s.merged (fun id => (s.agents.lookup id).isSome) (t.get k) k) d := by
  refine yields_bind ((yields_ensureMarker h).mono ?_)
  rintro r d' ⟨rfl, h'⟩
  obtain ⟨recs, hrecs, hperm⟩ := listAgents_result proc hs.refines
  refine yields_reading hrecs ?_
  have hmem : ∀ rec, rec ∈ recs ↔ ∃ id, s.agents.lookup id = some rec := by
    intro rec
    rw [hperm.mem_iff, Table.values_eq, List.mem_filterMap]
    constructor
    · rintro ⟨id, -, hid⟩
      exact ⟨id, hid⟩
    · rintro ⟨id, hid⟩
      exact ⟨id, AList.lookup_isSome.mp (by rw [hid]; rfl), hid⟩
  have hown : ∀ rec ∈ recs, s.agents.lookup rec.id = some rec := by
    intro rec hrec
    obtain ⟨id, hid⟩ := (hmem rec).mp hrec
    rw [hs.own.agents id rec hid, hid]
  refine (makes_migrateAgents hs h' hown).congr fun k => ?_
  simp only [Maps.merged, decide_eq_true_iff]
  refine if_congr ⟨fun hk => ?_, fun hk => ?_⟩ rfl rfl
  · obtain ⟨rec, hrec, hid⟩ := List.mem_map.mp hk
    rw [show k.owner = rec.id from hid.symm, hown rec hrec]
    rfl
  · obtain ⟨rec, hrec⟩ := Option.isSome_iff_exists.mp hk
    exact List.mem_map.mpr ⟨rec, (hmem rec).mpr ⟨_, hrec⟩, hs.own.agents _ _ hrec⟩

end

/-! ## Migration -/

/-- The source has such a message for one of its registered agents. -/
def Maps.Brings (s : Maps) (key : String × String) : Prop :=
  (s.agents.lookup key.1).isSome ∧ ((s.unread.lookup key).isSome ∨ (s.read.lookup key).isSome)

/-- What a migration makes of the destination `t`. -/
structure Migrated (s t t' : Maps) : Prop where
  agents : ∀ id, t'.agents.lookup id = (t.agents.lookup id).or (s.agents.lookup id)
  briefs_lacked : ∀ id, t.briefs.lookup id = none → (s.agents.lookup id).isSome →
    t'.briefs.lookup id = s.briefs.lookup id
  briefs_kept : ∀ id, s.agents.lookup id = none ∨ s.briefs.lookup id = none → t'.briefs.lookup id = t.briefs.lookup id
  read_kept : ∀ key, t'.read.lookup key = t.read.lookup key
  unread_kept : ∀ key, ¬ s.Brings key → t'.unread.lookup key = t.unread.lookup key
  brought : ∀ key, s.Brings key → (t'.unread.lookup key).isSome ∧
    t'.unread.lookup key = (s.read.lookup key).or (s.unread.lookup key)

section
variable {fromRoot toRoot : AbsPath} {source d : Disk Data} {s t t' : Maps} {proc : Process}

variable (s) in
theorem registered_or (id : String) : s.agents.lookup id = none ∨ (s.agents.lookup id).isSome := by
  cases s.agents.lookup id with
  | none => exact .inl rfl
  | some _ => exact .inr rfl

theorem migrated_of_merged (h : ∀ k, t'.get k = s.merged (fun id => (s.agents.lookup id).isSome) (t.get k) k) :
    Migrated s t t' := by
  have hagent : Function.Injective (Option.map Data.agent) := Option.map_injective fun _ _ h => Data.agent.inj h
  have htext : Function.Injective (Option.map Data.text) := Option.map_injective fun _ _ h => Data.text.inj h
  have hmessage : Function.Injective (Option.map Data.message) := Option.map_injective fun _ _ h => Data.message.inj h
  have hskip : ∀ k, s.agents.lookup k.owner = none → t'.get k = t.get k := by
    intro k hk
    rw [h, Maps.merged, hk]
    rfl
  have htake : ∀ k, (s.agents.lookup k.owner).isSome → t'.get k = s.carried (t.get k) k := by
    intro k hk
    rw [h, Maps.merged, if_pos hk]
  have hunread : ∀ key : String × String, (s.agents.lookup key.1).isSome →
      t'.unread.lookup key = ((s.read.lookup key).or (s.unread.lookup key)).or (t.unread.lookup key) := by
    intro key hreg
    apply hmessage
    rw [Option.map_or, Option.map_or]
    exact htake (.unread key.1 key.2) hreg
  refine ⟨fun id => ?_, fun id hlacks hreg => ?_, fun id hno => ?_, fun key => ?_, fun key hno => ?_, fun key hb => ?_⟩
  · apply hagent
    rcases registered_or s id with hreg | hreg
    · rw [hreg, Option.or_none]
      exact hskip (.agent id) hreg
    · rw [Option.map_or]
      exact htake (.agent id) hreg
  · apply htext
    have hget := htake (.brief id) hreg
    simp only [Maps.carried, Maps.get, hlacks, Option.map_none, Option.or_none] at hget
    exact hget
  · apply htext
    rcases registered_or s id with hreg | hreg
    · exact hskip (.brief id) hreg
    · have hget := htake (.brief id) hreg
      rcases hno with hno | hno
      · rw [hno] at hreg
        cases hreg
      · simp only [Maps.carried, Maps.get, hno, Option.map_none, Option.none_or] at hget
        exact hget
  · apply hmessage
    rcases registered_or s key.1 with hreg | hreg
    · exact hskip (.read key.1 key.2) hreg
    · exact htake (.read key.1 key.2) hreg
  · rcases registered_or s key.1 with hreg | hreg
    · exact hmessage (hskip (.unread key.1 key.2) hreg)
    · rw [hunread key hreg]
      cases hr : s.read.lookup key with
      | some msg => exact absurd ⟨hreg, .inr (by rw [hr]; rfl)⟩ hno
      | none =>
        cases hu : s.unread.lookup key with
        | some msg => exact absurd ⟨hreg, .inl (by rw [hu]; rfl)⟩ hno
        | none => rfl
  · rw [hunread key hb.1]
    cases hr : s.read.lookup key with
    | some msg => exact ⟨rfl, rfl⟩
    | none =>
      cases hu : s.unread.lookup key with
      | some msg => exact ⟨rfl, rfl⟩
      | none =>
        rcases hb.2 with hb | hb
        · rw [hu] at hb; cases hb
        · rw [hr] at hb; cases hb

variable (proc) in
theorem migrateStore_result (hs : Stored fromRoot source s) (h : Refines toRoot d t) :
    ∃ counts d' t', (migrateStore source fromRoot toRoot proc).result d = (.ok counts, d') ∧ Refines toRoot d' t' ∧
      ∀ k, t'.get k = s.merged (fun id => (s.agents.lookup id).isSome) (t.get k) k := by
  obtain ⟨counts, t', hr, ht', hget⟩ := makes_migrateStore proc hs h
  exact ⟨counts, _, t', Prod.ext hr rfl, ht', hget⟩

def acked (acks : List (Process × String × String)) : List (Process × Op) :=
  acks.map fun a => (a.1, .ackMessage a.2.1 a.2.2)

theorem merged_merged {P : String → Bool} {v : Option Data} {k : Key} :
    s.merged P (s.merged P v k) k = s.merged P v k := by
  rw [Maps.merged, Maps.merged]
  by_cases hP : P k.owner = true
  · rw [if_pos hP, if_pos hP, Maps.carried_carried]
  · rw [if_neg hP, if_neg hP]

/-- After acks at the destination, only what they took from the unread set is missing. -/
theorem remerged {u u' : Maps} {acks : List (Process × String × String)}
    (hu : ∀ k, (∀ a ∈ acks, k ≠ .unread a.2.1 a.2.2 ∧ k ≠ .read a.2.1 a.2.2) → u.get k = t'.get k)
    (ht' : ∀ k, t'.get k = s.merged (fun id => (s.agents.lookup id).isSome) (t.get k) k)
    (hu' : ∀ k, u'.get k = s.merged (fun id => (s.agents.lookup id).isSome) (u.get k) k) {k : Key}
    (hne : u'.get k ≠ u.get k) : ∃ a ∈ acks, k = .unread a.2.1 a.2.2 ∧ s.Brings a.2 := by
  have htouched : ∃ a ∈ acks, k = .unread a.2.1 a.2.2 ∨ k = .read a.2.1 a.2.2 := by
    by_contra hnot
    simp only [not_exists, not_and, not_or] at hnot
    apply hne
    rw [hu', hu k hnot, ht', merged_merged]
  obtain ⟨a, ha, hk⟩ := htouched
  rcases hk with rfl | rfl
  · refine ⟨a, ha, rfl, ?_⟩
    by_contra hno
    apply hne
    have hkept := (migrated_of_merged hu').unread_kept a.2 hno
    rw [Maps.get, Maps.get]
    exact congrArg (Option.map Data.message) hkept
  · apply absurd _ hne
    have hkept := (migrated_of_merged hu').read_kept a.2
    rw [Maps.get, Maps.get]
    exact congrArg (Option.map Data.message) hkept

theorem migrate_merges (hs : Stored fromRoot source s) (h : Refines toRoot d t) :
    ∃ counts d' t', (migrateStore source fromRoot toRoot proc).result d = (.ok counts, d') ∧
      Refines toRoot d' t' ∧ Migrated s t t' ∧
      ∀ (proc' : Process) (acks : List (Process × String × String)), ∃ u counts' d'' u',
        Refines toRoot (runOps toRoot (acked acks) d').2 u ∧
        (migrateStore source fromRoot toRoot proc').result (runOps toRoot (acked acks) d').2 = (.ok counts', d'') ∧
        Refines toRoot d'' u' ∧
        ∀ k, u'.get k ≠ u.get k → ∃ a ∈ acks, k = .unread a.2.1 a.2.2 ∧ s.Brings a.2 := by
  obtain ⟨counts, d', t', hres, ht', hget⟩ := migrateStore_result proc hs h
  refine ⟨counts, d', t', hres, ht', migrated_of_merged hget, fun proc' acks => ?_⟩
  obtain ⟨u, hrun, hu, -⟩ := run_sound ht' (acked acks)
  obtain ⟨counts', d'', u', hres', hu', hget'⟩ := migrateStore_result proc' hs hu
  refine ⟨u, counts', d'', u', hu, hres', hu', fun k hne => remerged (fun k hk => ?_) hget hget' hne⟩
  refine hrun.frame fun op hop hw => ?_
  obtain ⟨p, hp, rfl⟩ := List.mem_map.mp hop
  obtain ⟨a, ha, rfl⟩ := List.mem_map.mp hp
  exact hw.elim (hk a ha).1 (hk a ha).2

end

/-! A unit with one message, which its reader has acked at the destination already. -/

def movedUnit : AgentRecord := { id := "a", handle := "a", cwd := "/", status := .idle, createdAt := 0, lastSeen := 0 }

def movedMessage : Message :=
    { id := "m", sender := "b", fromHandle := "b", «to» := "a", body := "hi", ts := 1, sentAt := "" }

def oldStore : Maps :=
  { agents := (∅ : Table String AgentRecord).insert "a" movedUnit
    unread := (∅ : Table (String × String) Message).insert ("a", "m") movedMessage }

def newStore : Maps :=
  { unread := ((∅ : Table (String × String) Message).insert ("a", "m") movedMessage).erase ("a", "m")
    read := (∅ : Table (String × String) Message).insert ("a", "m") movedMessage }

def oldDisk : Disk Data :=
  (runOps ["old"] [(bareProcess, .putAgent movedUnit), (bareProcess, .putMessage "a" movedMessage)] (bareDisk [[]])).2

def newDisk : Disk Data :=
  (runOps ["new"] [(bareProcess, .putMessage "a" movedMessage), (bareProcess, .ackMessage "a" "m")] (bareDisk [[]])).2

theorem stored_oldDisk : Stored ["old"] oldDisk oldStore := by
  have hfresh : Fresh ["old"] (bareDisk [[]]) := fresh_bareDisk (by decide)
  obtain ⟨t, hrun, hstored⟩ := stored_run hfresh
    [(bareProcess, .putAgent movedUnit), (bareProcess, .putMessage "a" movedMessage)]
  obtain ⟨-, u, hput, -, -, u', hsend, -, rfl, -⟩ := hrun
  obtain ⟨-, rfl⟩ : _ ∧ u = _ := hput
  obtain ⟨-, rfl⟩ : _ ∧ t = _ := hsend
  exact hstored

theorem refines_newDisk : Refines ["new"] newDisk newStore := by
  have hfresh : Fresh ["new"] (bareDisk [[]]) := fresh_bareDisk (by decide)
  obtain ⟨t, ⟨-, u, hsend, -, -, u', hack, -, rfl, -⟩, ht, -⟩ := run_sound hfresh.refines
    [(bareProcess, .putMessage "a" movedMessage), (bareProcess, .ackMessage "a" "m")]
  obtain ⟨-, rfl⟩ : _ ∧ u = _ := hsend
  obtain ⟨-, rfl⟩ : _ ∧ t = _ := hack
  exact ht

theorem migrate_merges_acked :
    ∃ counts d' t', (migrateStore oldDisk ["old"] ["new"] bareProcess).result newDisk = (.ok counts, d') ∧
      Refines ["new"] d' t' ∧ Migrated oldStore newStore t' ∧
      ∀ (proc' : Process) (acks : List (Process × String × String)), ∃ u counts' d'' u',
        Refines ["new"] (runOps ["new"] (acked acks) d').2 u ∧
        (migrateStore oldDisk ["old"] ["new"] proc').result (runOps ["new"] (acked acks) d').2 = (.ok counts', d'') ∧
        Refines ["new"] d'' u' ∧
        ∀ k, u'.get k ≠ u.get k → ∃ a ∈ acks, k = .unread a.2.1 a.2.2 ∧ oldStore.Brings a.2 :=
  migrate_merges stored_oldDisk refines_newDisk

/-- The message comes back as unread. -/
theorem migrate_unacks :
    ¬ ∀ (fromRoot toRoot : AbsPath) (source d : Disk Data) (s t t' : Maps) (proc : Process),
      Stored fromRoot source s → Refines toRoot d t →
      Refines toRoot ((migrateStore source fromRoot toRoot proc).result d).2 t' →
      ∀ key, (t.read.lookup key).isSome → t.unread.lookup key = none → t'.unread.lookup key = none := by
  intro hall
  obtain ⟨counts, d', t', hres, ht', hget⟩ := migrateStore_result bareProcess stored_oldDisk refines_newDisk
  have hb : oldStore.Brings ("a", "m") := ⟨by decide, .inl (by decide)⟩
  have hback := ((migrated_of_merged hget).brought ("a", "m") hb).1
  rw [hall ["old"] ["new"] oldDisk newDisk oldStore newStore t' bareProcess stored_oldDisk refines_newDisk
    (by rw [hres]; exact ht') ("a", "m") (by decide) (by decide)] at hback
  cases hback

end Tree

end Cyberlegion
