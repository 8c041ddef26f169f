import Cyberlegion.Hub
import Cyberlegion.Lib.Entries

/-!
# The hub's units as participants of cynapse

cynapse lies outside: its state and its calls are parameters, and `Cynapse.Lawful`
says what the sync relies on. The sync ends with a live participant for every unit that
is not exited, and with no other live one of this hub.
-/

namespace Cyberlegion

namespace Participants

/-! ## cynapse -/

inductive Status
  | live | retired
deriving DecidableEq

structure Participant where
  id : String
  key : Option String := none
  kind : String
  name : String
  registeredBy : Option String := none
  status : Status
deriving DecidableEq

structure Registration where
  key : String
  kind : String
  name : String
  registeredBy : Option String := none

structure CynapseError where
  message : String

abbrev CynM (σ : Type) := StateT σ (Except CynapseError)

structure Cynapse (σ : Type) where
  participants : σ → List Participant
  registerParticipant : Registration → CynM σ Participant
  renameParticipant (id name actor : String) : CynM σ Unit
  retireParticipant (id actor : String) : CynM σ Unit
  /-- The id of a key's participant. -/
  idOf : String → String
  /-- The name of a revived participant, of its own before and the one it is registered with. -/
  revivedName : String → String → String

/-! ## `syncParticipants` -/

def UNIT_PREFIX : String := "cyberlegion:unit/"

def runtimeKey (sha256 : String → String) (root : String) : String :=
  "cyberlegion:hub/" ++ String.ofList ((sha256 root).toList.take 16)

def unitKey (id : String) : String := UNIT_PREFIX ++ id

def isUnit (rec : AgentRecord) : Bool := rec.kind = .session

structure SyncResult where
  registered : List String := []
  retired : List String := []
  renamed : List String := []

/-- What follows the prefix in a unit's key. -/
def unitOf (p : Participant) : Option String :=
  p.key.bind fun key =>
    if UNIT_PREFIX.toList.isPrefixOf key.toList then some (String.ofList (key.toList.drop UNIT_PREFIX.length)) else none

def mineOf (runtime : String) (ps : List Participant) : List (String × Participant) :=
  Entries.ofList <| (ps.filter fun p => p.registeredBy = some runtime).filterMap
    fun p => (unitOf p).map fun id => (id, p)

def unitsOf (hub : Registry) : List (String × AgentRecord) :=
  Entries.ofList <| (Registry.list hub |>.filter isUnit).map fun rec => (rec.id, rec)

section
variable {σ : Type} (cyn : Cynapse σ) (runtime : String)

def registerUnit (rec : AgentRecord) (result : SyncResult) : CynM σ (Participant × SyncResult) := do
  let p ← cyn.registerParticipant
    { key := unitKey rec.id, kind := "agent", name := rec.handle, registeredBy := some runtime }
  return (p, { result with registered := result.registered ++ [rec.id] })

def renameUnit (rec : AgentRecord) (p : Participant) (result : SyncResult) : CynM σ SyncResult := do
  if p.name ≠ rec.handle then
    cyn.renameParticipant p.id rec.handle runtime
    return { result with renamed := result.renamed ++ [rec.id] }
  else return result

/-- The first loop's body. -/
def syncUnit (mine : List (String × Participant)) (result : SyncResult) (rec : AgentRecord) : CynM σ SyncResult := do
  if rec.status = .exited then return result
  else
    match Entries.get mine rec.id with
    | none =>
      let (p, result) ← registerUnit cyn runtime rec result
      renameUnit cyn runtime rec p result
    | some p =>
      if p.status = .retired then
        let (p, result) ← registerUnit cyn runtime rec result
        renameUnit cyn runtime rec p result
      else renameUnit cyn runtime rec p result

def retireUnit (id : String) (p : Participant) (result : SyncResult) : CynM σ SyncResult := do
  cyn.retireParticipant p.id runtime
  return { result with retired := result.retired ++ [id] }

/-- The second loop's body. -/
def retireGone (units : List (String × AgentRecord)) (result : SyncResult) (e : String × Participant) :
    CynM σ SyncResult := do
  if e.2.status ≠ .live then return result
  else
    match Entries.get units e.1 with
    | none => retireUnit cyn runtime e.1 e.2 result
    | some rec => if rec.status ≠ .exited then return result else retireUnit cyn runtime e.1 e.2 result

def syncParticipants (sha256 : String → String) (root : String) (hub : Registry) : CynM σ SyncResult := do
  let p ← cyn.registerParticipant { key := runtimeKey sha256 root, kind := "service", name := "cyberlegion" }
  let mine := mineOf p.id (cyn.participants (← get))
  let units := unitsOf hub
  let result ← (units.map (·.2)).foldlM (syncUnit cyn p.id mine) {}
  mine.foldlM (retireGone cyn p.id units) result

end

/-! ## What cynapse documents -/

section
variable {σ : Type}

/-- The participant under a key is now `p`; the others are as they were. -/
def Cynapse.Puts (cyn : Cynapse σ) (s : σ) (key : String) (p : Participant) (s' : σ) : Prop :=
  p.key = some key ∧ ∀ q, q ∈ cyn.participants s' ↔ q = p ∨ q ∈ cyn.participants s ∧ q.key ≠ some key

/-- `registerParticipant` creates by key or revives, with the id and the registrar kept;
it leaves a live one alone. The other two act on one participant, for its registrar. -/
structure Cynapse.Lawful (cyn : Cynapse σ) : Prop where
  keys : ∀ s, ∀ p ∈ cyn.participants s, ∀ q ∈ cyn.participants s, p.key ≠ none → p.key = q.key → p = q
  ids : ∀ s, ∀ p ∈ cyn.participants s, ∀ key, p.key = some key → p.id = cyn.idOf key
  creates : ∀ s (reg : Registration), (∀ q ∈ cyn.participants s, q.key ≠ some reg.key) →
    ∃ s', cyn.registerParticipant reg s =
        .ok (⟨cyn.idOf reg.key, reg.key, reg.kind, reg.name, reg.registeredBy, .live⟩, s') ∧
      cyn.Puts s reg.key ⟨cyn.idOf reg.key, reg.key, reg.kind, reg.name, reg.registeredBy, .live⟩ s'
  revives : ∀ s (reg : Registration), ∀ q ∈ cyn.participants s, q.key = some reg.key → q.status = .retired →
    ∃ s', cyn.registerParticipant reg s =
        .ok ({ q with status := .live, name := cyn.revivedName q.name reg.name }, s') ∧
      cyn.Puts s reg.key { q with status := .live, name := cyn.revivedName q.name reg.name } s'
  finds : ∀ s (reg : Registration), ∀ q ∈ cyn.participants s, q.key = some reg.key → q.status = .live →
    cyn.registerParticipant reg s = .ok (q, s)
  renames : ∀ s, ∀ p ∈ cyn.participants s, ∀ key actor name, p.key = some key → p.status = .live →
    p.registeredBy = some actor →
    ∃ s', cyn.renameParticipant p.id name actor s = .ok ((), s') ∧ cyn.Puts s key { p with name := name } s'
  retires : ∀ s, ∀ p ∈ cyn.participants s, ∀ key actor, p.key = some key → p.status = .live →
    p.registeredBy = some actor →
    ∃ s', cyn.retireParticipant p.id actor s = .ok ((), s') ∧ cyn.Puts s key { p with status := .retired } s'

end

/-! ## Keys -/

section
variable {p : Participant} {id id' root : String} {sha256 : String → String} {hub : Registry} {rec : AgentRecord}

theorem unitKey_toList : (unitKey id).toList = UNIT_PREFIX.toList ++ id.toList := String.toList_append ..

theorem unitKey_inj (h : unitKey id = unitKey id') : id = id' := by
  have hlist := congrArg String.toList h
  rw [unitKey_toList, unitKey_toList] at hlist
  exact String.toList_inj.mp (List.append_cancel_left hlist)

theorem runtimeKey_ne : runtimeKey sha256 root ≠ unitKey id := by
  intro h
  have hhub : 13 ≤ "cyberlegion:hub/".toList.length := by decide
  have hunit : 13 ≤ UNIT_PREFIX.toList.length := by decide
  have hne : "cyberlegion:hub/".toList.take 13 ≠ UNIT_PREFIX.toList.take 13 := by decide
  have hlist := congrArg String.toList h
  rw [unitKey_toList, runtimeKey, String.toList_append] at hlist
  have htake := congrArg (List.take 13) hlist
  rw [List.take_append_of_le_length hhub, List.take_append_of_le_length hunit] at htake
  exact hne htake

theorem unitOf_unitKey : UNIT_PREFIX.toList.isPrefixOf (unitKey id).toList = true ∧
    String.ofList ((unitKey id).toList.drop UNIT_PREFIX.length) = id := by
  rw [unitKey_toList]
  refine ⟨List.isPrefixOf_iff_prefix.mpr (List.prefix_append _ _), ?_⟩
  rw [← String.length_toList, List.drop_left, String.ofList_toList]

theorem unitOf_eq_some : unitOf p = some id ↔ p.key = some (unitKey id) := by
  rw [unitOf, Option.bind_eq_some_iff]
  constructor
  · rintro ⟨key, hkey, hid⟩
    by_cases hpre : UNIT_PREFIX.toList.isPrefixOf key.toList = true
    · rw [if_pos hpre] at hid
      obtain ⟨rest, hrest⟩ := List.isPrefixOf_iff_prefix.mp hpre
      have hunit : key = unitKey (String.ofList rest) := by
        apply String.toList_inj.mp
        rw [unitKey_toList, String.toList_ofList, hrest]
      rw [hunit, unitOf_unitKey.2] at hid
      rw [hkey, hunit, Option.some.inj hid]
    · rw [if_neg hpre] at hid
      cases hid
  · intro hkey
    refine ⟨_, hkey, ?_⟩
    rw [if_pos unitOf_unitKey.1, unitOf_unitKey.2]

theorem mem_unitsOf : (id, rec) ∈ unitsOf hub ↔ rec ∈ Registry.list hub ∧ isUnit rec ∧ rec.id = id := by
  rw [unitsOf, Entries.mem_ofList, List.mem_map]
  · constructor
    · rintro ⟨rec', hrec, heq⟩
      cases heq
      exact ⟨(List.mem_filter.mp hrec).1, (List.mem_filter.mp hrec).2, rfl⟩
    · rintro ⟨hrec, hunit, rfl⟩
      exact ⟨rec, List.mem_filter.mpr ⟨hrec, hunit⟩, rfl⟩
  · intro e he e' he' hkey
    obtain ⟨rec₁, h₁, rfl⟩ := List.mem_map.mp he
    obtain ⟨rec₂, h₂, rfl⟩ := List.mem_map.mp he'
    have hget₁ := Registry.mem_list.mp (List.mem_filter.mp h₁).1
    have hget₂ := Registry.mem_list.mp (List.mem_filter.mp h₂).1
    rw [show rec₁.id = rec₂.id from hkey, hget₂] at hget₁
    cases hget₁
    rfl

end

/-! ## What a sync is about -/

section
variable {σ : Type}

def Cynapse.Held (cyn : Cynapse σ) (runtime : String) (s : σ) (id : String) (p : Participant) : Prop :=
  p ∈ cyn.participants s ∧ p.key = some (unitKey id) ∧ p.registeredBy = some runtime

def Kept (hub : Registry) (rec : AgentRecord) : Prop :=
  rec ∈ Registry.list hub ∧ isUnit rec ∧ rec.status ≠ .exited

/-- A unit without a live participant of this hub. -/
def Cynapse.Lacks (cyn : Cynapse σ) (runtime : String) (s : σ) (rec : AgentRecord) : Prop :=
  ∀ p, cyn.Held runtime s rec.id p → p.status = .retired

/-- A unit whose participant, revived if need be, has another name. -/
def Cynapse.Misnames (cyn : Cynapse σ) (runtime : String) (s : σ) (rec : AgentRecord) : Prop :=
  ∃ p, cyn.Held runtime s rec.id p ∧
    (if p.status = .live then p.name else cyn.revivedName p.name rec.handle) ≠ rec.handle

/-- A unit's participant is live under the unit's handle. -/
def Cynapse.Mirrors (cyn : Cynapse σ) (runtime : String) (s : σ) (rec : AgentRecord) : Prop :=
  ∃ p, cyn.Held runtime s rec.id p ∧ p.status = .live ∧ p.name = rec.handle

/-- Outside the units in `P` the participants are as they were. -/
def Cynapse.Frames (cyn : Cynapse σ) (P : String → Prop) (s s' : σ) : Prop :=
  ∀ q, (∀ id, P id → q.key ≠ some (unitKey id)) → (q ∈ cyn.participants s' ↔ q ∈ cyn.participants s)

variable {cyn : Cynapse σ} {runtime : String} {s s' s'' : σ} {rec : AgentRecord} {id : String} {p q : Participant}
  {P P' : String → Prop}

theorem Cynapse.Lawful.held_unique (hlaw : cyn.Lawful) (hp : cyn.Held runtime s id p) (hq : cyn.Held runtime s id q) :
    p = q := by
  refine hlaw.keys s p hp.1 q hq.1 ?_ (hp.2.1.trans hq.2.1.symm)
  rw [hp.2.1]
  exact Option.some_ne_none _

theorem Cynapse.Lawful.mem_mineOf (hlaw : cyn.Lawful) :
    (id, p) ∈ mineOf runtime (cyn.participants s) ↔ cyn.Held runtime s id p := by
  have hmem : ∀ e : String × Participant,
      e ∈ ((cyn.participants s).filter fun p => p.registeredBy = some runtime).filterMap
        (fun p => (unitOf p).map fun id => (id, p)) ↔ cyn.Held runtime s e.1 e.2 := by
    rintro ⟨id, p⟩
    rw [List.mem_filterMap]
    constructor
    · rintro ⟨p', hp', he⟩
      obtain ⟨id', hid', he⟩ := Option.map_eq_some_iff.mp he
      cases he
      obtain ⟨hp, hreg⟩ := List.mem_filter.mp hp'
      exact ⟨hp, unitOf_eq_some.mp hid', of_decide_eq_true hreg⟩
    · rintro ⟨hp, hkey, hreg⟩
      refine ⟨p, List.mem_filter.mpr ⟨hp, decide_eq_true hreg⟩, ?_⟩
      rw [unitOf_eq_some.mpr hkey]
      rfl
  rw [mineOf, Entries.mem_ofList, hmem]
  intro e he e' he' hkey
  have hp := (hmem e).mp he
  have hp' := (hmem e').mp he'
  rw [← hkey] at hp'
  exact Prod.ext hkey (hlaw.held_unique hp hp')

theorem Cynapse.Lawful.get_mineOf (hlaw : cyn.Lawful) :
    Entries.get (mineOf runtime (cyn.participants s)) id = some p ↔ cyn.Held runtime s id p := by
  exact (Entries.get_eq_some Entries.keyed_ofList).trans hlaw.mem_mineOf

theorem Cynapse.Frames.held (h : cyn.Frames P s s') (hid : ¬ P id) :
    cyn.Held runtime s' id p ↔ cyn.Held runtime s id p := by
  refine and_congr_left fun hp => h p fun id' hid' heq => hid ?_
  rw [hp.1] at heq
  rw [unitKey_inj (Option.some.inj heq)]
  exact hid'

theorem Cynapse.Frames.refl : cyn.Frames P s s := fun _ _ => Iff.rfl

theorem Cynapse.Frames.trans (h : cyn.Frames P s s') (h' : cyn.Frames P' s' s'') :
    cyn.Frames (fun id => P id ∨ P' id) s s'' := fun q hq =>
  (h' q fun id hid => hq id (.inr hid)).trans (h q fun id hid => hq id (.inl hid))

theorem Cynapse.Puts.frames (h : cyn.Puts s (unitKey id) p s') : cyn.Frames (· = id) s s' := by
  intro q hq
  have hne : q.key ≠ some (unitKey id) := hq id rfl
  rw [h.2]
  constructor
  · rintro (rfl | hmem)
    · exact absurd h.1 hne
    · exact hmem.1
  · exact fun hmem => .inr ⟨hmem, hne⟩

theorem Cynapse.Puts.held (h : cyn.Puts s (unitKey id) p s') (hreg : p.registeredBy = some runtime) :
    cyn.Held runtime s' id p := ⟨(h.2 p).mpr (.inl rfl), h.1, hreg⟩

/-! ## The first loop -/

theorem bind_ok {α β : Type} {m : CynM σ α} {f : α → CynM σ β} {a : α} (h : m s = .ok (a, s')) :
    (m >>= f) s = f a s' := by
  show (m s >>= fun e => f e.1 e.2) = f a s'
  rw [h]
  rfl

variable {mine : List (String × Participant)} {result : SyncResult}

/-- What one turn of the first loop makes of a unit that is not exited. -/
structure Synced (cyn : Cynapse σ) (runtime : String) (rec : AgentRecord) (result result' : SyncResult) (s s' : σ) :
    Prop where
  frames : cyn.Frames (· = rec.id) s s'
  mirrors : cyn.Mirrors runtime s' rec
  retired : result'.retired = result.retired
  registered : ∀ id, id ∈ result'.registered ↔ id ∈ result.registered ∨ id = rec.id ∧ cyn.Lacks runtime s rec
  renamed : ∀ id, id ∈ result'.renamed ↔ id ∈ result.renamed ∨ id = rec.id ∧ cyn.Misnames runtime s rec

variable (result) in
theorem renameUnit_ok (hlaw : cyn.Lawful) (hp : cyn.Held runtime s rec.id p) (hlive : p.status = .live) :
    ∃ result' s', renameUnit cyn runtime rec p result s = .ok (result', s') ∧ cyn.Frames (· = rec.id) s s' ∧
      cyn.Mirrors runtime s' rec ∧ result'.retired = result.retired ∧ result'.registered = result.registered ∧
      ∀ id, id ∈ result'.renamed ↔ id ∈ result.renamed ∨ id = rec.id ∧ p.name ≠ rec.handle := by
  rw [renameUnit]
  by_cases hname : p.name = rec.handle
  · rw [if_neg fun hne => hne hname]
    refine ⟨result, s, rfl, .refl, ⟨p, hp, hlive, hname⟩, rfl, rfl, fun id => (or_iff_left ?_).symm⟩
    exact fun h => h.2 hname
  · rw [if_pos hname]
    obtain ⟨s', hcall, hputs⟩ := hlaw.renames s p hp.1 _ runtime rec.handle hp.2.1 hlive hp.2.2
    refine ⟨_, s', bind_ok hcall, hputs.frames, ⟨_, hputs.held hp.2.2, hlive, rfl⟩, rfl, rfl, fun id => ?_⟩
    rw [List.mem_append, List.mem_singleton, and_iff_left hname]

variable (result) in
theorem registerUnit_ok (hlaw : cyn.Lawful) (hlacks : cyn.Lacks runtime s rec)
    (howned : ∀ q ∈ cyn.participants s, q.key = some (unitKey rec.id) → q.registeredBy = some runtime) :
    ∃ p s', registerUnit cyn runtime rec result s =
        .ok ((p, { result with registered := result.registered ++ [rec.id] }), s') ∧
      cyn.Frames (· = rec.id) s s' ∧ cyn.Held runtime s' rec.id p ∧ p.status = .live ∧
      (p.name ≠ rec.handle ↔ cyn.Misnames runtime s rec) := by
  by_cases hheld : ∃ q, cyn.Held runtime s rec.id q
  · obtain ⟨q, hq⟩ := hheld
    have hretired : q.status = .retired := hlacks q hq
    obtain ⟨s', hcall, hputs⟩ := hlaw.revives s
      ⟨unitKey rec.id, "agent", rec.handle, some runtime⟩ q hq.1 hq.2.1 hretired
    refine ⟨_, s', bind_ok hcall, hputs.frames, hputs.held hq.2.2, rfl, fun hne => ⟨q, hq, ?_⟩, ?_⟩
    · rw [hretired]
      exact hne
    · rintro ⟨q', hq', hne⟩
      rw [hlaw.held_unique hq' hq, hretired] at hne
      exact hne
  · have hnone : ∀ q ∈ cyn.participants s, q.key ≠ some (unitKey rec.id) := fun q hq hkey =>
      hheld ⟨q, hq, hkey, howned q hq hkey⟩
    obtain ⟨s', hcall, hputs⟩ := hlaw.creates s ⟨unitKey rec.id, "agent", rec.handle, some runtime⟩ hnone
    refine ⟨_, s', bind_ok hcall, hputs.frames, hputs.held rfl, rfl, fun hne => absurd rfl hne, ?_⟩
    rintro ⟨q, hq, -⟩
    exact absurd ⟨q, hq⟩ hheld

variable (result) in
theorem syncUnit_ok (hlaw : cyn.Lawful) (hmine : ∀ p, Entries.get mine rec.id = some p ↔ cyn.Held runtime s rec.id p)
    (howned : ∀ q ∈ cyn.participants s, q.key = some (unitKey rec.id) → q.registeredBy = some runtime)
    (hrec : rec.status ≠ .exited) :
    ∃ result' s', syncUnit cyn runtime mine result rec s = .ok (result', s') ∧
      Synced cyn runtime rec result result' s s' := by
  have hregister : cyn.Lacks runtime s rec → ∃ result' s',
      (registerUnit cyn runtime rec result >>= fun e => renameUnit cyn runtime rec e.1 e.2) s = .ok (result', s') ∧
        Synced cyn runtime rec result result' s s' := by
    intro hlacks
    obtain ⟨p, s₁, hcall, hframes, hp, hlive, hname⟩ := registerUnit_ok result hlaw hlacks howned
    obtain ⟨result', s', hcall', hframes', hmirrors, hret, hreg, hren⟩ := renameUnit_ok
      { result with registered := result.registered ++ [rec.id] } hlaw hp hlive
    refine ⟨result', s', (bind_ok hcall).trans hcall', ?_, hmirrors, hret, fun id => ?_, fun id => ?_⟩
    · exact fun q hq => (hframes' q hq).trans (hframes q hq)
    · rw [hreg, List.mem_append, List.mem_singleton, and_iff_left hlacks]
    · rw [hren, hname]
  rw [syncUnit, if_neg hrec]
  cases hget : Entries.get mine rec.id with
  | none =>
    apply hregister
    intro p hp
    rw [(hmine p).mpr hp] at hget
    cases hget
  | some p =>
    have hp := (hmine p).mp hget
    cases hstatus : p.status with
    | retired =>
      show ∃ result' s', (if p.status = .retired then _ else _ : CynM σ SyncResult) s = _ ∧ _
      rw [if_pos hstatus]
      apply hregister
      intro q hq
      rw [hlaw.held_unique hq hp, hstatus]
    | live =>
      show ∃ result' s', (if p.status = .retired then _ else _ : CynM σ SyncResult) s = _ ∧ _
      rw [if_neg (by rw [hstatus]; decide)]
      obtain ⟨result', s', hcall, hframes, hmirrors, hret, hreg, hren⟩ := renameUnit_ok result hlaw hp hstatus
      refine ⟨result', s', hcall, hframes, hmirrors, hret, fun id => ?_, fun id => ?_⟩
      · rw [hreg, iff_self_or]
        rintro ⟨-, hlacks⟩
        rw [hlacks p hp] at hstatus
        cases hstatus
      · rw [hren]
        refine or_congr_right (and_congr_right fun _ => ⟨fun hne => ⟨p, hp, by rw [if_pos hstatus]; exact hne⟩, ?_⟩)
        rintro ⟨q, hq, hne⟩
        rw [hlaw.held_unique hq hp, if_pos hstatus] at hne
        exact hne

theorem Cynapse.Frames.lacks (h : cyn.Frames P s s') (hid : ¬ P rec.id) :
    cyn.Lacks runtime s' rec ↔ cyn.Lacks runtime s rec :=
  forall_congr' fun _ => imp_congr_left (h.held hid)

theorem Cynapse.Frames.misnames (h : cyn.Frames P s s') (hid : ¬ P rec.id) :
    cyn.Misnames runtime s' rec ↔ cyn.Misnames runtime s rec :=
  exists_congr fun _ => and_congr_left fun _ => h.held hid

theorem Cynapse.Frames.mirrors (h : cyn.Frames P s s') (hid : ¬ P rec.id) :
    cyn.Mirrors runtime s' rec ↔ cyn.Mirrors runtime s rec :=
  exists_congr fun _ => and_congr_left fun _ => h.held hid

structure AllSynced (cyn : Cynapse σ) (runtime : String) (recs : List AgentRecord) (result result' : SyncResult)
    (s s' : σ) : Prop where
  frames : cyn.Frames (fun id => ∃ rec ∈ recs, rec.status ≠ .exited ∧ rec.id = id) s s'
  mirrors : ∀ rec ∈ recs, rec.status ≠ .exited → cyn.Mirrors runtime s' rec
  retired : result'.retired = result.retired
  registered : ∀ id, id ∈ result'.registered ↔ id ∈ result.registered ∨
    ∃ rec ∈ recs, rec.status ≠ .exited ∧ id = rec.id ∧ cyn.Lacks runtime s rec
  renamed : ∀ id, id ∈ result'.renamed ↔ id ∈ result.renamed ∨
    ∃ rec ∈ recs, rec.status ≠ .exited ∧ id = rec.id ∧ cyn.Misnames runtime s rec

theorem Synced.cons {recs : List AgentRecord} {result₁ result' : SyncResult} {s₁ : σ} (hrec : rec.status ≠ .exited)
    (hne : ∀ rec' ∈ recs, rec'.id ≠ rec.id) (h : Synced cyn runtime rec result result₁ s s₁)
    (h' : AllSynced cyn runtime recs result₁ result' s₁ s') :
    AllSynced cyn runtime (rec :: recs) result result' s s' where
  frames q hq := by
    refine (h'.frames q fun id hid => ?_).trans (h.frames q fun id hid => ?_)
    · obtain ⟨rec', hmem, hstatus⟩ := hid
      exact hq id ⟨rec', List.mem_cons_of_mem rec hmem, hstatus⟩
    · exact hq id ⟨rec, List.mem_cons_self, hrec, hid.symm⟩
  mirrors rec' hmem hstatus := by
    rcases List.mem_cons.mp hmem with rfl | hmem
    · refine (h'.frames.mirrors ?_).mpr h.mirrors
      rintro ⟨rec'', hmem, -, heq⟩
      exact hne rec'' hmem heq
    · exact h'.mirrors rec' hmem hstatus
  retired := h'.retired.trans h.retired
  registered id := by
    rw [h'.registered, h.registered, or_assoc]
    refine or_congr_right ?_
    rw [List.exists_mem_cons_iff, and_iff_right hrec]
    refine or_congr_right (exists_congr fun rec' => and_congr_right fun hmem => ?_)
    rw [h.frames.lacks (hne rec' hmem)]
  renamed id := by
    rw [h'.renamed, h.renamed, or_assoc]
    refine or_congr_right ?_
    rw [List.exists_mem_cons_iff, and_iff_right hrec]
    refine or_congr_right (exists_congr fun rec' => and_congr_right fun hmem => ?_)
    rw [h.frames.misnames (hne rec' hmem)]

theorem AllSynced.skip {recs : List AgentRecord} {result' : SyncResult} (hrec : rec.status = .exited)
    (h : AllSynced cyn runtime recs result result' s s') : AllSynced cyn runtime (rec :: recs) result result' s s' where
  frames q hq := h.frames q fun id hid => by
    obtain ⟨rec', hmem, hstatus⟩ := hid
    exact hq id ⟨rec', List.mem_cons_of_mem rec hmem, hstatus⟩
  mirrors rec' hmem hstatus := by
    rcases List.mem_cons.mp hmem with rfl | hmem
    · exact absurd hrec hstatus
    · exact h.mirrors rec' hmem hstatus
  retired := h.retired
  registered id := by
    rw [h.registered, List.exists_mem_cons_iff]
    exact or_congr_right (or_iff_right fun hor => hor.1 hrec).symm
  renamed id := by
    rw [h.renamed, List.exists_mem_cons_iff]
    exact or_congr_right (or_iff_right fun hor => hor.1 hrec).symm

variable (s result) in
theorem syncUnits_ok (hlaw : cyn.Lawful) {recs : List AgentRecord}
    (hnd : recs.Pairwise fun rec rec' => rec.id ≠ rec'.id)
    (hmine : ∀ rec ∈ recs, ∀ p, Entries.get mine rec.id = some p ↔ cyn.Held runtime s rec.id p)
    (howned : ∀ q ∈ cyn.participants s, ∀ rec ∈ recs, rec.status ≠ .exited → q.key = some (unitKey rec.id) →
      q.registeredBy = some runtime) :
    ∃ result' s', recs.foldlM (syncUnit cyn runtime mine) result s = .ok (result', s') ∧
      AllSynced cyn runtime recs result result' s s' := by
  induction recs generalizing s result with
  | nil => exact ⟨result, s, rfl, .refl, fun _ hrec => absurd hrec List.not_mem_nil, rfl, by simp, by simp⟩
  | cons rec recs ih =>
    obtain ⟨hne, hnd⟩ := List.pairwise_cons.mp hnd
    rw [List.foldlM_cons]
    by_cases hrec : rec.status = .exited
    · have hskip : syncUnit cyn runtime mine result rec s = .ok (result, s) := by
        rw [syncUnit, if_pos hrec]
        rfl
      obtain ⟨result', s', hcall, hall⟩ := ih s result hnd
        (fun rec' hmem => hmine rec' (List.mem_cons_of_mem rec hmem))
        fun q hq rec' hmem => howned q hq rec' (List.mem_cons_of_mem rec hmem)
      exact ⟨result', s', (bind_ok hskip).trans hcall, hall.skip hrec⟩
    · obtain ⟨result₁, s₁, hcall₁, hsync⟩ := syncUnit_ok result hlaw (hmine rec List.mem_cons_self)
        (fun q hq => howned q hq rec List.mem_cons_self hrec) hrec
      have hlater : ∀ rec' ∈ recs, rec'.id ≠ rec.id := fun rec' hmem => (hne rec' hmem).symm
      obtain ⟨result', s', hcall, hall⟩ := ih s₁ result₁ hnd
        (fun rec' hmem p => (hmine rec' (List.mem_cons_of_mem rec hmem) p).trans
          (hsync.frames.held (hlater rec' hmem)).symm)
        fun q hq rec' hmem hstatus hkey => by
          refine howned q ((hsync.frames q fun id hid heq => ?_).mp hq) rec'
            (List.mem_cons_of_mem rec hmem) hstatus hkey
          rw [hkey] at heq
          exact hlater rec' hmem ((unitKey_inj (Option.some.inj heq)).trans hid)
      exact ⟨result', s', (bind_ok hcall₁).trans hcall, hsync.cons hrec hlater hall⟩

/-! ## The second loop -/

variable {units : List (String × AgentRecord)} {e : String × Participant} {l : List (String × Participant)}

/-- A live participant whose unit is exited or is no more. -/
def Gone (units : List (String × AgentRecord)) (e : String × Participant) : Prop :=
  e.2.status = .live ∧ ∀ rec, Entries.get units e.1 = some rec → rec.status = .exited

variable (result) in
theorem retireGone_gone (hlaw : cyn.Lawful) (he : cyn.Held runtime s e.1 e.2) (hgone : Gone units e) :
    ∃ s', retireGone cyn runtime units result e s = .ok ({ result with retired := result.retired ++ [e.1] }, s') ∧
      cyn.Frames (· = e.1) s s' ∧ cyn.Held runtime s' e.1 { e.2 with status := .retired } := by
  obtain ⟨s', hcall, hputs⟩ := hlaw.retires s e.2 he.1 _ runtime he.2.1 hgone.1 he.2.2
  have hretire : retireUnit cyn runtime e.1 e.2 result s =
      .ok ({ result with retired := result.retired ++ [e.1] }, s') := bind_ok hcall
  refine ⟨s', ?_, hputs.frames, hputs.held he.2.2⟩
  rw [retireGone, if_neg fun hne => hne hgone.1]
  cases hget : Entries.get units e.1 with
  | none => exact hretire
  | some rec =>
    show (if rec.status ≠ .exited then _ else _ : CynM σ SyncResult) s = _
    rw [if_neg fun hne => hne (hgone.2 rec hget)]
    exact hretire

theorem retireGone_kept (hkept : ¬ Gone units e) : retireGone cyn runtime units result e s = .ok (result, s) := by
  rw [retireGone]
  by_cases hlive : e.2.status = .live
  · rw [if_neg fun hne => hne hlive]
    cases hget : Entries.get units e.1 with
    | none =>
      refine absurd ⟨hlive, fun rec hrec => ?_⟩ hkept
      rw [hget] at hrec
      cases hrec
    | some rec =>
      show (if rec.status ≠ .exited then _ else _ : CynM σ SyncResult) s = _
      rw [if_pos]
      · rfl
      · intro hexited
        refine hkept ⟨hlive, fun rec' hrec' => ?_⟩
        rw [hget] at hrec'
        cases hrec'
        exact hexited
  · rw [if_pos hlive]
    rfl

structure AllRetired (cyn : Cynapse σ) (runtime : String) (units : List (String × AgentRecord))
    (l : List (String × Participant)) (result result' : SyncResult) (s s' : σ) : Prop where
  frames : cyn.Frames (fun id => ∃ e ∈ l, Gone units e ∧ e.1 = id) s s'
  gone : ∀ e ∈ l, Gone units e → cyn.Held runtime s' e.1 { e.2 with status := .retired }
  registered : result'.registered = result.registered
  renamed : result'.renamed = result.renamed
  retired : ∀ id, id ∈ result'.retired ↔ id ∈ result.retired ∨ ∃ e ∈ l, Gone units e ∧ id = e.1

variable (s result units) in
theorem retireAll_ok (hlaw : cyn.Lawful) (hnd : l.Pairwise fun e e' => e.1 ≠ e'.1)
    (hheld : ∀ e ∈ l, Gone units e → cyn.Held runtime s e.1 e.2) :
    ∃ result' s', l.foldlM (retireGone cyn runtime units) result s = .ok (result', s') ∧
      AllRetired cyn runtime units l result result' s s' := by
  induction l generalizing s result with
  | nil => exact ⟨result, s, rfl, .refl, fun _ he => absurd he List.not_mem_nil, rfl, rfl, by simp⟩
  | cons e l ih =>
    obtain ⟨hne, hnd⟩ := List.pairwise_cons.mp hnd
    rw [List.foldlM_cons]
    by_cases hgone : Gone units e
    · obtain ⟨s₁, hcall₁, hframes₁, hheld₁⟩ :=
        retireGone_gone result hlaw (hheld e List.mem_cons_self hgone) hgone
      obtain ⟨result', s', hcall, hall⟩ := ih s₁ { result with retired := result.retired ++ [e.1] } hnd
        fun e' hmem hgone' => (hframes₁.held (hne e' hmem).symm).mpr (hheld e' (List.mem_cons_of_mem e hmem) hgone')
      refine ⟨result', s', (bind_ok hcall₁).trans hcall, fun q hq => ?_, fun e' hmem hgone' => ?_, hall.registered,
        hall.renamed, fun id => ?_⟩
      · refine (hall.frames q fun id hid => ?_).trans
          (hframes₁ q fun id hid => hq id ⟨e, List.mem_cons_self, hgone, hid.symm⟩)
        obtain ⟨e', hmem, he'⟩ := hid
        exact hq id ⟨e', List.mem_cons_of_mem e hmem, he'⟩
      · rcases List.mem_cons.mp hmem with rfl | hmem
        · refine (hall.frames.held ?_).mpr hheld₁
          rintro ⟨e'', hmem, -, heq⟩
          exact hne e'' hmem heq.symm
        · exact hall.gone e' hmem hgone'
      · rw [hall.retired, List.mem_append, List.mem_singleton, or_assoc, List.exists_mem_cons_iff, and_iff_right hgone]
    · obtain ⟨result', s', hcall, hall⟩ := ih s result hnd
        fun e' hmem => hheld e' (List.mem_cons_of_mem e hmem)
      refine ⟨result', s', (bind_ok (retireGone_kept hgone)).trans hcall, fun q hq => hall.frames q fun id hid => ?_,
        fun e' hmem hgone' => ?_, hall.registered, hall.renamed, fun id => ?_⟩
      · obtain ⟨e', hmem, he'⟩ := hid
        exact hq id ⟨e', List.mem_cons_of_mem e hmem, he'⟩
      · rcases List.mem_cons.mp hmem with rfl | hmem
        · exact absurd hgone' hgone
        · exact hall.gone e' hmem hgone'
      · rw [hall.retired, List.exists_mem_cons_iff]
        exact or_congr_right (or_iff_right fun hor => hgone hor.1).symm

/-! ## The sync -/

variable {sha256 : String → String} {root : String} {hub : Registry}

theorem get_unitsOf : Entries.get (unitsOf hub) id = some rec ↔ rec ∈ Registry.list hub ∧ isUnit rec ∧ rec.id = id :=
  (Entries.get_eq_some Entries.keyed_ofList).trans mem_unitsOf

theorem mem_units : rec ∈ (unitsOf hub).map (·.2) ↔ rec ∈ Registry.list hub ∧ isUnit rec := by
  rw [List.mem_map]
  constructor
  · rintro ⟨⟨id, rec'⟩, he, rfl⟩
    obtain ⟨hrec, hunit, -⟩ := mem_unitsOf.mp he
    exact ⟨hrec, hunit⟩
  · exact fun h => ⟨(rec.id, rec), mem_unitsOf.mpr ⟨h.1, h.2, rfl⟩, rfl⟩

theorem units_pairwise : ((unitsOf hub).map (·.2)).Pairwise fun rec rec' => rec.id ≠ rec'.id := by
  refine List.pairwise_map.mpr ((List.pairwise_map.mp Entries.keyed_ofList).imp_of_mem fun he he' hne => ?_)
  rw [(mem_unitsOf.mp he).2.2, (mem_unitsOf.mp he').2.2]
  exact hne

theorem kept_iff : Kept hub rec ↔ rec ∈ (unitsOf hub).map (·.2) ∧ rec.status ≠ .exited := by
  rw [Kept, mem_units, and_assoc]

theorem gone_iff : Gone (unitsOf hub) (id, p) ↔ p.status = .live ∧ ¬ ∃ rec, Kept hub rec ∧ rec.id = id := by
  refine and_congr_right fun _ => ⟨?_, fun h rec hrec => ?_⟩
  · rintro h ⟨rec, ⟨hrec, hunit, hstatus⟩, hid⟩
    exact hstatus (h rec (get_unitsOf.mpr ⟨hrec, hunit, hid⟩))
  · obtain ⟨hmem, hunit, hid⟩ := get_unitsOf.mp hrec
    by_contra hstatus
    exact h ⟨rec, ⟨hmem, hunit, hstatus⟩, hid⟩

theorem registerHub_ok (hlaw : cyn.Lawful) (reg : Registration) :
    ∃ p s', cyn.registerParticipant reg s = .ok (p, s') ∧ p ∈ cyn.participants s' ∧ p.key = some reg.key ∧
      p.status = .live ∧ (∀ q, q.key ≠ some reg.key → (q ∈ cyn.participants s' ↔ q ∈ cyn.participants s)) ∧
      ∀ q ∈ cyn.participants s, q.key = some reg.key → q.status = .live → q ∈ cyn.participants s' := by
  have hputs : ∀ {p s'}, cyn.Puts s reg.key p s' →
      p ∈ cyn.participants s' ∧ ∀ q, q.key ≠ some reg.key →
      (q ∈ cyn.participants s' ↔ q ∈ cyn.participants s) := by
    rintro p s' ⟨hkey, hmem⟩
    refine ⟨(hmem p).mpr (.inl rfl), fun q hq => ?_⟩
    rw [hmem, or_iff_right, and_iff_left hq]
    rintro rfl
    exact hq hkey
  by_cases hthere : ∃ q ∈ cyn.participants s, q.key = some reg.key
  · obtain ⟨q, hq, hkey⟩ := hthere
    cases hstatus : q.status with
    | live => exact ⟨q, s, hlaw.finds s reg q hq hkey hstatus, hq, hkey, hstatus, fun _ _ => Iff.rfl, fun _ h _ _ => h⟩
    | retired =>
      obtain ⟨s', hcall, hp⟩ := hlaw.revives s reg q hq hkey hstatus
      refine ⟨_, s', hcall, (hputs hp).1, hkey, rfl, (hputs hp).2, fun q' hq' hkey' hlive => ?_⟩
      rw [hlaw.keys s q' hq' q hq (by rw [hkey']; exact Option.some_ne_none _) (hkey'.trans hkey.symm),
        hstatus] at hlive
      cases hlive
  · have hnone : ∀ q ∈ cyn.participants s, q.key ≠ some reg.key := fun q hq hkey => hthere ⟨q, hq, hkey⟩
    obtain ⟨s', hcall, hp⟩ := hlaw.creates s reg hnone
    exact ⟨_, s', hcall, (hputs hp).1, rfl, rfl, (hputs hp).2, fun q hq hkey => absurd hkey (hnone q hq)⟩

/-- A state with nothing left to change. -/
structure InSync (cyn : Cynapse σ) (sha256 : String → String) (root : String) (hub : Registry) (s : σ) : Prop where
  self : ∃ p ∈ cyn.participants s, p.key = some (runtimeKey sha256 root) ∧ p.status = .live
  mirrors : ∀ rec, Kept hub rec → cyn.Mirrors (cyn.idOf (runtimeKey sha256 root)) s rec
  only : ∀ id p, cyn.Held (cyn.idOf (runtimeKey sha256 root)) s id p → p.status = .live →
    ∃ rec, Kept hub rec ∧ rec.id = id

theorem foldlM_idle {α β : Type} {f : β → α → CynM σ β} {b : β} {l : List α}
    (h : ∀ a ∈ l, f b a s = .ok (b, s)) :
    l.foldlM f b s = .ok (b, s) := by
  induction l with
  | nil => rfl
  | cons a l ih =>
    rw [List.foldlM_cons, bind_ok (h a List.mem_cons_self)]
    exact ih fun a' hmem => h a' (List.mem_cons_of_mem a hmem)

theorem syncParticipants_idle (hlaw : cyn.Lawful) (h : InSync cyn sha256 root hub s) :
    syncParticipants cyn sha256 root hub s = .ok ({}, s) := by
  obtain ⟨p, hp, hkey, hlive⟩ := h.self
  have hid : p.id = cyn.idOf (runtimeKey sha256 root) := hlaw.ids s p hp _ hkey
  rw [syncParticipants, bind_ok (hlaw.finds s _ p hp hkey hlive)]
  have hunits : ((unitsOf hub).map (·.2)).foldlM (syncUnit cyn p.id (mineOf p.id (cyn.participants s))) {} s =
      .ok ({}, s) := by
    refine foldlM_idle fun rec hrec => ?_
    rw [syncUnit]
    by_cases hstatus : rec.status = .exited
    · rw [if_pos hstatus]
      rfl
    · obtain ⟨q, hq, hqlive, hname⟩ := h.mirrors rec (kept_iff.mpr ⟨hrec, hstatus⟩)
      rw [if_neg hstatus, hlaw.get_mineOf.mpr (hid ▸ hq)]
      show (if q.status = .retired then _ else _ : CynM σ SyncResult) s = _
      rw [if_neg (by rw [hqlive]; decide), renameUnit, if_neg fun hne => hne hname]
      rfl
  have hgone : (mineOf p.id (cyn.participants s)).foldlM (retireGone cyn p.id (unitsOf hub)) {} s = .ok ({}, s) := by
    refine foldlM_idle fun e he => retireGone_kept fun hgone => ?_
    obtain ⟨hlive, hno⟩ := gone_iff.mp hgone
    exact hno (h.only e.1 e.2 (hid ▸ hlaw.mem_mineOf.mp he) hlive)
  have hget : (get : CynM σ σ) s = .ok (s, s) := rfl
  exact (bind_ok hget).trans ((bind_ok hunits).trans hgone)

/-- What a sync makes of a state: `s` before, `s'` after. -/
structure InLine (cyn : Cynapse σ) (sha256 : String → String) (root : String) (hub : Registry) (result : SyncResult)
    (s s' : σ) : Prop where
  live : ∀ id handle, (∃ p, cyn.Held (cyn.idOf (runtimeKey sha256 root)) s' id p ∧ p.status = .live ∧
    p.name = handle) ↔
    ∃ rec, Kept hub rec ∧ rec.id = id ∧ rec.handle = handle
  others : ∀ q, q.registeredBy ≠ some (cyn.idOf (runtimeKey sha256 root)) → q.key ≠ some (runtimeKey sha256 root) →
    (q ∈ cyn.participants s' ↔ q ∈ cyn.participants s)
  self : ∀ q ∈ cyn.participants s, q.key = some (runtimeKey sha256 root) → q.status = .live →
    q ∈ cyn.participants s'
  registered : ∀ id, id ∈ result.registered ↔
    ∃ rec, Kept hub rec ∧ id = rec.id ∧ cyn.Lacks (cyn.idOf (runtimeKey sha256 root)) s rec
  renamed : ∀ id, id ∈ result.renamed ↔
    ∃ rec, Kept hub rec ∧ id = rec.id ∧ cyn.Misnames (cyn.idOf (runtimeKey sha256 root)) s rec
  retired : ∀ id, id ∈ result.retired ↔
    (∃ p, cyn.Held (cyn.idOf (runtimeKey sha256 root)) s id p ∧ p.status = .live) ∧
      ¬ ∃ rec, Kept hub rec ∧ rec.id = id

structure Looped (cyn : Cynapse σ) (runtime : String) (hub : Registry) (result : SyncResult) (s s' : σ) : Prop where
  mirrors : ∀ rec, Kept hub rec → cyn.Mirrors runtime s' rec
  only : ∀ id p, cyn.Held runtime s' id p → p.status = .live → ∃ rec, Kept hub rec ∧ rec.id = id
  beside : ∀ q, (∀ id, q.key ≠ some (unitKey id)) → (q ∈ cyn.participants s' ↔ q ∈ cyn.participants s)
  foreign : ∀ q, q.registeredBy ≠ some runtime → (q ∈ cyn.participants s' ↔ q ∈ cyn.participants s)
  registered : ∀ id, id ∈ result.registered ↔ ∃ rec, Kept hub rec ∧ id = rec.id ∧ cyn.Lacks runtime s rec
  renamed : ∀ id, id ∈ result.renamed ↔ ∃ rec, Kept hub rec ∧ id = rec.id ∧ cyn.Misnames runtime s rec
  retired : ∀ id, id ∈ result.retired ↔
    (∃ p, cyn.Held runtime s id p ∧ p.status = .live) ∧ ¬ ∃ rec, Kept hub rec ∧ rec.id = id

variable (s runtime hub) in
theorem loops_ok (hlaw : cyn.Lawful)
    (howned : ∀ q ∈ cyn.participants s, ∀ rec, Kept hub rec → q.key = some (unitKey rec.id) →
      q.registeredBy = some runtime) :
    ∃ result₁ s₁ result s', ((unitsOf hub).map (·.2)).foldlM
        (syncUnit cyn runtime (mineOf runtime (cyn.participants s))) {} s = .ok (result₁, s₁) ∧
      (mineOf runtime (cyn.participants s)).foldlM (retireGone cyn runtime (unitsOf hub)) result₁ s₁ =
        .ok (result, s') ∧
      Looped cyn runtime hub result s s' := by
  obtain ⟨result₁, s₁, hcall₁, h₁⟩ := syncUnits_ok s {} hlaw units_pairwise
    (fun rec _ p => hlaw.get_mineOf) fun q hq rec hrec hstatus => howned q hq rec (kept_iff.mpr ⟨hrec, hstatus⟩)
  have hframes₁ : cyn.Frames (fun id => ∃ rec, Kept hub rec ∧ rec.id = id) s s₁ := by
    intro q hq
    refine h₁.frames q fun id hid => hq id ?_
    obtain ⟨rec, hrec, hstatus, hid⟩ := hid
    exact ⟨rec, kept_iff.mpr ⟨hrec, hstatus⟩, hid⟩
  have hmine : (mineOf runtime (cyn.participants s)).Pairwise fun e e' => e.1 ≠ e'.1 :=
    List.pairwise_map.mp Entries.keyed_ofList
  obtain ⟨result, s', hcall, h⟩ := retireAll_ok s₁ result₁ (unitsOf hub) hlaw hmine
    fun e he hgone => (hframes₁.held (gone_iff.mp hgone).2).mpr (hlaw.mem_mineOf.mp he)
  have hframes : cyn.Frames (fun id => ∃ p, cyn.Held runtime s id p ∧ Gone (unitsOf hub) (id, p)) s₁ s' := by
    intro q hq
    refine h.frames q fun id hid => hq id ?_
    obtain ⟨e, he, hgone, rfl⟩ := hid
    exact ⟨e.2, hlaw.mem_mineOf.mp he, hgone⟩
  have hnot : ∀ {rec : AgentRecord}, Kept hub rec → ¬ ∃ p, cyn.Held runtime s rec.id p ∧
      Gone (unitsOf hub) (rec.id, p) := by
    rintro rec hrec ⟨p, -, hgone⟩
    exact (gone_iff.mp hgone).2 ⟨rec, hrec, rfl⟩
  have hmirrors : ∀ rec, Kept hub rec → cyn.Mirrors runtime s' rec := by
    intro rec hrec
    obtain ⟨hmem, hstatus⟩ := kept_iff.mp hrec
    exact (hframes.mirrors (hnot hrec)).mpr (h₁.mirrors rec hmem hstatus)
  have hgone : ∀ {id p}, cyn.Held runtime s id p → Gone (unitsOf hub) (id, p) →
      cyn.Held runtime s' id { p with status := .retired } := fun hp hg => h.gone _ (hlaw.mem_mineOf.mpr hp) hg
  refine ⟨result₁, s₁, result, s', hcall₁, hcall, hmirrors, fun id p hp hlive => ?_, fun q hq => ?_, fun q hq => ?_,
    fun id => ?_, fun id => ?_, fun id => ?_⟩
  · by_contra hkept
    by_cases hg : ∃ p, cyn.Held runtime s id p ∧ Gone (unitsOf hub) (id, p)
    · obtain ⟨p', hp', hg⟩ := hg
      rw [hlaw.held_unique hp (hgone hp' hg)] at hlive
      cases hlive
    · have hp₀ := (hframes₁.held hkept).mp ((hframes.held hg).mp hp)
      exact hg ⟨p, hp₀, gone_iff.mpr ⟨hlive, hkept⟩⟩
  · exact (hframes q fun id _ => hq id).trans (hframes₁ q fun id _ => hq id)
  · have hclash : ∀ {t id p}, q ∈ cyn.participants t → q.key = some (unitKey id) → ¬ cyn.Held runtime t id p := by
      intro t id p hmem hkey hp
      have heq := hlaw.keys t q hmem p hp.1 (by rw [hkey]; exact Option.some_ne_none _) (hkey.trans hp.2.1.symm)
      exact hq (heq ▸ hp.2.2)
    by_cases hkept : ∃ rec, Kept hub rec ∧ q.key = some (unitKey rec.id)
    · obtain ⟨rec, hrec, hkey⟩ := hkept
      obtain ⟨p, hp, -⟩ := hmirrors rec hrec
      exact iff_of_false (fun hmem => hclash hmem hkey hp) fun hmem => hq (howned q hmem rec hrec hkey)
    · by_cases hg : ∃ id p, q.key = some (unitKey id) ∧ cyn.Held runtime s id p ∧ Gone (unitsOf hub) (id, p)
      · obtain ⟨id, p, hkey, hp, hg⟩ := hg
        exact iff_of_false (fun hmem => hclash hmem hkey (hgone hp hg)) fun hmem => hclash hmem hkey hp
      · refine (hframes q fun id hid hkey => ?_).trans (hframes₁ q fun id hid hkey => ?_)
        · obtain ⟨p, hp, hid⟩ := hid
          exact hg ⟨id, p, hkey, hp, hid⟩
        · obtain ⟨rec, hrec, rfl⟩ := hid
          exact hkept ⟨rec, hrec, hkey⟩
  · rw [h.registered, h₁.registered, or_iff_right List.not_mem_nil]
    refine exists_congr fun rec => ?_
    rw [kept_iff, and_assoc]
  · rw [h.renamed, h₁.renamed, or_iff_right List.not_mem_nil]
    refine exists_congr fun rec => ?_
    rw [kept_iff, and_assoc]
  · rw [h.retired, h₁.retired, or_iff_right List.not_mem_nil]
    constructor
    · rintro ⟨e, he, hg, rfl⟩
      obtain ⟨hlive, hkept⟩ := gone_iff.mp hg
      exact ⟨⟨e.2, hlaw.mem_mineOf.mp he, hlive⟩, hkept⟩
    · rintro ⟨⟨p, hp, hlive⟩, hkept⟩
      exact ⟨(id, p), hlaw.mem_mineOf.mpr hp, gone_iff.mpr ⟨hlive, hkept⟩, rfl⟩

theorem syncParticipants_ok (hlaw : cyn.Lawful)
    (howned : ∀ q ∈ cyn.participants s, ∀ rec, Kept hub rec → q.key = some (unitKey rec.id) →
      q.registeredBy = some (cyn.idOf (runtimeKey sha256 root))) :
    ∃ result s', syncParticipants cyn sha256 root hub s = .ok (result, s') ∧
      InLine cyn sha256 root hub result s s' ∧ InSync cyn sha256 root hub s' := by
  obtain ⟨p, s₁, hcall₁, hp, hkey, hlive, hothers₁, hself₁⟩ := registerHub_ok (s := s) hlaw
    { key := runtimeKey sha256 root, kind := "service", name := "cyberlegion" }
  have hid : p.id = cyn.idOf (runtimeKey sha256 root) := hlaw.ids s₁ p hp _ hkey
  have hunit : ∀ {q : Participant} {id}, q.key = some (unitKey id) → q.key ≠ some (runtimeKey sha256 root) := by
    intro q id hq hself
    exact runtimeKey_ne (Option.some.inj (hself.symm.trans hq))
  have hheld₁ : ∀ id q, cyn.Held p.id s₁ id q ↔ cyn.Held p.id s id q := fun id q =>
    and_congr_left fun hq => hothers₁ q (hunit hq.1)
  obtain ⟨result₁, s₂, result, s', hcall₂, hcall₃, h⟩ := loops_ok p.id s₁ hub hlaw
    fun q hq rec hrec hq' => hid ▸ howned q ((hothers₁ q (hunit hq')).mp hq) rec hrec hq'
  have hself : ∀ q : Participant, q.key = some (runtimeKey sha256 root) →
      (q ∈ cyn.participants s' ↔ q ∈ cyn.participants s₁) := fun q hq =>
    h.beside q fun id hunit' => hunit hunit' hq
  have hget : (get : CynM σ σ) s₁ = .ok (s₁, s₁) := rfl
  have hcall : syncParticipants cyn sha256 root hub s = .ok (result, s') :=
    (bind_ok hcall₁).trans ((bind_ok hget).trans ((bind_ok hcall₂).trans hcall₃))
  rw [hid] at h hheld₁
  refine ⟨result, s', hcall, ⟨fun id handle => ?_, fun q hreg hkey' => ?_, fun q hq hkey' hlive' => ?_, fun id => ?_,
    fun id => ?_, fun id => ?_⟩, ⟨⟨p, (hself p hkey).mpr hp, hkey, hlive⟩, h.mirrors, h.only⟩⟩
  · constructor
    · rintro ⟨q, hq, hqlive, rfl⟩
      obtain ⟨rec, hrec, rfl⟩ := h.only id q hq hqlive
      obtain ⟨q', hq', -, hname⟩ := h.mirrors rec hrec
      exact ⟨rec, hrec, rfl, by rw [hlaw.held_unique hq hq', hname]⟩
    · rintro ⟨rec, hrec, rfl, rfl⟩
      exact h.mirrors rec hrec
  · exact (h.foreign q hreg).trans (hothers₁ q hkey')
  · exact (hself q hkey').mpr (hself₁ q hq hkey' hlive')
  · rw [h.registered]
    exact exists_congr fun rec => and_congr_right fun _ => and_congr_right fun _ =>
      forall_congr' fun q => imp_congr_left (hheld₁ rec.id q)
  · rw [h.renamed]
    exact exists_congr fun rec => and_congr_right fun _ => and_congr_right fun _ =>
      exists_congr fun q => and_congr_left fun _ => hheld₁ rec.id q
  · rw [h.retired]
    exact and_congr_left fun _ => exists_congr fun q => and_congr_left fun _ => hheld₁ id q

/-- Participants mirror the hub. -/
theorem participants_mirror_hub (hlaw : cyn.Lawful)
    (howned : ∀ q ∈ cyn.participants s, ∀ rec, Kept hub rec → q.key = some (unitKey rec.id) →
      q.registeredBy = some (cyn.idOf (runtimeKey sha256 root))) :
    ∃ result s', syncParticipants cyn sha256 root hub s = .ok (result, s') ∧
      InLine cyn sha256 root hub result s s' ∧ syncParticipants cyn sha256 root hub s' = .ok ({}, s') := by
  obtain ⟨result, s', hcall, hline, hsync⟩ := syncParticipants_ok hlaw howned
  exact ⟨result, s', hcall, hline, syncParticipants_idle hlaw hsync⟩

end

/-! A cynapse that files participants under their keys, and revives under the old name. -/

def ledgerId (key : String) : String := "uuid:" ++ key

abbrev Ledger := Filed Participant.key fun p => p.key.map ledgerId = some p.id

def Ledger.file (p : Participant) (s : Ledger) : Ledger :=
  if h : p.key.map ledgerId = some p.id then s.put p h else s

def Ledger.register (reg : Registration) (s : Ledger) : Except CynapseError (Participant × Ledger) :=
  match s.get (some reg.key) with
  | none =>
    let p : Participant := ⟨ledgerId reg.key, reg.key, reg.kind, reg.name, reg.registeredBy, .live⟩
    .ok (p, s.file p)
  | some p => if p.status = .live then .ok (p, s)
      else .ok ({ p with status := .live }, s.file { p with status := .live })

def Ledger.change (id actor : String) (f : Participant → Participant) (s : Ledger) :
    Except CynapseError (Unit × Ledger) :=
  match s.values.find? (·.id = id) with
  | none => .error ⟨"no such participant"⟩
  | some p => if p.registeredBy = some actor then .ok ((), s.file (f p)) else .error ⟨"not its registrar"⟩

def ledgerCynapse : Cynapse Ledger where
  participants s := s.values
  registerParticipant := Ledger.register
  renameParticipant id name actor := Ledger.change id actor fun p => { p with name := name }
  retireParticipant id actor := Ledger.change id actor fun p => { p with status := .retired }
  idOf := ledgerId
  revivedName old _ := old

section
variable {s : Ledger} {p q : Participant} {key : String}

theorem ledger_puts (hkey : p.key = some key) (hid : p.id = ledgerId key) : ledgerCynapse.Puts s key p (s.file p) := by
  have hvalid : p.key.map ledgerId = some p.id := by rw [hkey, hid]; rfl
  refine ⟨hkey, fun q => ?_⟩
  rw [Ledger.file, dif_pos hvalid]
  show q ∈ (s.put p hvalid).values ↔ q = p ∨ q ∈ s.values ∧ _
  rw [Filed.mem_values, Filed.mem_values, Filed.get_put, hkey]
  by_cases hq : q.key = some key
  · rw [if_pos hq, or_iff_left fun h => h.2 hq]
    exact ⟨fun h => (Option.some.inj h).symm, fun h => congrArg some h.symm⟩
  · rw [if_neg hq, and_iff_left hq, or_iff_right]
    rintro rfl
    exact hq hkey

theorem ledger_id (hp : p ∈ s.values) (hkey : p.key = some key) : p.id = ledgerId key := by
  have hvalid := Filed.valid_of_get (Filed.mem_values.mp hp)
  rw [hkey] at hvalid
  exact (Option.some.inj hvalid).symm

theorem ledger_change {actor : String} {f : Participant → Participant} (hp : p ∈ s.values) (hkey : p.key = some key)
    (hreg : p.registeredBy = some actor) (hfkey : (f p).key = p.key) (hfid : (f p).id = p.id) :
    ∃ s', Ledger.change p.id actor f s = .ok ((), s') ∧ ledgerCynapse.Puts s key (f p) s' := by
  have hfind : s.values.find? (·.id = p.id) = some p := by
    have hsome : (s.values.find? (·.id = p.id)).isSome := List.find?_isSome.mpr ⟨p, hp, decide_eq_true rfl⟩
    obtain ⟨q, hq⟩ := Option.isSome_iff_exists.mp hsome
    have hmem := List.mem_of_find?_eq_some hq
    have hsame : q.id = p.id := of_decide_eq_true (List.find?_some hq :)
    have hvalid := Filed.valid_of_get (Filed.mem_values.mp hmem)
    obtain ⟨key', hkey', hid'⟩ := Option.map_eq_some_iff.mp hvalid
    have hkeys : key' = key := by
      rw [hsame, ledger_id hp hkey] at hid'
      have hlist := congrArg String.toList hid'
      simp only [ledgerId, String.toList_append, List.append_cancel_left_eq] at hlist
      exact String.toList_inj.mp hlist
    have hget := Filed.mem_values.mp hmem
    rw [hkey', hkeys, ← hkey, Filed.mem_values.mp hp] at hget
    rw [hq, hget]
  refine ⟨s.file (f p), ?_, ledger_puts (hfkey.trans hkey) (hfid.trans (ledger_id hp hkey))⟩
  rw [Ledger.change, hfind]
  exact if_pos hreg

end

theorem lawful_ledgerCynapse : ledgerCynapse.Lawful where
  keys s p hp q hq _ hkey := by
    have hp' := Filed.mem_values.mp hp
    rw [hkey, Filed.mem_values.mp hq] at hp'
    exact (Option.some.inj hp').symm
  ids _ _ hp _ hkey := ledger_id hp hkey
  creates s reg hnone := by
    refine ⟨_, ?_, ledger_puts rfl rfl⟩
    have hget : s.get (some reg.key) = none := by
      cases hget : s.get (some reg.key) with
      | none => rfl
      | some p =>
        have hkey := Filed.key_of_get hget
        exact absurd hkey (hnone p (Filed.mem_values.mpr (by rw [hkey]; exact hget)))
    show Ledger.register reg s = _
    rw [Ledger.register, hget]
    rfl
  revives s reg q hq hkey hretired := by
    have hid : q.id = ledgerId reg.key := ledger_id hq hkey
    refine ⟨_, ?_, ledger_puts hkey hid⟩
    have hget := Filed.mem_values.mp hq
    rw [hkey] at hget
    show Ledger.register reg s = _
    rw [Ledger.register, hget]
    exact if_neg (by rw [hretired]; decide)
  finds s reg q hq hkey hlive := by
    have hget := Filed.mem_values.mp hq
    rw [hkey] at hget
    show Ledger.register reg s = _
    rw [Ledger.register, hget]
    exact if_pos hlive
  renames _ _ hp _ _ _ hkey _ hreg := ledger_change hp hkey hreg rfl rfl
  retires _ _ hp _ _ hkey _ hreg := ledger_change hp hkey hreg rfl rfl

/-! A unit whose participant was retired under an older handle. -/

def hubSha (_ : String) : String := "2382ac746042bf1e52162f2593908d7eeb4980013f7de27d5d9e75443484d9b9"

def hubUnit : AgentRecord :=
  { id := "aaaa000000000001", handle := "back", cwd := "/", status := .active, createdAt := 0, lastSeen := 0 }

def oneUnitHub : Registry := Filed.empty.put hubUnit (by decide)

def hubKey : String := runtimeKey hubSha "/hub"

def oldParticipant : Participant :=
  ⟨ledgerId (unitKey hubUnit.id), unitKey hubUnit.id, "agent", "gone", some (ledgerId hubKey), .retired⟩

def oldLedger : Ledger :=
  Ledger.file oldParticipant (Ledger.file ⟨ledgerId hubKey, hubKey, "service", "cyberlegion", none, .live⟩ .empty)

theorem participants_mirror_hub_revived :
    ∃ result s', syncParticipants ledgerCynapse hubSha "/hub" oneUnitHub oldLedger = .ok (result, s') ∧
      InLine ledgerCynapse hubSha "/hub" oneUnitHub result oldLedger s' ∧
      syncParticipants ledgerCynapse hubSha "/hub" oneUnitHub s' = .ok ({}, s') := by
  refine participants_mirror_hub lawful_ledgerCynapse fun q hq rec hrec hkey => ?_
  have hunit : rec = hubUnit := by
    have hget := Registry.mem_list.mp hrec.1
    rw [oneUnitHub, Filed.get_put] at hget
    by_cases hid : rec.id = hubUnit.id
    · rw [if_pos hid] at hget
      exact (Option.some.inj hget).symm
    · rw [if_neg hid] at hget
      cases hget
  rw [hunit] at hkey
  have hold := ((ledger_puts (p := oldParticipant) rfl rfl).2 q).mp hq
  rw [hold.resolve_right fun h => h.2 hkey]
  rfl

end Participants

end Cyberlegion
