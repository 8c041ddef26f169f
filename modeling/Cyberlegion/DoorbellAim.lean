import Cyberlegion.Doorbell
import Cyberlegion.PaneIndex

/-!
# Whom a wake rings

The store at one moment is a `Desk`, which knows of each entry of the pane index the pane
it was put for. `findPaneByAgentId` answers the entry's file name, and a presence that has
stopped still counts as live.
-/

namespace Cyberlegion

namespace Console

open Effects

/-! ## The store, and what is asked outside it -/

structure Desk where
  agents : Registry
  entries : List (String × String)
  mainPane : Option String
  named : (entries.map fun e => sanitizePane e.1).Nodup

inductive Asked (ε : Type)
  | spawnHome (owner : AgentRecord)
  | getAdapter (r : Except ε Unit)
  | isPaneFocused (pane : String) (r : Except ε (Option Bool))
  | ring (pane : String) (r : Except ε Unit)

structure Office (ε : Type) where
  desk : Desk
  log : List (Asked ε) := []

inductive WakeReply (ε : Type)
  | did (r : Except ε Unit)
  | focus (r : Except ε (Option Bool))

instance {ε : Type} : Inhabited (WakeReply ε) := ⟨.did (.ok ())⟩

abbrev Spawner (ε : Type) := AgentRecord → Except ε HomeSpawn × Desk

section
variable {ε : Type}

def Desk.entryOf (d : Desk) (id : String) : Option (String × String) := d.entries.find? fun e => jsTrim e.2 = id

def Desk.findPaneByAgentId (d : Desk) (id : String) : Option String := (d.entryOf id).map fun e => sanitizePane e.1

def Office.saw (w : Office ε) (x : Asked ε) : Office ε := { w with log := w.log ++ [x] }

def office (spawner : Spawner ε) : (op : WakeCall) → WakeReply ε → Office ε → Option (op.Res ε × Office ε)
  | .getAgent id, _, w => some (.ok (w.desk.agents.get id), w)
  | .findPaneByAgentId id, _, w => some (.ok (w.desk.findPaneByAgentId id), w)
  | .getMainPane, _, w => some (.ok w.desk.mainPane, w)
  | .spawnHome owner, _, w => some ((spawner owner).1, { w.saw (.spawnHome owner) with desk := (spawner owner).2 })
  | .getAdapter, .did r, w => some (r, w.saw (.getAdapter r))
  | .isPaneFocused pane, .focus r, w => some (r, w.saw (.isPaneFocused pane r))
  | .ring pane _ _ _, .did r, w => some (r, w.saw (.ring pane r))
  | _, _, _ => none

end

/-! ## Whom it should ring -/

section
variable {ε : Type} (d : Desk) (fromId : String) (pane sender : Option String) (gated : Bool)

/-- The pane of a unit: its record's, or the one an index entry was put for. -/
def Desk.ownPane (id : String) : Option String :=
  match (d.agents.get id).bind (·.pane) with
  | some pane => some pane.id
  | none => (d.entryOf id).map (·.1)

/-- A standing owner's presence whose runtime is still there. -/
def Desk.runtime (owner : AgentRecord) : Option AgentRecord :=
  ((given owner.presence).bind d.agents.get).filter fun unit => unit.status ≠ .exited ∧ unit.status ≠ .stopped

/-- The pane to ring, unless there is none or it is the sender's, and whether focus gates the ring. -/
def aim : Option (String × Bool) :=
  match given pane with
  | none => none
  | some pane => if some pane = sender then none else some (pane, gated)

def rings : List (Asked ε) → List String := List.filterMap fun
  | .ring pane _ => some pane
  | _ => none

def probes : List (Asked ε) → List (String × Except ε (Option Bool)) := List.filterMap fun
  | .isPaneFocused pane r => some (pane, r)
  | _ => none

/-- Positively unfocused. -/
def Unfocused (log : List (Asked ε)) : Prop := ∃ x ∈ probes log, x.2 = .ok (some false)

/-- The ring goes to `pane` and nowhere else; only a gated one asks for the focus first, and
only an unfocused pane or a multiplexer that does not answer keeps it from being rung. -/
structure LandsOn (pane : String) (gated : Bool) (log : List (Asked ε)) : Prop where
  spawns : ∀ owner, .spawnHome owner ∉ log
  rings : ∀ q ∈ rings log, q = pane
  probes : ∀ x ∈ probes log, x.1 = pane ∧ gated = true
  gate : gated = true → Console.rings log ≠ [] →
    ¬Unfocused log ∧ (Console.probes log ≠ [] ∨ ∃ e, log.head? = some (.getAdapter (.error e)))
  rung : Console.rings log = [pane] ∨ Unfocused log ∨ ∃ e, log.getLast? = some (.getAdapter (.error e))

def Lands : Option (String × Bool) → List (Asked ε) → Prop
  | none, log => log = []
  | some (pane, gated), log => LandsOn pane gated log

def Desk.unitAim (id : String) : Option (String × Bool) := aim (d.ownPane id) (d.ownPane fromId) false

def Desk.mainAim : Option (String × Bool) := aim d.mainPane (d.ownPane fromId) true

/-- Whom a wake should ring. -/
def Aimed (spawner : Spawner ε) (d : Desk) (input : WakeInput) (r : Except ε WakeResult)
    (log : List (Asked ε)) : Prop :=
  match d.agents.get input.toId with
  | none => log = []
  | some recipient =>
    if recipient.kind = .standing then
      match d.runtime recipient with
      | some unit => Lands (d.unitAim input.fromId unit.id) log
      | none =>
        if recipient.home.isSome ∧ input.spawnHome then
          ∃ rest, log = .spawnHome recipient :: rest ∧
            match spawner recipient with
            | (.ok (.existing unit), after) => Lands (after.unitAim input.fromId unit.id) rest
            | (.ok (.spawned unit pane _ _ _), _) =>
              rest = [] ∧ ∃ result, r = .ok result ∧ result.spawned = some unit.id ∧ result.pane = some pane
            | (.error _, after) => Lands (after.mainAim input.fromId) rest
        else Lands (d.mainAim input.fromId) log
    else Lands (d.unitAim input.fromId recipient.id) log

end

/-! ## When it does -/

section
variable {ε : Type} (d : Desk) (fromId : String)

/-- The pane of a unit that only the index knows, where the entry's file name is not its id. -/
def Desk.misfiled (id : String) : Option String :=
  match (d.agents.get id).bind (·.pane) with
  | some _ => none
  | none => ((d.entryOf id).map (·.1)).filter fun pane => sanitizePane pane ≠ pane

/-- `pane` is neither the sender's nor named as the entry of the sender's. -/
def Desk.Apart (pane : Option String) : Prop :=
  ∀ own, d.misfiled fromId = some own → pane ≠ some own ∧ pane ≠ some (sanitizePane own)

/-- The unit's pane is filed under its own id and apart from the sender's, or it is the sender's. -/
def Desk.Tells (id : String) : Prop :=
  match d.misfiled id with
  | none => d.Apart fromId (d.ownPane id)
  | some own => d.misfiled fromId = some own

def Desk.foundPane (id : String) : Option String :=
  match (d.agents.get id).bind (·.pane) with
  | some pane => some pane.id
  | none => d.findPaneByAgentId id

def Desk.presence (owner : AgentRecord) : Option AgentRecord :=
  ((given owner.presence).bind d.agents.get).filter (·.status ≠ .exited)

def Mute (pane sender : Option String) : Prop := given pane = none ∨ pane = sender

def Aimable (spawner : Spawner ε) (d : Desk) (input : WakeInput) : Prop :=
  ∀ recipient, d.agents.get input.toId = some recipient →
    if recipient.kind = .standing then
      match d.presence recipient with
      | some unit =>
        if unit.status = .stopped then
          ¬(recipient.home.isSome ∧ input.spawnHome) ∧ Mute (d.foundPane unit.id) (d.foundPane input.fromId) ∧
            Mute d.mainPane (d.ownPane input.fromId)
        else d.Tells input.fromId unit.id
      | none =>
        if recipient.home.isSome ∧ input.spawnHome then
          match spawner recipient with
          | (.ok (.existing unit), after) => after.Tells input.fromId unit.id
          | (.ok (.spawned _ _ _ _ _), _) => True
          | (.error _, after) => after.Apart input.fromId after.mainPane
        else d.Apart input.fromId d.mainPane
    else d.Tells input.fromId recipient.id

end

/-! ## The ring -/

def RingEnding {ε : Type} (pane : String) (l : List (Asked ε)) : Prop :=
  (∃ e, l = [.getAdapter (.error e)]) ∨ ∃ r, l = [.getAdapter (.ok ()), .ring pane r]

def Ending {ε : Type} : Option (String × Bool) → List (Asked ε) → Prop
  | none, l => l = []
  | some (pane, false), l => RingEnding pane l
  | some (pane, true), l =>
    (∃ e m, l = .getAdapter (.error e) :: m ∧ RingEnding pane m) ∨
      (∃ r m, l = .getAdapter (.ok ()) :: .isPaneFocused pane r :: m ∧ r ≠ .ok (some false) ∧ RingEnding pane m) ∨
      l = [.getAdapter (.ok ()), .isPaneFocused pane (.ok (some false))]

section
variable {ε : Type} {pane fromId doorbell : String} {gated posted : Bool} {b : Option (String × Bool)}
  {l : List (Asked ε)}

theorem ending_ring (h : RingEnding pane l) :
    probes l = [] ∧ (∀ owner, .spawnHome owner ∉ l) ∧ (∀ q ∈ rings l, q = pane) ∧ l ≠ [] ∧
      (rings l = [pane] ∨ ∃ e, l.getLast? = some (.getAdapter (.error e))) := by
  rcases h with ⟨e, rfl⟩ | ⟨r, rfl⟩
  · exact ⟨rfl, by simp, by simp [rings], by simp, .inr ⟨e, rfl⟩⟩
  · exact ⟨rfl, by simp, by simp [rings], by simp, .inl rfl⟩

theorem lands_ending (h : Ending b l) : Lands b l := by
  rcases b with - | ⟨pane, gated⟩
  · exact h
  cases gated with
  | false =>
    obtain ⟨hprobes, hspawns, hrings, -, hrung⟩ := ending_ring h
    exact ⟨hspawns, hrings, by simp [hprobes], nofun, hrung.imp_right .inr⟩
  | true =>
    rcases h with ⟨e, m, rfl, hm⟩ | ⟨r, m, rfl, hr, hm⟩ | rfl
    · obtain ⟨hprobes, hspawns, hrings, hne, hrung⟩ := ending_ring hm
      have hprobes' : probes (.getAdapter (.error e) :: m) = [] := hprobes
      refine ⟨?_, hrings, ?_, fun _ _ => ⟨?_, .inr ⟨e, rfl⟩⟩, ?_⟩
      · simpa using hspawns
      · simp [hprobes']
      · rintro ⟨x, hx, -⟩
        rw [hprobes'] at hx
        cases hx
      · rw [List.getLast?_cons_of_ne_nil hne]
        exact hrung.imp_right .inr
    · obtain ⟨hprobes, hspawns, hrings, hne, hrung⟩ := ending_ring hm
      have hprobes' : probes (.getAdapter (.ok ()) :: .isPaneFocused pane r :: m) = [(pane, r)] :=
        congrArg ((pane, r) :: ·) hprobes
      refine ⟨?_, hrings, ?_, fun _ _ => ⟨?_, .inl ?_⟩, ?_⟩
      · simpa using hspawns
      · simp [hprobes']
      · rintro ⟨x, hx, hfalse⟩
        rw [hprobes', List.mem_singleton] at hx
        rw [hx] at hfalse
        exact hr hfalse
      · simp [hprobes']
      · rw [List.getLast?_cons_of_ne_nil (List.cons_ne_nil _ _), List.getLast?_cons_of_ne_nil hne]
        exact hrung.imp_right .inr
    · refine ⟨by simp, by simp [rings], by simp [probes], ?_, .inr (.inl ⟨_, List.mem_singleton_self _, rfl⟩)⟩
      intro _ hrings
      exact absurd rfl hrings

theorem aims_iff {a b : Option (String × Bool)} : (∀ l : List (Asked ε), Ending a l → Lands b l) ↔ a = b := by
  constructor
  · intro h
    rcases a with - | ⟨pane, gated⟩
    · rcases b with - | ⟨pane, gated⟩
      · rfl
      · rcases (h [] rfl).rung with hrung | ⟨x, hx, -⟩ | ⟨e, he⟩
        · cases hrung
        · cases hx
        · cases he
    · cases gated with
      | false =>
        have hl := h [.getAdapter (.ok ()), .ring pane (.ok ())] (.inr ⟨_, rfl⟩)
        rcases b with - | ⟨q, gated⟩
        · cases hl
        · obtain rfl := hl.rings pane (List.mem_singleton_self _)
          cases gated with
          | false => rfl
          | true =>
            obtain ⟨-, hprobes | ⟨e, he⟩⟩ := hl.gate rfl (List.cons_ne_nil _ _)
            · exact absurd rfl hprobes
            · cases he
      | true =>
        have hl := h [.getAdapter (.ok ()), .isPaneFocused pane (.ok none), .getAdapter (.ok ()), .ring pane (.ok ())]
          (.inr (.inl ⟨_, _, rfl, nofun, .inr ⟨_, rfl⟩⟩))
        rcases b with - | ⟨q, gated⟩
        · cases hl
        · obtain rfl := hl.rings pane (List.mem_singleton_self _)
          obtain rfl := (hl.probes (pane, .ok none) (List.mem_singleton_self _)).2
          rfl
  · rintro rfl l hl
    exact lands_ending hl

end

/-! ## What a wake comes to -/

section
variable {ε α : Type} {spawner : Spawner ε} {w : Office ε} {message : ε → String} {P : List (Asked ε) → Prop}
  {pane fromId doorbell : String} {harness : Option String} {gated posted : Bool}

variable (spawner) in
/-- However the calls outside the store are answered, the program ends in `Q`. -/
abbrev Wakes (p : WakeM ε α) (Q : Except ε α → Office ε → Prop) (w : Office ε) : Prop :=
  wp (office spawner) (fun _ _ => True) (fun _ _ => True) p Q w

variable (spawner) in
abbrev Reads (p : WakeM ε α) (w : Office ε) (r : Except ε α) : Prop := Answers (office spawner) (fun _ _ => True) p w r

theorem reads_loadAgent (id : String) : Reads spawner (loadAgent id) w (.ok (w.desk.agents.get id)) :=
  answers_call trivial (fun _ => rfl) (answers_ret _)

theorem reads_presenceOf (rec : AgentRecord) : Reads spawner (presenceOf rec) w (.ok (w.desk.presence rec)) := by
  rw [presenceOf, Desk.presence]
  cases given rec.presence with
  | none => exact answers_ret _
  | some unit => exact (reads_loadAgent unit).then (answers_ret _)

theorem reads_paneOf (id : String) : Reads spawner (paneOf id) w (.ok (w.desk.foundPane id)) := by
  refine (reads_loadAgent id).then ?_
  rw [Desk.foundPane]
  cases (w.desk.agents.get id).bind (·.pane) with
  | none => exact answers_call trivial (fun _ => rfl) (answers_ret _)
  | some pane => exact answers_ret _

theorem reads_mainPane : Reads spawner (.call .getMainPane answered : WakeM ε _) w (.ok w.desk.mainPane) :=
  answers_call trivial (fun _ => rfl) (answers_ret _)

theorem wakes_ringPane : Wakes spawner (ringPane message pane harness doorbell posted) (fun _ w => P w.log) w ↔
    ∀ l, RingEnding pane l → P (w.log ++ l) := by
  constructor
  · rintro ⟨-, h⟩ l (⟨e, rfl⟩ | ⟨r, rfl⟩)
    · exact h (.did (.error e)) _ _ trivial rfl
    · obtain ⟨-, h⟩ := h (.did (.ok ())) _ _ trivial rfl
      rw [List.append_cons]
      have hring := h (.did r) _ _ trivial rfl
      cases r <;> exact hring
  · intro h
    refine ⟨trivial, fun c r w' _ hop => ?_⟩
    cases c with
    | focus => cases hop
    | did r =>
      cases hop
      cases r with
      | error e => exact h _ (.inl ⟨e, rfl⟩)
      | ok _ =>
        refine ⟨trivial, fun c r w' _ hop => ?_⟩
        cases c with
        | focus => cases hop
        | did r =>
          cases hop
          have hring := h _ (.inr ⟨r, rfl⟩)
          rw [List.append_cons] at hring
          cases r <;> exact hring

theorem wakes_ringGated : Wakes spawner (ringGated message pane harness gated) (fun _ w => P w.log) w ↔
    ∀ l, Ending (some (pane, gated)) l → P (w.log ++ l) := by
  cases gated with
  | false => exact wakes_ringPane
  | true =>
    constructor
    · rintro ⟨-, h⟩ l (⟨e, m, rfl, hm⟩ | ⟨r, m, rfl, hr, hm⟩ | rfl)
      · rw [List.append_cons]
        exact wakes_ringPane.mp (h (.did (.error e)) _ _ trivial rfl) m hm
      · obtain ⟨-, h⟩ := h (.did (.ok ())) _ _ trivial rfl
        rw [List.append_cons, List.append_cons]
        rcases r with e | focused
        · exact wakes_ringPane.mp (h (.focus (.error e)) _ _ trivial rfl) m hm
        · have hfocus : Wakes spawner (if focused = some false then pure { rung := false, pane } else
              ringPane message pane harness DELIVERY_DOORBELL false) _ _ := h (.focus (.ok focused)) _ _ trivial rfl
          rw [if_neg fun heq => hr (congrArg _ heq)] at hfocus
          exact wakes_ringPane.mp hfocus m hm
      · obtain ⟨-, h⟩ := h (.did (.ok ())) _ _ trivial rfl
        rw [List.append_cons]
        exact h (.focus (.ok (some false))) _ _ trivial rfl
    · intro h
      refine ⟨trivial, fun c r w' _ hop => ?_⟩
      cases c with
      | focus => cases hop
      | did r =>
        cases hop
        rcases r with e | _
        · refine wakes_ringPane.mpr fun m hm => ?_
          have hend := h _ (.inl ⟨e, m, rfl, hm⟩)
          rw [List.append_cons] at hend
          exact hend
        · refine ⟨trivial, fun c r w' _ hop => ?_⟩
          cases c with
          | did => cases hop
          | focus r =>
            cases hop
            rcases r with e | focused
            · refine wakes_ringPane.mpr fun m hm => ?_
              have hend := h _ (.inr (.inl ⟨.error e, m, rfl, nofun, hm⟩))
              rw [List.append_cons, List.append_cons] at hend
              exact hend
            · show Wakes spawner (if focused = some false then pure { rung := false, pane } else
              ringPane message pane harness DELIVERY_DOORBELL false) _ _
              by_cases hfalse : focused = some false
              · subst hfalse
                have hend := h _ (.inr (.inr rfl))
                rw [List.append_cons] at hend
                exact hend
              · rw [if_neg hfalse]
                refine wakes_ringPane.mpr fun m hm => ?_
                have hend := h _ (.inr (.inl ⟨.ok focused, m, rfl, fun heq => hfalse (Except.ok.inj heq), hm⟩))
                rw [List.append_cons, List.append_cons] at hend
                exact hend

theorem wakes_ringResolved {pane : Option String} :
    Wakes spawner (ringResolved message fromId pane harness gated) (fun _ w => P w.log) w ↔
      ∀ l, Ending (aim pane (w.desk.foundPane fromId) gated) l → P (w.log ++ l) := by
  have hsilent : Wakes spawner (pure { rung := false } : WakeM ε WakeResult) (fun _ w => P w.log) w ↔
      ∀ l, Ending none l → P (w.log ++ l) := by
    constructor
    · rintro h l rfl
      rw [List.append_nil]
      exact h
    · intro h
      have hnil := h [] rfl
      rw [List.append_nil] at hnil
      exact hnil
  rw [ringResolved, aim]
  cases given pane with
  | none => exact hsilent
  | some pane =>
    refine (reads_paneOf fromId).bind.trans ?_
    by_cases hown : some pane = w.desk.foundPane fromId
    · simp only [if_pos hown]
      exact hsilent
    · simp only [if_neg hown]
      exact wakes_ringGated

theorem wakes_wakeUnit {unit : AgentRecord} : Wakes spawner (wakeUnit message fromId unit) (fun _ w => P w.log) w ↔
    ∀ l, Ending (aim (w.desk.foundPane unit.id) (w.desk.foundPane fromId) false) l → P (w.log ++ l) :=
  (reads_paneOf unit.id).bind.trans wakes_ringResolved

theorem wakes_wakeMain : Wakes spawner (wakeMain message fromId) (fun _ w => P w.log) w ↔
    ∀ l, Ending (aim w.desk.mainPane (w.desk.foundPane fromId) true) l → P (w.log ++ l) :=
  reads_mainPane.bind.trans wakes_ringResolved

end

/-! ## The panes compared -/

section
variable {d : Desk} {fromId id own : String} {pane sender : Option String} {gated : Bool}

variable (gated) in
theorem aim_none : aim pane sender gated = none ↔ Mute pane sender := by
  rw [aim, Mute]
  cases hgiven : given pane with
  | none => simp
  | some s =>
    obtain ⟨rfl, -⟩ := given_eq_some.mp hgiven
    simp

theorem aim_given {s : String} (h : given pane = some s) :
    aim pane sender gated = if some s = sender then none else some (s, gated) := by
  rw [aim, h]

theorem aim_gated {x : String × Bool} (h : aim pane sender gated = some x) : x.2 = gated := by
  cases hgiven : given pane with
  | none => rw [aim, hgiven] at h; cases h
  | some s =>
    rw [aim_given hgiven] at h
    split at h
    · cases h
    · cases h
      rfl

theorem sanitize_eq_empty (h : sanitizePane own = "") : own = "" := by
  have hchars : sanitizeChars own.toList = [] := by rw [← sanitize_toList, h]; rfl
  cases hown : own.toList with
  | nil => exact String.toList_inj.mp hown
  | cons c l =>
    rw [hown, sanitizeChars_cons] at hchars
    obtain ⟨hhead, -⟩ := List.append_eq_nil_iff.mp hchars
    split at hhead
    · cases hhead
    · split at hhead <;> cases hhead

theorem found_cases (d : Desk) (id : String) : d.misfiled id = none ∧ d.foundPane id = d.ownPane id ∨
    ∃ own, d.misfiled id = some own ∧ d.ownPane id = some own ∧ d.foundPane id = some (sanitizePane own) ∧
      sanitizePane own ≠ own := by
  rw [Desk.misfiled, Desk.foundPane, Desk.ownPane, Desk.findPaneByAgentId]
  cases (d.agents.get id).bind (·.pane) with
  | some pane => exact .inl ⟨rfl, rfl⟩
  | none =>
    cases d.entryOf id with
    | none => exact .inl ⟨rfl, rfl⟩
    | some e =>
      by_cases hname : sanitizePane e.1 = e.1
      · refine .inl ⟨?_, congrArg some hname⟩
        simp [hname]
      · refine .inr ⟨e.1, ?_, rfl, rfl, hname⟩
        simp [hname]

/-- The sender's own pane and the name its entry has decide alike on a pane that is neither. -/
theorem aim_sender_iff : aim pane (d.foundPane fromId) gated = aim pane (d.ownPane fromId) gated ↔
    d.Apart fromId pane := by
  rcases found_cases d fromId with ⟨hfiled, hfound⟩ | ⟨own, hfiled, hown, hfound, hname⟩
  · rw [hfound, Desk.Apart, hfiled]
    exact ⟨fun _ => nofun, fun _ => rfl⟩
  have hown_ne : own ≠ "" := by
    rintro rfl
    exact hname (by decide)
  have hname_ne : sanitizePane own ≠ "" := fun h => hown_ne (sanitize_eq_empty h)
  rw [hfound, hown, Desk.Apart, hfiled]
  simp only [Option.some.injEq, forall_eq']
  cases hgiven : given pane with
  | none =>
    have hnot : ∀ s, s ≠ "" → pane ≠ some s :=
      fun s hs heq => by rw [given_eq_some.mpr ⟨heq, hs⟩] at hgiven; cases hgiven
    rw [aim, aim, hgiven]
    exact ⟨fun _ => ⟨hnot _ hown_ne, hnot _ hname_ne⟩, fun _ => rfl⟩
  | some s =>
    obtain ⟨rfl, -⟩ := given_eq_some.mp hgiven
    rw [aim_given hgiven, aim_given hgiven]
    by_cases hs : s = own
    · subst hs
      simp [Ne.symm hname]
    · by_cases hs' : s = sanitizePane own
      · subst hs'
        simp [hs]
      · simp [hs, hs']

theorem unitAim_iff : aim (d.foundPane id) (d.foundPane fromId) false = d.unitAim fromId id ↔ d.Tells fromId id := by
  rw [Desk.unitAim, Desk.Tells]
  rcases found_cases d id with ⟨hfiled, hfound⟩ | ⟨own, hfiled, hown, hfound, hname⟩
  · rw [hfiled, hfound]
    exact aim_sender_iff
  have hown_ne : own ≠ "" := by
    rintro rfl
    exact hname (by decide)
  have hname_ne : sanitizePane own ≠ "" := fun h => hown_ne (sanitize_eq_empty h)
  rw [hfiled, hfound, hown, aim_given (given_eq_some.mpr ⟨rfl, hname_ne⟩),
    aim_given (given_eq_some.mpr ⟨rfl, hown_ne⟩)]
  simp only
  constructor
  · intro h
    have hboth : some (sanitizePane own) = d.foundPane fromId ∧ some own = d.ownPane fromId := by
      by_cases hcode : some (sanitizePane own) = d.foundPane fromId
      · refine ⟨hcode, by_contra fun hspec => ?_⟩
        rw [if_pos hcode, if_neg hspec] at h
        cases h
      · rw [if_neg hcode] at h
        split at h
        · cases h
        · exact absurd (congrArg Prod.fst (Option.some.inj h)) hname
    rcases found_cases d fromId with ⟨-, hsame⟩ | ⟨own', hfiled', hown', -⟩
    · exact absurd (Option.some.inj (hboth.1.trans (hsame.trans hboth.2.symm))) hname
    · rw [hfiled', ← hown', hboth.2]
  · intro hfrom
    rcases found_cases d fromId with ⟨hfiled', -⟩ | ⟨own', hfiled', hown', hfound', -⟩
    · rw [hfiled'] at hfrom
      cases hfrom
    · obtain rfl := Option.some.inj (hfiled'.symm.trans hfrom)
      rw [if_pos hfound'.symm, if_pos hown'.symm]

/-- A gated ring and one that is not are alike only where neither happens. -/
theorem stoppedAim_iff : aim (d.foundPane id) (d.foundPane fromId) false = d.mainAim fromId ↔
    Mute (d.foundPane id) (d.foundPane fromId) ∧ Mute d.mainPane (d.ownPane fromId) := by
  rw [Desk.mainAim, ← aim_none false, ← aim_none true]
  constructor
  · intro h
    cases hcode : aim (d.foundPane id) (d.foundPane fromId) false with
    | none => exact ⟨rfl, h.symm.trans hcode⟩
    | some x => exact absurd ((aim_gated hcode).symm.trans (aim_gated (h.symm.trans hcode))) Bool.false_ne_true
  · rintro ⟨hcode, hspec⟩
    rw [hcode, hspec]

end

/-! ## The wake -/

section
variable {ε : Type} {spawner : Spawner ε} {w : Office ε} {message : ε → String} {P : List (Asked ε) → Prop}
  {Q : Except ε WakeResult → Office ε → Prop} {d : Desk} {input : WakeInput} {fromId : String} {owner : AgentRecord}

theorem runtime_eq (d : Desk) (owner : AgentRecord) :
    d.runtime owner = (d.presence owner).filter fun unit => unit.status ≠ .stopped := by
  rw [Desk.runtime, Desk.presence, Option.filter_filter]
  congr 1
  funext unit
  rw [Bool.decide_and, Bool.and_comm]

theorem wakes_after {warning : String} {p : WakeM ε WakeResult} :
    Wakes spawner (WakeResult.after warning <$> p) (fun _ w => P w.log) w ↔ Wakes spawner p (fun _ w => P w.log) w := by
  rw [← bind_pure_comp, Wakes, wp_bind]
  exact wp_congr fun r _ => by cases r <;> exact Iff.rfl

theorem wakes_wakeHome : Wakes spawner (wakeHome message fromId owner) Q w ↔
    Wakes spawner
      (match (spawner owner).1 with
        | .ok (.existing presence) => wakeUnit message fromId presence
        | .ok (.spawned presence pane rung warning trustBlocked) =>
          pure { rung, pane, spawned := presence.id, warning := given (trustBlocked <|> warning) }
        | .error err => .after (homeSpawnWarning owner.handle (message err)) <$> wakeMain message fromId)
      Q ⟨(spawner owner).2, w.log ++ [.spawnHome owner]⟩ := by
  constructor
  · intro h
    exact h.2 default _ _ trivial rfl
  · intro h
    refine ⟨trivial, fun c r w' _ hop => ?_⟩
    cases hop
    exact h

theorem wakes_wakeOwner : Wakes spawner (wakeOwner message input owner) Q w ↔
    match w.desk.presence owner with
    | some unit => Wakes spawner (wakeUnit message input.fromId unit) Q w
    | none =>
      if owner.home.isSome ∧ input.spawnHome then Wakes spawner (wakeHome message input.fromId owner) Q w
      else Wakes spawner (wakeMain message input.fromId) Q w := by
  refine (reads_presenceOf owner).bind.trans ?_
  cases w.desk.presence owner with
  | some unit => exact Iff.rfl
  | none =>
    by_cases hhome : owner.home.isSome ∧ input.spawnHome = true
    · simp only [if_pos hhome]
    · simp only [if_neg hhome]

theorem wakes_wakeRecipient (hnudge : input.noNudge = false) : Wakes spawner (wakeRecipient message input) Q w ↔
    match w.desk.agents.get input.toId with
    | none => Q (.ok { rung := false }) w
    | some recipient =>
      if recipient.kind = .standing then Wakes spawner (wakeOwner message input recipient) Q w
      else Wakes spawner (wakeUnit message input.fromId recipient) Q w := by
  rw [wakeRecipient, if_neg (Bool.eq_false_iff.mp hnudge)]
  refine (reads_loadAgent input.toId).bind.trans ?_
  cases w.desk.agents.get input.toId with
  | none => exact Iff.rfl
  | some recipient =>
    by_cases hkind : recipient.kind = .standing
    · simp only [if_pos hkind]
    · simp only [if_neg hkind]

theorem unit_lands {b : Option (String × Bool)} {unit : AgentRecord} :
    Wakes spawner (wakeUnit message fromId unit) (fun _ w => Lands b w.log) ⟨d, []⟩ ↔
      aim (d.foundPane unit.id) (d.foundPane fromId) false = b := wakes_wakeUnit.trans aims_iff

theorem main_lands {b : Option (String × Bool)} :
    Wakes spawner (wakeMain message fromId) (fun _ w => Lands b w.log) ⟨d, []⟩ ↔
      aim d.mainPane (d.foundPane fromId) true = b := wakes_wakeMain.trans aims_iff

theorem aims_after_iff {a b : Option (String × Bool)} : (∀ l : List (Asked ε), Ending a l →
    ∃ rest, [Asked.spawnHome owner] ++ l = .spawnHome owner :: rest ∧ Lands b rest) ↔ a = b := by
  rw [← aims_iff (ε := ε)]
  refine forall₂_congr fun l _ => ?_
  constructor
  · rintro ⟨rest, heq, h⟩
    obtain rfl := (List.cons.inj heq).2
    exact h
  · intro h
    exact ⟨l, rfl, h⟩

section
variable {b : Option (String × Bool)} {after : Desk} {unit : AgentRecord}

theorem unit_lands_after :
    Wakes spawner (wakeUnit message fromId unit) (fun _ w => ∃ rest, w.log = .spawnHome owner :: rest ∧ Lands b rest)
        ⟨after, [.spawnHome owner]⟩ ↔
      aim (after.foundPane unit.id) (after.foundPane fromId) false = b :=
  (wakes_wakeUnit (P := fun log => ∃ rest, log = .spawnHome owner :: rest ∧ Lands b rest)).trans aims_after_iff

theorem main_lands_after :
    Wakes spawner (wakeMain message fromId) (fun _ w => ∃ rest, w.log = .spawnHome owner :: rest ∧ Lands b rest)
        ⟨after, [.spawnHome owner]⟩ ↔
      aim after.mainPane (after.foundPane fromId) true = b :=
  (wakes_wakeMain (P := fun log => ∃ rest, log = .spawnHome owner :: rest ∧ Lands b rest)).trans aims_after_iff

/-- A ring of a unit's pane spawns nothing. -/
theorem unit_not_spawns :
    ¬Wakes spawner (wakeUnit message fromId unit) (fun _ w => ∃ rest, w.log = .spawnHome owner :: rest) ⟨d, []⟩ := by
  intro h
  have hends := (wakes_wakeUnit (P := fun log => ∃ rest, log = .spawnHome owner :: rest)).mp h
  cases haim : aim (d.foundPane unit.id) (d.foundPane fromId) false with
  | none =>
    obtain ⟨rest, hrest⟩ := hends [] (by rw [haim]; rfl)
    cases hrest
  | some x =>
    obtain ⟨pane, gated⟩ := x
    obtain rfl := aim_gated haim
    obtain ⟨rest, hrest⟩ := hends _ (by rw [haim]; exact .inr ⟨.ok (), rfl⟩)
    cases hrest

end

theorem home_aims_iff (hruntime : d.runtime owner = none) (hget : d.agents.get input.toId = some owner)
    (hkind : owner.kind = .standing) (hhome : owner.home.isSome ∧ input.spawnHome = true) :
    Wakes spawner (wakeHome message input.fromId owner) (fun r w => Aimed spawner d input r w.log) ⟨d, []⟩ ↔
      match spawner owner with
      | (.ok (.existing unit), after) => after.Tells input.fromId unit.id
      | (.ok (.spawned _ _ _ _ _), _) => True
      | (.error _, after) => after.Apart input.fromId after.mainPane := by
  rw [wakes_wakeHome]
  simp only [Aimed, hget, hruntime, if_pos hkind, if_pos hhome]
  rcases spawner owner with ⟨err | ⟨unit⟩ | ⟨unit, pane, rung, warning, trustBlocked⟩, after⟩
  · refine (wakes_after (P := fun log => ∃ rest, log = .spawnHome owner :: rest ∧ Lands _ rest)).trans ?_
    exact main_lands_after.trans aim_sender_iff
  · exact unit_lands_after.trans unitAim_iff
  · exact iff_true_intro ⟨[], rfl, rfl, _, rfl, rfl, rfl⟩

/-- A wake rings whom it should, however the multiplexer answers, exactly in these stores. -/
theorem wakeRecipient_aims_iff (message : ε → String) (spawner : Spawner ε) (d : Desk) (input : WakeInput)
    (hnudge : input.noNudge = false) :
    (∀ cs r w, run (office spawner) (wakeRecipient message input) cs ⟨d, []⟩ = some (r, w) →
      Aimed spawner d input r w.log) ↔ Aimable spawner d input := by
  rw [← wp_iff_run]
  refine (wakes_wakeRecipient hnudge).trans ?_
  rw [Aimable]
  cases hget : d.agents.get input.toId with
  | none => simp [Aimed, hget]
  | some recipient =>
    simp only [Option.some.injEq, forall_eq']
    by_cases hkind : recipient.kind = .standing
    · simp only [if_pos hkind]
      refine wakes_wakeOwner.trans ?_
      have hruntime := runtime_eq d recipient
      cases hpresence : d.presence recipient with
      | none =>
        rw [hpresence, Option.filter_none] at hruntime
        by_cases hhome : recipient.home.isSome ∧ input.spawnHome = true
        · simp only [if_pos hhome]
          exact home_aims_iff hruntime hget hkind hhome
        · simp only [if_neg hhome, Aimed, hget, if_pos hkind, hruntime]
          exact main_lands.trans aim_sender_iff
      | some unit =>
        simp only [Aimed, hget, if_pos hkind]
        by_cases hstopped : unit.status = .stopped
        · have hnone : d.runtime recipient = none := by simp [hruntime, hpresence, hstopped]
          simp only [hnone, if_pos hstopped]
          by_cases hhome : recipient.home.isSome ∧ input.spawnHome = true
          · simp only [hhome, and_self, not_true_eq_false, false_and, iff_false, if_true]
            exact fun h => unit_not_spawns (wp_mono h fun _ _ hlog => ⟨hlog.choose, hlog.choose_spec.1⟩)
          · simp only [hhome, not_false_eq_true, true_and, if_false]
            exact unit_lands.trans stoppedAim_iff
        · have hsome : d.runtime recipient = some unit := by simp [hruntime, hpresence, hstopped]
          simp only [hsome, if_neg hstopped]
          exact unit_lands.trans unitAim_iff
    · simp only [if_neg hkind, Aimed, hget]
      exact unit_lands.trans unitAim_iff

end

/-! An owner with a home whose presence has stopped, and a peer's delivery to it. -/

def keeper : AgentRecord :=
  { id := "standing-keeper", handle := "keeper", cwd := "/hub", status := .active, createdAt := 0, lastSeen := 0
    kind := .standing, presence := some "desk",
      home := some { dir := "/work/keeper-desk", launch := .harness "codex" } }

def stoppedDesk : AgentRecord :=
  { id := "desk", handle := "desk", cwd := "/work/keeper-desk", pane := some { mux := .tmux, id := "%4" },
    status := .stopped
    createdAt := 0, lastSeen := 0 }

def aliceRec : AgentRecord :=
  { id := "alice", handle := "alice", cwd := "/work", pane := some { mux := .tmux, id := "%2" },
    status := .active, createdAt := 0
    lastSeen := 0 }

def keeperDesk : Desk where
  agents := ((Filed.empty.put keeper (by decide)).put stoppedDesk (by decide)).put aliceRec (by decide)
  entries := [("%2", "alice")]
  mainPane := some "%0"
  named := by decide

def noSpawner : Spawner String := fun _ => (.error "no session backend selectable", keeperDesk)

def toAlice : WakeInput := { toId := "alice", fromId := "desk", spawnHome := true }

theorem wake_rings_alice :
    run (office noSpawner) (wakeRecipient id toAlice) (List.replicate 5 default) ⟨keeperDesk, []⟩ =
    some (.ok { rung := true, pane := some "%2" }, ⟨keeperDesk, [.getAdapter (.ok ()), .ring "%2" (.ok ())]⟩) := rfl

theorem wakeRecipient_aims_peer : Aimed noSpawner keeperDesk toAlice (.ok { rung := true, pane := some "%2" })
    [.getAdapter (.ok ()), .ring "%2" (.ok ())] := by
  have haimable : Aimable noSpawner keeperDesk toAlice := by
    intro recipient hrecipient
    have hget : keeperDesk.agents.get "alice" = some aliceRec := rfl
    obtain rfl := Option.some.inj (hget.symm.trans hrecipient)
    have hkind : ¬aliceRec.kind = .standing := by decide
    rw [if_neg hkind]
    exact nofun
  exact (wakeRecipient_aims_iff id noSpawner keeperDesk toAlice rfl).mpr haimable _ _ _ wake_rings_alice

def toKeeper : WakeInput := { toId := "standing-keeper", fromId := "alice", spawnHome := true }

theorem wake_rings_stopped :
    run (office noSpawner) (wakeRecipient id toKeeper) (List.replicate 6 default) ⟨keeperDesk, []⟩ =
    some (.ok { rung := true, pane := some "%4" }, ⟨keeperDesk, [.getAdapter (.ok ()), .ring "%4" (.ok ())]⟩) := rfl

/-- The pane of the stopped unit is rung, and its owner's home gets no unit. -/
theorem wakeRecipient_skips_home : ∃ cs r w,
    run (office noSpawner) (wakeRecipient id toKeeper) cs ⟨keeperDesk, []⟩ = some (r, w) ∧
      ¬Aimed noSpawner keeperDesk toKeeper r w.log := by
  refine ⟨_, _, _, wake_rings_stopped, fun h => ?_⟩
  obtain ⟨rest, hrest, -⟩ : ∃ rest, [.getAdapter (.ok ()), .ring "%4" (.ok ())] =
    Asked.spawnHome keeper :: rest ∧ _ := h
  cases hrest

end Console

end Cyberlegion
