import Cyberlegion.Rebind
import Cyberlegion.RuntimeFrame

/-!
# What a rebind establishes

A rebind may remove the index entry of another unit, leave further entries of its own, or
report a unit that is not running as bound.
-/

namespace Cyberlegion

open Effects

/-- The binding, and nothing else. -/
structure Establishes (w : World) (ctx : Ctx) (ref : String) (r : Except HubError AgentRecord) (w' : World) : Prop where
  binds : ∀ res, r = .ok res → ∀ rec cur, w.named ref = some rec → storablePane ctx.env = some cur →
    (∃ rec' pane, w'.agents.get rec.id = some rec' ∧ rec'.status = .active ∧ rec'.pane = some pane ∧
      pane.mux = cur.mux ∧
      pane.id = cur.pane) ∧ w'.resolvePaneId cur.pane = some rec.id ∧
        ∀ key, key ≠ sanitizePane cur.pane → w'.paneText key ≠ some rec.id
  spares : ∀ res, r = .ok res → ∀ rec, w.named ref = some rec →
    (∀ id, id ≠ rec.id → w'.agents.get id = w.agents.get id) ∧
    ∀ key other, w.paneText key = some other.id → w.agents.get other.id = some other → other.id ≠ rec.id →
      other.status.running = true → w'.panes.lookup key = w.panes.lookup key
  throws : ∀ e, r = .error e → w' = w

/-- When it is: the unit runs if it bears the pane already, its other entries are those of
the pane it leaves, and no running unit has that one. -/
structure Settles (w : World) (rec : AgentRecord) (cur : CurrentPane) (m : Calls) : Prop where
  active : Bears w rec cur → rec.status = .active
  trimmed : ¬Bears w rec cur → jsTrim rec.id = rec.id
  sole : ∀ key, key ≠ sanitizePane cur.pane → w.paneText key = some rec.id →
    ¬Bears w rec cur ∧ ∃ old, parting rec cur m = some old ∧ key = sanitizePane old
  free : ¬Bears w rec cur → ∀ old, parting rec cur m = some old → w.taken rec.id old = false

section
variable {w w' : World} {ctx : Ctx} {ref : String} {rec : AgentRecord} {cur : CurrentPane}
  {r : Except HubError AgentRecord}
  {m : Calls}

theorem taken_iff {id pane : String} :
    w.taken id pane = true ↔ ∃ other, w.paneText (sanitizePane pane) = some other.id ∧
    w.agents.get other.id = some other ∧ other.id ≠ id ∧ other.status.running = true := by
  unfold World.taken World.resolvePaneId
  cases htext : w.paneText (sanitizePane pane) with
  | none => simp
  | some holder =>
    simp only [decide_eq_true_eq, Option.any_eq_true, Option.some.injEq]
    constructor
    · rintro ⟨hne, other, hget, hrunning⟩
      obtain rfl := Filed.key_of_get hget
      exact ⟨other, rfl, hget, hne, hrunning⟩
    · rintro ⟨other, rfl, hget, hne, hrunning⟩
      exact ⟨hne, other, hget, hrunning⟩

theorem lookup_unindexed {old : Option String} {key : String} : (w.unindexed old).lookup key =
    if old.any (key = sanitizePane ·) then none else w.panes.lookup key := by
  cases old with
  | none => simp [World.unindexed]
  | some pane =>
    rw [World.unindexed, Table.lookup_erase_eq]
    simp

def World.rebound (w : World) (rec : AgentRecord) (cur : CurrentPane) (ms : Int) (old : Option String)
    (hsafe : safeId rec.id) :
    World :=
  { w with agents := w.agents.put (rec.bound { mux := cur.mux, id := cur.pane } ms) hsafe
           panes := (w.unindexed old).insert (sanitizePane cur.pane) rec.id }

section
variable {ms : Int} {old : Option String} {hsafe : safeId rec.id}

theorem rebound_lookup {key : String} : (w.rebound rec cur ms old hsafe).panes.lookup key =
    if key = sanitizePane cur.pane then some rec.id
    else if old.any (key = sanitizePane ·) then none else w.panes.lookup key := by
  rw [World.rebound, Table.lookup_insert_eq, lookup_unindexed]

theorem rebound_paneText {key : String} : (w.rebound rec cur ms old hsafe).paneText key =
    if key = sanitizePane cur.pane then some (jsTrim rec.id)
    else if old.any (key = sanitizePane ·) then none else w.paneText key := by
  rw [World.paneText, rebound_lookup]
  by_cases hkey : key = sanitizePane cur.pane
  · rw [if_pos hkey, if_pos hkey]
    rfl
  rw [if_neg hkey, if_neg hkey]
  split <;> rfl

theorem rebound_get {id : String} : (w.rebound rec cur ms old hsafe).agents.get id =
    if id = rec.id then some (rec.bound { mux := cur.mux, id := cur.pane } ms) else w.agents.get id :=
  Filed.get_put w.agents (rec.bound { mux := cur.mux, id := cur.pane } ms) hsafe

/-- The binding is sound where the id, the entries and the pane that is left allow it. -/
theorem rebound_establishes (hn : w.named ref = some rec) (hcur : storablePane ctx.env = some cur)
    (hfree : w.taken rec.id cur.pane = false) :
    Establishes w ctx ref (.ok (rec.bound { mux := cur.mux, id := cur.pane } ms)) (w.rebound rec cur ms old hsafe) ↔
      jsTrim rec.id = rec.id ∧
        (∀ key, key ≠ sanitizePane cur.pane → w.paneText key = some rec.id → ∃ q, old = some q ∧
          key = sanitizePane q) ∧
        ∀ q, old = some q → w.taken rec.id q = false := by
  constructor
  · intro h
    obtain ⟨-, hresolves, hsole⟩ := h.binds _ rfl rec cur hn hcur
    refine ⟨?_, fun key hkey htext => ?_, fun q hq => ?_⟩
    · rw [World.resolvePaneId, rebound_paneText, if_pos rfl, Option.some.injEq] at hresolves
      exact hresolves
    · by_contra hnone
      have hany : old.any (key = sanitizePane ·) ≠ true := by
        intro hany
        obtain ⟨q, hq, heq⟩ := (Option.any_eq_true _ _).mp hany
        exact hnone ⟨q, hq, of_decide_eq_true heq⟩
      refine hsole key hkey ?_
      rw [rebound_paneText, if_neg hkey, if_neg hany]
      exact htext
    · by_contra htaken
      obtain ⟨other, htext, hget, hne, hrunning⟩ := taken_iff.mp (Bool.not_eq_false _ ▸ htaken)
      have hkept := (h.spares _ rfl rec hn).2 _ other htext hget hne hrunning
      have hkey : sanitizePane q ≠ sanitizePane cur.pane := by
        intro heq
        rw [heq] at htext
        rw [taken_iff.mpr ⟨other, htext, hget, hne, hrunning⟩] at hfree
        cases hfree
      rw [rebound_lookup, if_neg hkey, if_pos (by rw [hq]; simp)] at hkept
      rw [World.paneText, ← hkept] at htext
      cases htext
  · rintro ⟨htrim, hsole, hold⟩
    refine ⟨fun res hres rec' cur' hn' hcur' => ?_, fun res hres rec' hn' => ?_, fun e he => (by cases he)⟩
    · rw [hn] at hn'
      rw [hcur] at hcur'
      cases hn'
      cases hcur'
      refine ⟨⟨_, _, by rw [rebound_get, if_pos rfl], rfl, rfl, rfl, rfl⟩, ?_, fun key hkey htext => ?_⟩
      · rw [World.resolvePaneId, rebound_paneText, if_pos rfl, htrim]
      · rw [rebound_paneText, if_neg hkey] at htext
        split at htext
        · cases htext
        · next hany =>
          obtain ⟨q, hq, heq⟩ := hsole key hkey htext
          exact hany (by rw [hq]; exact decide_eq_true heq)
    · rw [hn] at hn'
      cases hn'
      refine ⟨fun id hid => by rw [rebound_get, if_neg hid], fun key other htext hget hne hrunning => ?_⟩
      rw [rebound_lookup]
      have hkey : key ≠ sanitizePane cur.pane := by
        rintro rfl
        rw [taken_iff.mpr ⟨other, htext, hget, hne, hrunning⟩] at hfree
        cases hfree
      rw [if_neg hkey]
      split
      · next hany =>
        obtain ⟨q, hq, heq⟩ := (Option.any_eq_true _ _).mp hany
        rw [of_decide_eq_true heq] at htext
        have htaken := hold q hq
        rw [taken_iff.mpr ⟨other, htext, hget, hne, hrunning⟩] at htaken
        cases htaken
      · rfl

end

theorem already_establishes (hn : w.named ref = some rec) (hcur : storablePane ctx.env = some cur)
    (hbears : Bears w rec cur) :
    Establishes w ctx ref (.ok rec) w ↔
      rec.status = .active ∧ ∀ key, key ≠ sanitizePane cur.pane → w.paneText key ≠ some rec.id := by
  have hget := named_mem hn
  constructor
  · intro h
    obtain ⟨⟨rec', pane, hget', hstatus, -⟩, -, hsole⟩ := h.binds _ rfl rec cur hn hcur
    rw [hget] at hget'
    cases hget'
    exact ⟨hstatus, hsole⟩
  · rintro ⟨hstatus, hsole⟩
    refine ⟨fun res hres rec' cur' hn' hcur' => ?_, fun res hres rec' hn' =>
      ⟨fun _ _ => rfl, fun _ _ _ _ _ _ => rfl⟩, nofun⟩
    rw [hn] at hn'
    rw [hcur] at hcur'
    cases hn'
    cases hcur'
    obtain ⟨pane, hpane, hsame⟩ := (Option.any_eq_true _ _).mp hbears.1
    obtain ⟨hmux, hid⟩ := of_decide_eq_true hsame
    exact ⟨⟨rec, pane, hget, hstatus, hpane, hmux, hid⟩, hbears.2, hsole⟩

theorem named_only {P : AgentRecord → CurrentPane → Prop} (hn : w.named ref = some rec)
    (hcur : storablePane ctx.env = some cur) :
    P rec cur ↔ ∀ rec' cur', w.named ref = some rec' → storablePane ctx.env = some cur' → P rec' cur' := by
  refine ⟨fun h rec' cur' hn' hcur' => ?_, fun h => h rec cur hn hcur⟩
  rw [hn] at hn'
  rw [hcur] at hcur'
  cases hn'
  cases hcur'
  exact h

theorem rebinding_establishes (h : Rebinding w ctx ref r w' m) : Establishes w ctx ref r w' ↔
    ∀ rec cur, w.named ref = some rec → storablePane ctx.env = some cur → Rebinds w rec cur m →
      Settles w rec cur m := by
  cases h with
  | refused hrefused =>
    refine iff_of_true ⟨fun res hres => ?_, fun res hres => ?_, fun _ _ => rfl⟩ fun rec cur hn hcur hr => ?_
    · cases hres
    · cases hres
    · exact absurd hr (hrefused rec cur hn hcur)
  | already hn hcur hr hbears =>
    refine (already_establishes hn hcur hbears).trans (Iff.trans ?_ (named_only hn hcur))
    constructor
    · rintro ⟨hstatus, hsole⟩ -
      exact ⟨fun _ => hstatus, fun hnot => absurd hbears hnot, fun key hkey htext => absurd htext (hsole key hkey),
        fun hnot => absurd hbears hnot⟩
    · intro h
      have hs := h hr
      exact ⟨hs.active hbears, fun key hkey htext => (hs.sole key hkey htext).1 hbears⟩
  | @bound rec cur _ ms hn hcur hr hbears hsafe =>
    have hfree : w.taken rec.id cur.pane = false := (hr.2.resolve_left hbears).1
    refine (rebound_establishes hn hcur hfree).trans (Iff.trans ?_ (named_only hn hcur))
    constructor
    · rintro ⟨htrim, hsole, hold⟩ -
      exact ⟨fun h => absurd h hbears, fun _ => htrim, fun key hkey htext =>
        ⟨hbears, hsole key hkey htext⟩, fun _ => hold⟩
    · intro h
      have hs := h hr
      exact ⟨hs.trimmed hbears, fun key hkey htext => (hs.sole key hkey htext).2, hs.free hbears⟩

end

theorem rebind_establishes_iff (w w' : World) (ctx : Ctx) (ref : String) (cs : List Choice)
    (r : Except HubError AgentRecord)
    (hrun : run handle (rebindUnit ctx ref) cs w = some (r, w')) : Establishes w ctx ref r w' ↔
      ∀ rec cur, w.named ref = some rec → storablePane ctx.env = some cur →
        Rebinds w rec cur (trace handle (rebindUnit ctx ref) cs w) →
          Settles w rec cur (trace handle (rebindUnit ctx ref) cs w) :=
  rebinding_establishes (traces_rebind cs r w' hrun)

/-- A unit that has exited, at a pane it no longer has. -/
def strayUnit : AgentRecord :=
  { id := "a1", handle := "stray", cwd := "/w", pane := some { mux := .tmux, id := "%5" },
    status := .exited, createdAt := 0
    lastSeen := 0 }

def strayHub : World := { agents := Filed.put .empty strayUnit (by decide) }

theorem rebind_strayHub : ∃ res w', run handle (rebindUnit shell "a1") [{}, {}, {}, {}, {}, {}] strayHub =
    some (.ok res, w') ∧
    Establishes strayHub shell "a1" (.ok res) w' := by
  have hends : ((run handle (rebindUnit shell "a1") [{}, {}, {}, {}, {}, {}] strayHub).any
      fun p => p.1.toBool) = true := by
    decide +kernel
  obtain ⟨⟨r, w'⟩, hrun, hok⟩ := (Option.any_eq_true _ _).mp hends
  have hestablishes := (rebind_establishes_iff strayHub w' shell "a1" _ r hrun).mpr
  cases r with
  | error e => cases hok
  | ok res =>
    refine ⟨res, w', hrun, hestablishes fun rec cur hn hcur _ => ?_⟩
    have hget : strayHub.agents.get "a1" = some strayUnit := Filed.get_put_self .empty strayUnit (by decide)
    rw [World.named, hget] at hn
    cases hn
    cases hcur
    refine ⟨fun hbears => ?_, fun _ => by decide +kernel, fun key _ htext => ?_, fun _ old _ => rfl⟩
    · cases hbears.2
    · cases htext

def ownerUnit : AgentRecord := { strayUnit with id := "b1", handle := "owner", status := .active }

def strayPair : World :=
  { agents := Filed.put (Filed.put .empty strayUnit (by decide)) ownerUnit (by decide)
    panes := (∅ : Table String String).insert "_5" "b1" }

/-- The rebind removes the index entry of the second unit. -/
theorem rebind_unbinds_other : ∃ res w',
    run handle (rebindUnit shell "a1") [{}, {}, {}, {}, {}, {}] strayPair = some (.ok res, w') ∧
      ¬Establishes strayPair shell "a1" (.ok res) w' := by
  have hends : ((run handle (rebindUnit shell "a1") [{}, {}, {}, {}, {}, {}] strayPair).any fun p =>
      p.1.toBool ∧ p.2.panes.lookup "_5" = none) = true := by
    decide +kernel
  obtain ⟨⟨r, w'⟩, hrun, hgone⟩ := (Option.any_eq_true _ _).mp hends
  obtain ⟨hok, hgone⟩ := of_decide_eq_true hgone
  cases r with
  | error e => cases hok
  | ok res =>
    refine ⟨res, w', hrun, fun hestablishes => ?_⟩
    have hget : strayPair.agents.get "a1" = some strayUnit := by
      rw [strayPair, Filed.get_put, if_neg (by decide)]
      exact Filed.get_put_self .empty strayUnit (by decide)
    have hn : strayPair.named "a1" = some strayUnit := by rw [World.named, hget]
    have hkept := (hestablishes.spares res rfl strayUnit hn).2 "_5" ownerUnit (by decide +kernel)
      (Filed.get_put_self _ ownerUnit (by decide)) (by decide) rfl
    rw [hgone] at hkept
    cases hkept

end Cyberlegion
