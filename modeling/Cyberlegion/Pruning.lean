import Cyberlegion.Durable

/-!
# Prune and reconcile against any answers

The multiplexers and the clock may answer anything, but give one question one answer: what
a prune or a reconcile then writes, what it returns, and that a second one writes nothing.
-/

namespace Cyberlegion

open Effects

/-! ## The answers -/

/-- What the multiplexers and the clock answer. -/
structure Backend where
  lists : StorableMux → List LivePane
  paneExists : StorableMux → String → Bool
  now : Int

def answering (b : Backend) : (op : Call) → Choice → World → Option (op.Res × World)
  | .listPanes mux, _, w => some (b.lists mux, w)
  | .paneExists mux pane, _, w => some (b.paneExists mux pane, w)
  | .now, _, w => some (b.now, w)
  | op, c, w => handle op c w

/-- The pane's own multiplexer lists panes, and not this one. -/
def Backend.unlisted (b : Backend) (pane : Pane) : Bool :=
  b.lists pane.mux ≠ [] ∧ ¬ (b.lists pane.mux).any (·.id = pane.id)

def Backend.stale (b : Backend) (rec : AgentRecord) : Bool := STALE_MS < b.now - rec.lastSeen

/-- The evidence that a record's session is over. -/
def Backend.over (b : Backend) (rec : AgentRecord) : Bool :=
  match rec.pane with
  | some pane => b.unlisted pane
  | none => b.stale rec

def Backend.culls (b : Backend) (mux : StorableMux) (rec : AgentRecord) : Bool :=
  isPrunable rec ∧ rec.pane.any fun p => p.mux = mux ∧ ¬ (b.lists mux).any (·.id = p.id)

def Backend.judges (b : Backend) (rec : AgentRecord) : Bool :=
  isPrunable rec && match rec.pane with
    | some pane => !b.paneExists pane.mux pane.id && b.unlisted pane
    | none => b.stale rec

def AgentRecord.exited (rec : AgentRecord) : AgentRecord := { rec with status := .exited }

def mark (f : AgentRecord → Bool) (rec : AgentRecord) : AgentRecord := if f rec then rec.exited else rec

/-- The stored records that `f` picks are marked exited one by one. -/
inductive Marks : World → List AgentRecord → World → Prop
  | nil {w : World} : Marks w [] w
  | cons {w w' : World} {rec : AgentRecord} {recs : List AgentRecord} (hget : w.agents.get rec.id = some rec)
      (hsafe : safeId rec.exited.id = true) (h : Marks { w with agents := w.agents.put rec.exited hsafe } recs w') :
      Marks w (rec :: recs) w'

/-- Every stored record that `f` picks is marked exited, and `changed` is those records. -/
structure Pass (f : AgentRecord → Bool) (w : World) (changed : List AgentRecord) (w' : World) : Prop where
  agents : ∀ id, w'.agents.get id = (w.agents.get id).map (mark f)
  panes : w'.panes = w.panes
  ids : (changed.map (·.id)).Nodup
  changed : ∀ rec', rec' ∈ changed ↔ ∃ rec, w.agents.get rec.id = some rec ∧ f rec = true ∧ rec' = rec.exited
  still : (∀ rec, w.agents.get rec.id = some rec → f rec = false) → w' = w

abbrev Under {α : Type} (b : Backend) (p : HubM α) (Q : Except HubError α → World → Prop) (w : World) : Prop :=
  wp (answering b) (fun _ _ => True) (fun _ _ => True) p Q w

section
variable {b : Backend} {w w' w'' : World} {rec : AgentRecord} {recs changed changed' : List AgentRecord}
  {mux : StorableMux}
variable {f g : AgentRecord → Bool}

theorem not_prunable_exited : isPrunable rec.exited = false := by
  simp [isPrunable, AgentRecord.exited]

theorem prunable_of_judges (h : b.judges rec = true) : isPrunable rec = true := (Bool.and_eq_true_iff.mp h).1

theorem mark_id : (mark f rec).id = rec.id := by
  unfold mark
  split <;> rfl

theorem mark_again (hf : ∀ rec, f rec = true → isPrunable rec = true) : f (mark f rec) = false := by
  unfold mark
  by_cases h : f rec = true
  · rw [if_pos h]
    refine Bool.eq_false_iff.mpr fun hexited => ?_
    have := hf _ hexited
    rw [not_prunable_exited] at this
    cases this
  · rw [if_neg h]
    exact Bool.eq_false_iff.mpr h

/-! ## One pass over the listed records -/

theorem Marks.get (h : Marks w recs w') (hlisted : Listed w recs) (id : String) :
    w'.agents.get id = (w.agents.get id).map fun rec => if rec ∈ recs then rec.exited else rec := by
  induction h with
  | nil => simp
  | @cons w w' rec recs hget hsafe h ih =>
    have hne := (List.pairwise_cons.mp hlisted.1).1
    have hrest : Listed { w with agents := w.agents.put rec.exited hsafe } recs := by
      refine ⟨hlisted.tail.1, fun rec' hrec' => ?_⟩
      exact (Filed.get_put_ne w.agents rec.exited hsafe (hne rec' hrec').symm).trans (hlisted.tail.2 rec' hrec')
    rw [ih hrest]
    show (Filed.get (w.agents.put rec.exited hsafe) id).map _ = _
    rw [Filed.get_put]
    by_cases hid : id = rec.exited.id
    · subst hid
      rw [if_pos rfl, show w.agents.get rec.exited.id = some rec from hget, Option.map_some, Option.map_some]
      have hout : rec.exited ∉ recs := fun hmem => hne _ hmem rfl
      rw [if_neg hout, if_pos List.mem_cons_self]
    · rw [if_neg hid]
      cases hstored : w.agents.get id with
      | none => rfl
      | some rec' =>
        have hrec' : rec' ≠ rec := by
          rintro rfl
          exact hid (Filed.key_of_get hstored).symm
        simp [hrec']

theorem Marks.panes (h : Marks w recs w') : w'.panes = w.panes := by
  induction h with
  | nil => rfl
  | cons _ _ _ ih => exact ih

theorem pass_of_marks (h : Marks w ((Registry.list w.agents).filter f) w') :
    Pass f w (((Registry.list w.agents).filter f).map AgentRecord.exited) w' := by
  have hmem : ∀ rec, rec ∈ (Registry.list w.agents).filter f ↔ w.agents.get rec.id = some rec ∧ f rec = true := by
    intro rec
    rw [List.mem_filter, Registry.mem_list]
  have hlisted : Listed w ((Registry.list w.agents).filter f) :=
    ⟨listed_list.1.filter f, fun rec hrec => ((hmem rec).mp hrec).1⟩
  refine ⟨fun id => ?_, h.panes, ?_, fun rec' => ?_, fun hnone => ?_⟩
  · rw [h.get hlisted]
    cases hget : w.agents.get id with
    | none => rfl
    | some rec =>
      have hstored : w.agents.get rec.id = some rec := by rw [Filed.key_of_get hget]; exact hget
      simp [mark, hmem, hstored]
  · rw [List.map_map, List.Nodup, List.pairwise_map]
    exact hlisted.1
  · rw [List.mem_map]
    simp only [hmem, and_assoc, eq_comm]
  · have hempty : (Registry.list w.agents).filter f = [] := by
      refine List.filter_eq_nil_iff.mpr fun rec hrec => ?_
      simp [hnone rec (Registry.mem_list.mp hrec)]
    rw [hempty] at h
    cases h
    rfl

theorem Pass.none (h : ∀ rec, w.agents.get rec.id = some rec → f rec = false) : Pass f w [] w := by
  refine ⟨fun id => ?_, rfl, List.nodup_nil, fun rec' => ?_, fun _ => rfl⟩
  · cases hget : w.agents.get id with
    | none => rfl
    | some rec =>
      have hstored : w.agents.get rec.id = some rec := by rw [Filed.key_of_get hget]; exact hget
      simp [mark, h rec hstored]
  · refine ⟨fun hmem => absurd hmem List.not_mem_nil, ?_⟩
    rintro ⟨rec, hget, hf, -⟩
    rw [h rec hget] at hf
    cases hf

theorem Pass.then (hg : ∀ rec, g rec = true → isPrunable rec = true)
    (h : Pass f w changed w') (h' : Pass g w' changed' w'') :
    Pass (fun rec => f rec || g rec) w (changed ++ changed') w'' := by
  have hmark : ∀ rec, mark g (mark f rec) = mark (fun rec => f rec || g rec) rec := by
    intro rec
    by_cases hrec : f rec = true
    · have hout : g rec.exited = false := Bool.eq_false_iff.mpr fun h => by
        have := hg _ h
        rw [not_prunable_exited] at this
        cases this
      simp [mark, hrec, hout]
    · simp [mark, hrec]
  have hstored : ∀ rec, w'.agents.get rec.id = some rec ↔ ∃ rec₀, w.agents.get rec₀.id = some rec₀ ∧
      rec = mark f rec₀ := by
    intro rec
    rw [h.agents, Option.map_eq_some_iff]
    constructor
    · rintro ⟨rec₀, hget, rfl⟩
      exact ⟨rec₀, by rw [mark_id] at hget; exact hget, rfl⟩
    · rintro ⟨rec₀, hget, rfl⟩
      exact ⟨rec₀, by rw [mark_id]; exact hget, rfl⟩
  have hchanged' : ∀ rec', rec' ∈ changed' ↔
      ∃ rec, w.agents.get rec.id = some rec ∧ f rec = false ∧ g rec = true ∧ rec' = rec.exited := by
    intro rec'
    rw [h'.changed]
    constructor
    · rintro ⟨rec, hget, hrec, rfl⟩
      obtain ⟨rec₀, hget₀, rfl⟩ := (hstored rec).mp hget
      by_cases hrec₀ : f rec₀ = true
      · have := hg _ hrec
        rw [mark, if_pos hrec₀, not_prunable_exited] at this
        cases this
      · rw [mark, if_neg hrec₀] at hrec ⊢
        exact ⟨rec₀, hget₀, Bool.eq_false_iff.mpr hrec₀, hrec, rfl⟩
    · rintro ⟨rec, hget, hrec, hrec', rfl⟩
      have hsame : mark f rec = rec := by rw [mark, hrec]; rfl
      exact ⟨rec, (hstored rec).mpr ⟨rec, hget, hsame.symm⟩, hrec', rfl⟩
  refine ⟨fun id => ?_, h'.panes.trans h.panes, ?_, fun rec' => ?_, fun hnone => ?_⟩
  · rw [h'.agents, h.agents, Option.map_map]
    exact congrArg (Option.map · _) (funext hmark)
  · rw [List.map_append]
    refine List.Nodup.append h.ids h'.ids fun id hid hid' => ?_
    obtain ⟨rec₁, hmem₁, rfl⟩ := List.mem_map.mp hid
    obtain ⟨rec₂, hmem₂, hsame⟩ := List.mem_map.mp hid'
    obtain ⟨rec, hget, hrec, rfl⟩ := (h.changed rec₁).mp hmem₁
    obtain ⟨rec', hget', hrec', -, rfl⟩ := (hchanged' rec₂).mp hmem₂
    have hid : rec'.id = rec.id := hsame
    rw [hid, hget] at hget'
    cases hget'
    rw [hrec] at hrec'
    cases hrec'
  · rw [List.mem_append, h.changed, hchanged']
    constructor
    · rintro (⟨rec, hget, hrec, rfl⟩ | ⟨rec, hget, -, hrec, rfl⟩)
      · exact ⟨rec, hget, by rw [hrec]; rfl, rfl⟩
      · exact ⟨rec, hget, by rw [hrec, Bool.or_true], rfl⟩
    · rintro ⟨rec, hget, hrec, rfl⟩
      by_cases hf' : f rec = true
      · exact .inl ⟨rec, hget, hf', rfl⟩
      · rw [Bool.eq_false_iff.mpr hf', Bool.false_or] at hrec
        exact .inr ⟨rec, hget, Bool.eq_false_iff.mpr hf', hrec, rfl⟩
  · have hnone' : ∀ rec, w.agents.get rec.id = some rec → f rec = false ∧ g rec = false := fun rec hrec =>
      Bool.or_eq_false_iff.mp (hnone rec hrec)
    obtain rfl := h.still fun rec hrec => (hnone' rec hrec).1
    exact h'.still fun rec hrec => (hnone' rec hrec).2

theorem Pass.over (hf : ∀ rec, f rec = true → isPrunable rec = true) (h : Pass f w changed w')
    (hget : w'.agents.get rec.id = some rec) : f rec = false := by
  rw [h.agents, Option.map_eq_some_iff] at hget
  obtain ⟨rec₀, -, rfl⟩ := hget
  exact mark_again hf

/-! ## The loops -/

theorem under_putAgent {α : Type} {k : Unit → HubM α} {Q : Except HubError α → World → Prop}
    (hsafe : safeId rec.id = true)
    (hok : Under b (k ()) Q { w with agents := w.agents.put rec hsafe }) : Under b (Store.putAgent rec >>= k) Q w := by
  unfold Store.putAgent
  rw [if_pos hsafe]
  refine ⟨trivial, fun c r w' _ hr => ?_⟩
  simp only [answering, handle] at hr
  rw [dif_pos hsafe] at hr
  cases hr
  exact hok

theorem under_markExited {α : Type} {k : AgentRecord → HubM α} {Q : Except HubError α → World → Prop}
    (h : Listed w (rec :: recs)) (hok : ∀ hsafe : safeId rec.exited.id = true,
      Listed { w with agents := w.agents.put rec.exited hsafe } recs →
      Under b (k rec.exited) Q { w with agents := w.agents.put rec.exited hsafe }) :
    Under b (markExited rec >>= k) Q w := by
  have hhead := h.2 rec List.mem_cons_self
  have hsafe := Filed.valid_of_get hhead
  unfold markExited
  rw [bind_assoc]
  show Under b (Store.putAgent rec.exited >>= fun _ => k rec.exited) Q w
  refine under_putAgent hsafe (hok hsafe ⟨h.tail.1, fun rec' hrec' => ?_⟩)
  have hne := (List.pairwise_cons.mp h.1).1 rec' hrec'
  exact (Filed.get_put_ne w.agents rec.exited hsafe hne.symm).trans (h.tail.2 rec' hrec')

theorem cull_marks (h : Listed w recs) :
    Under b (cull mux (b.lists mux) recs) (fun r w' => r = .ok ((recs.filter (b.culls mux)).map AgentRecord.exited) ∧
      Marks w (recs.filter (b.culls mux)) w') w := by
  induction recs generalizing w with
  | nil => exact ⟨rfl, .nil⟩
  | cons rec recs ih =>
    unfold cull
    by_cases hcull : b.culls mux rec = true
    · rw [if_pos (of_decide_eq_true hcull), List.filter_cons_of_pos hcull]
      refine under_markExited h fun hsafe hrest => wp_seq (ih hrest) ?_ ?_
      · rintro changed w' ⟨hr, hmarks⟩
        cases hr
        exact ⟨rfl, .cons (h.2 rec List.mem_cons_self) hsafe hmarks⟩
      · rintro e w' ⟨hr, -⟩
        cases hr
    · rw [if_neg fun h => hcull (decide_eq_true h), List.filter_cons_of_neg hcull]
      exact ih h.tail

/-- The lists read so far are the multiplexers' answers. -/
def Backend.Holds (b : Backend) (lists : PaneLists) : Prop := ∀ mux list, lists mux = some list → list = b.lists mux

theorem paneGone_answers {pane : Pane} {lists : PaneLists} (hlists : b.Holds lists) :
    Under b (paneGone pane lists) (fun r w' => w' = w ∧ ∃ lists', b.Holds lists' ∧
      r = .ok (!b.paneExists pane.mux pane.id && b.unlisted pane, lists')) w := by
  have hgone : ∀ list, list = b.lists pane.mux →
      decide (list ≠ [] ∧ ¬ list.any (·.id = pane.id) = true) = b.unlisted pane := by
    rintro list rfl
    rfl
  unfold paneGone
  refine ⟨trivial, fun c r w' _ hr => ?_⟩
  cases hr
  cases hexists : b.paneExists pane.mux pane.id with
  | true => exact ⟨rfl, lists, hlists, by rw [Bool.not_true, Bool.false_and]⟩
  | false =>
    cases hlist : lists pane.mux with
    | some list =>
      refine ⟨rfl, lists, hlists, ?_⟩
      rw [hgone list (hlists _ _ hlist), Bool.not_false, Bool.true_and]
    | none =>
      refine ⟨trivial, fun c r w' _ hr => ?_⟩
      cases hr
      refine ⟨rfl, Function.update lists pane.mux (some (b.lists pane.mux)), fun mux list hmux => ?_, ?_⟩
      · by_cases hsame : mux = pane.mux
        · subst hsame
          rw [Function.update_self] at hmux
          exact (Option.some.inj hmux).symm
        · rw [Function.update_of_ne hsame] at hmux
          exact hlists mux list hmux
      · rw [hgone _ rfl, Bool.not_false, Bool.true_and]

theorem judge_marks {lists : PaneLists} (h : Listed w recs) (hlists : b.Holds lists) :
    Under b (judge b.now lists recs) (fun r w' => r = .ok ((recs.filter b.judges).map AgentRecord.exited) ∧
      Marks w (recs.filter b.judges) w') w := by
  induction recs generalizing w lists with
  | nil => exact ⟨rfl, .nil⟩
  | cons rec recs ih =>
    unfold judge
    by_cases hprunable : isPrunable rec = true
    · rw [if_pos hprunable]
      refine wp_seq (R := fun r w' => w' = w ∧ ∃ lists', b.Holds lists' ∧ r = .ok (b.judges rec, lists')) ?_ ?_ ?_
      · unfold Backend.judges
        rw [hprunable, Bool.true_and]
        cases rec.pane with
        | some pane => exact paneGone_answers hlists
        | none => exact ⟨rfl, lists, hlists, rfl⟩
      · rintro ⟨dead, lists₁⟩ w₁ ⟨rfl, lists', hlists', hr⟩
        cases hr
        show Under b (if b.judges rec = true then _ else _) _ w₁
        by_cases hjudge : b.judges rec = true
        · rw [if_pos hjudge, List.filter_cons_of_pos hjudge]
          refine under_markExited h fun hsafe hrest => wp_seq (ih hrest hlists') ?_ ?_
          · rintro changed w' ⟨hr, hmarks⟩
            cases hr
            exact ⟨rfl, .cons (h.2 rec List.mem_cons_self) hsafe hmarks⟩
          · rintro e w' ⟨hr, -⟩
            cases hr
        · rw [if_neg hjudge, List.filter_cons_of_neg hjudge]
          exact ih h.tail hlists'
      · rintro e w₁ ⟨-, lists', -, hr⟩
        cases hr
    · have hjudge : ¬b.judges rec = true := fun h => hprunable (prunable_of_judges h)
      rw [if_neg hprunable, List.filter_cons_of_neg hjudge]
      exact ih h.tail hlists

end

/-! ## Adoption -/

/-- The pane's index entry names an existing record. -/
def World.bound (w : World) (pane : String) : Bool := ((w.resolvePaneId pane).bind w.agents.get).isSome

def AgentRecord.bears (rec : AgentRecord) (pane : LivePane) : Bool :=
  rec.pane.any fun p => p.mux = pane.mux ∧ p.id = pane.id

def Backend.dated (b : Backend) : Prop := b.now.natAbs ≤ 8640000000000000

/-- The new records of an adoption, each minted for a live pane that was free. -/
structure Adopts (b : Backend) (agents : List AgentRecord) (panes : List LivePane) (w : World) (new : List AgentRecord)
    (w' : World) : Prop where
  stored : ∀ rec, w'.agents.get rec.id = some rec ↔ w.agents.get rec.id = some rec ∨ rec ∈ new
  fresh : ∀ rec ∈ new, w.agents.get rec.id = none
  ids : (new.map (·.id)).Nodup
  apart : new.Pairwise fun rec rec' => rec.pane ≠ rec'.pane
  live : ∀ rec ∈ new, ∃ pane ∈ panes, (harnessFromAgent pane.harness).isSome = true ∧
    rec.pane = some { mux := pane.mux, id := pane.id } ∧ w.bound pane.id = false ∧ agents.any (·.bears pane) = false
  bound : ∀ pane, w.bound pane = true → w'.bound pane = true
  covered : ∀ pane ∈ panes, (harnessFromAgent pane.harness).isSome = true →
    w'.bound pane.id = true ∨ agents.any (·.bears pane) = true
  dated : ¬b.dated → new = []
  still : new = [] → w' = w

section
variable {b : Backend} {w w' : World} {rec : AgentRecord} {agents new : List AgentRecord}
  {pane : LivePane} {panes : List LivePane}

def World.mint (w : World) (rec : AgentRecord) (pane : String) (hsafe : safeId rec.id = true) : World :=
  { w with agents := w.agents.put rec hsafe, panes := w.panes.insert (sanitizePane pane) rec.id }

theorem bound_mint {hsafe : safeId rec.id = true} {key : String} (htrim : jsTrim rec.id = rec.id) {pane : String}
    (h : w.bound pane = true ∨ sanitizePane pane = sanitizePane key) : (w.mint rec key hsafe).bound pane = true := by
  have hresolve : (w.mint rec key hsafe).resolvePaneId pane =
      if sanitizePane pane = sanitizePane key then some (jsTrim rec.id) else w.resolvePaneId pane := resolve_insert
  unfold World.bound at h ⊢
  rw [hresolve]
  by_cases hkey : sanitizePane pane = sanitizePane key
  · rw [if_pos hkey, Option.bind_some, htrim]
    exact Option.isSome_iff_exists.mpr ⟨rec, Filed.get_put_self w.agents rec hsafe⟩
  · rw [if_neg hkey]
    obtain ⟨other, hother⟩ := Option.isSome_iff_exists.mp (h.resolve_right hkey)
    obtain ⟨id, hid, hget⟩ := Option.bind_eq_some_iff.mp hother
    rw [hid, Option.bind_some]
    show ((w.agents.put rec hsafe).get id).isSome = true
    rw [Filed.get_put]
    split
    · rfl
    · rw [hget]; rfl

theorem adopts_none : Adopts b agents [] w [] w where
  stored _ := by simp
  fresh _ h := absurd h List.not_mem_nil
  ids := List.nodup_nil
  apart := .nil
  live _ h := absurd h List.not_mem_nil
  bound _ h := h
  covered _ h := absurd h List.not_mem_nil
  dated _ := rfl
  still _ := rfl

theorem Adopts.skip (h : Adopts b agents panes w new w') (hskip : (harnessFromAgent pane.harness).isSome = true →
    w.bound pane.id = true ∨ agents.any (·.bears pane) = true) : Adopts b agents (pane :: panes) w new w' where
  stored := h.stored
  fresh := h.fresh
  ids := h.ids
  apart := h.apart
  live rec hrec := by
    obtain ⟨p, hp, hlive⟩ := h.live rec hrec
    exact ⟨p, List.mem_cons_of_mem _ hp, hlive⟩
  bound := h.bound
  covered p hp hharness := by
    rcases List.mem_cons.mp hp with rfl | hp
    · exact (hskip hharness).imp_left (h.bound _)
    · exact h.covered p hp hharness
  dated := h.dated
  still := h.still

theorem Adopts.mint (hsafe : safeId rec.id = true) (h : Adopts b agents panes (w.mint rec pane.id hsafe) new w')
    (hharness : (harnessFromAgent pane.harness).isSome = true)
    (hpane : rec.pane = some { mux := pane.mux, id := pane.id })
    (htrim : jsTrim rec.id = rec.id) (hnew : w.agents.get rec.id = none) (hbound : w.bound pane.id = false)
    (hborne : agents.any (·.bears pane) = false) (hdate : b.dated) :
    Adopts b agents (pane :: panes) w (rec :: new) w' := by
  have hget : ∀ id, (w.mint rec pane.id hsafe).agents.get id = if id = rec.id then some rec else w.agents.get id :=
    fun _ => Filed.get_put w.agents rec hsafe
  have hkeeps : ∀ p, (w.mint rec pane.id hsafe).bound p = false → w.bound p = false := by
    intro p hp
    refine Bool.eq_false_iff.mpr fun hbound => ?_
    rw [bound_mint htrim (.inl hbound)] at hp
    cases hp
  have hne : ∀ rec' ∈ new, rec'.id ≠ rec.id := by
    intro rec' hrec' hid
    have := h.fresh rec' hrec'
    rw [hget, if_pos hid] at this
    cases this
  refine ⟨fun rec' => ?_, fun rec' hrec' => ?_, ?_, ?_, fun rec' hrec' => ?_, fun p hp => ?_, fun p hp hharness => ?_,
    fun hundated => absurd hdate hundated, nofun⟩
  · rw [h.stored, hget, List.mem_cons]
    by_cases hid : rec'.id = rec.id
    · rw [if_pos hid, hid, hnew]
      simp only [Option.some.injEq, reduceCtorEq, false_or, eq_comm]
    · rw [if_neg hid]
      have hother : rec' ≠ rec := fun h => hid (congrArg _ h)
      simp only [hother, false_or]
  · rcases List.mem_cons.mp hrec' with rfl | hrec'
    · exact hnew
    · have := h.fresh rec' hrec'
      rw [hget, if_neg (hne rec' hrec')] at this
      exact this
  · rw [List.map_cons, List.nodup_cons]
    refine ⟨fun hmem => ?_, h.ids⟩
    obtain ⟨rec', hrec', hid⟩ := List.mem_map.mp hmem
    exact hne rec' hrec' hid
  · refine List.pairwise_cons.mpr ⟨fun rec' hrec' hsame => ?_, h.apart⟩
    obtain ⟨p, -, -, hp, hfree, -⟩ := h.live rec' hrec'
    rw [hpane, hp] at hsame
    simp only [Option.some.injEq, Pane.mk.injEq] at hsame
    rw [bound_mint htrim (.inr (congrArg sanitizePane hsame.2.1.symm))] at hfree
    cases hfree
  · rcases List.mem_cons.mp hrec' with rfl | hrec'
    · exact ⟨pane, List.mem_cons_self, hharness, hpane, hbound, hborne⟩
    · obtain ⟨p, hp, hlive, hp', hfree, hborne'⟩ := h.live rec' hrec'
      exact ⟨p, List.mem_cons_of_mem _ hp, hlive, hp', hkeeps _ hfree, hborne'⟩
  · exact h.bound p (bound_mint htrim (.inl hp))
  · rcases List.mem_cons.mp hp with rfl | hp
    · exact .inl (h.bound _ (bound_mint htrim (.inr rfl)))
    · exact h.covered p hp hharness

theorem adopt_adopts : Under b (adopt agents panes) (fun r w' => (∃ new, r = .ok new ∧ Adopts b agents panes w new w') ∨
    panes ≠ [] ∧ w' = w ∧ ¬b.dated ∧ ∃ e, r = .error e) w := by
  induction panes generalizing w with
  | nil => exact .inl ⟨[], rfl, adopts_none⟩
  | cons pane panes ih =>
    have hskip : ((harnessFromAgent pane.harness).isSome = true → w.bound pane.id = true ∨
        agents.any (·.bears pane) = true) →
        Under b (adopt agents panes) (fun r w' => (∃ new, r = .ok new ∧ Adopts b agents (pane :: panes) w new w') ∨
          pane :: panes ≠ [] ∧ w' = w ∧ ¬b.dated ∧ ∃ e, r = .error e) w := by
      refine fun hskip => wp_mono ih ?_
      rintro r w' (⟨new, hr, hadopts⟩ | ⟨-, herr⟩)
      · exact .inl ⟨new, hr, hadopts.skip hskip⟩
      · exact .inr ⟨List.cons_ne_nil _ _, herr⟩
    unfold adopt
    cases hharness : harnessFromAgent pane.harness with
    | none => exact hskip fun h => by rw [hharness] at h; cases h
    | some harness =>
      refine ⟨trivial, fun c r w₁ _ hr => ?_⟩
      cases hr
      refine wp_seq (R := fun r w₁ => w₁ = w ∧ r = .ok ((w.resolvePaneId pane.id).bind w.agents.get)) ?_ ?_ ?_
      · cases w.resolvePaneId pane.id with
        | none => exact ⟨rfl, rfl⟩
        | some id => exact ⟨trivial, fun c r w' _ hr => by cases hr; exact ⟨rfl, rfl⟩⟩
      · rintro bound w₁ ⟨rfl, hbound⟩
        cases hbound
        show Under b (if w₁.bound pane.id = true ∨ agents.any (·.bears pane) = true then _ else _) _ w₁
        by_cases htaken : w₁.bound pane.id = true ∨ agents.any (·.bears pane) = true
        · rw [if_pos htaken]
          exact hskip fun _ => htaken
        · rw [if_neg htaken]
          obtain ⟨hbound, hborne⟩ := not_or.mp htaken
          refine ⟨trivial, fun c id w₂ _ hid => ?_⟩
          simp only [answering, handle] at hid
          split at hid
          · next text _ =>
            split at hid
            · next hfresh =>
              cases hid
              refine ⟨trivial, fun c r w₂ _ hr => ?_⟩
              cases hr
              show Under b (iso b.now >>= fun _ => _) _ w₁
              unfold iso
              by_cases hdate : b.now.natAbs ≤ 8640000000000000
              · rw [if_pos hdate]
                refine under_putAgent hfresh.2.2 ⟨trivial, fun c r w₂ _ hr => ?_⟩
                cases hr
                refine wp_seq (p := adopt agents panes) ih ?_ ?_
                · rintro new w' (⟨new', hnew, hadopts⟩ | ⟨-, -, hundated, -⟩)
                  · cases hnew
                    refine .inl ⟨_, rfl, Adopts.mint hfresh.2.2 hadopts ?_ rfl hfresh.2.1 hfresh.1
                      (Bool.eq_false_iff.mpr hbound)
                      (Bool.eq_false_iff.mpr hborne) hdate⟩
                    rw [hharness]; rfl
                  · exact absurd hdate hundated
                · rintro e w' (⟨new', hnew, -⟩ | ⟨-, -, hundated, -⟩)
                  · cases hnew
                  · exact absurd hdate hundated
              · rw [if_neg hdate]
                exact .inr ⟨List.cons_ne_nil _ _, rfl, hdate, _, rfl⟩
            · cases hid
          · cases hid
      · rintro e w₁ ⟨-, hr⟩
        cases hr

end

/-! ## Prune and reconcile -/

inductive Job
  | prune
  | reconcile (adopts : Bool)

def Job.run (ctx : Ctx) : Job → HubM (List AgentRecord)
  | .prune => Cyberlegion.prune ctx
  | .reconcile adopts => Cyberlegion.reconcile ctx adopts

/-- The live panes that the caller's multiplexer lists. -/
def Backend.around (b : Backend) (ctx : Ctx) : List LivePane :=
  match storablePane ctx.env with
  | some cur => b.lists cur.mux
  | none => []

def Backend.reconciles (b : Backend) (ctx : Ctx) (rec : AgentRecord) : Bool :=
  b.around ctx ≠ [] && (storablePane ctx.env).any fun cur => b.culls cur.mux rec

def Job.marks (b : Backend) (ctx : Ctx) : Job → AgentRecord → Bool
  | .prune => fun rec => b.reconciles ctx rec || b.judges rec
  | .reconcile _ => b.reconciles ctx

/-- The live panes that the job may mint a record for. -/
def Job.adoptable (b : Backend) (ctx : Ctx) : Job → List LivePane
  | .reconcile true => b.around ctx
  | _ => []

/-- One pass marks the dead, then the free live panes are adopted. -/
def Job.Does (b : Backend) (ctx : Ctx) (job : Job) (w : World) (r : Except HubError (List AgentRecord))
    (w' : World) : Prop :=
  ∃ changed w₁, Pass (job.marks b ctx) w changed w₁ ∧
    ((∃ new, r = .ok (changed ++ new) ∧ Adopts b (Registry.list w₁.agents) (job.adoptable b ctx) w₁ new w') ∨
      job.adoptable b ctx ≠ [] ∧ w' = w₁ ∧ ¬b.dated ∧ ∃ e, r = .error e)

/-- What a prune or a reconcile writes and returns: records are marked exited on evidence only,
and records are minted for free live panes only. -/
structure Prunes (b : Backend) (ctx : Ctx) (job : Job) (w : World)
    (r : Except HubError (List AgentRecord)) (w' : World) :
    Prop where
  kept : ∀ rec, w.agents.get rec.id = some rec → w'.agents.get rec.id = some rec ∨
    w'.agents.get rec.id = some { rec with status := .exited } ∧ rec.kind = .session ∧ rec.status ≠ .exited ∧
      rec.status ≠ .stopped ∧ b.over rec = true
  minted : ∀ rec, w'.agents.get rec.id = some rec → w.agents.get rec.id = none →
    ∃ pane ∈ job.adoptable b ctx, rec.pane = some { mux := pane.mux, id := pane.id } ∧ w.bound pane.id = false ∧
      ∀ other, w.agents.get other.id = some other → other.bears pane = false
  apart : ∀ rec rec', w'.agents.get rec.id = some rec → w.agents.get rec.id = none →
    w'.agents.get rec'.id = some rec' →
    w.agents.get rec'.id = none → rec.pane = rec'.pane → rec = rec'
  returned : ∀ changed, r = .ok changed → (changed.map (·.id)).Nodup ∧
    ∀ rec, rec ∈ changed ↔ w'.agents.get rec.id = some rec ∧ w.agents.get rec.id ≠ some rec

section
variable {b : Backend} {ctx : Ctx} {job : Job} {w w' w'' : World} {rec : AgentRecord}
  {r r' : Except HubError (List AgentRecord)}
variable {adopts : Bool} {cs cs' : List Choice}

theorem of_reconciles (h : b.reconciles ctx rec = true) :
    ∃ cur, storablePane ctx.env = some cur ∧ b.lists cur.mux ≠ [] ∧
    b.culls cur.mux rec = true := by
  unfold Backend.reconciles Backend.around at h
  cases hcur : storablePane ctx.env with
  | none => rw [hcur] at h; cases h
  | some cur =>
    rw [hcur] at h
    obtain ⟨hne, hcull⟩ := Bool.and_eq_true_iff.mp h
    exact ⟨cur, rfl, of_decide_eq_true hne, hcull⟩

theorem marks_over (h : job.marks b ctx rec = true) : isPrunable rec = true ∧ b.over rec = true := by
  have hreconciles : b.reconciles ctx rec = true → isPrunable rec = true ∧ b.over rec = true := by
    intro h
    obtain ⟨cur, -, hne, hcull⟩ := of_reconciles h
    obtain ⟨hprunable, hpane⟩ := of_decide_eq_true hcull
    obtain ⟨pane, hpane, hgone⟩ := (Option.any_eq_true _ _).mp hpane
    obtain ⟨hmux, hgone⟩ := of_decide_eq_true hgone
    refine ⟨hprunable, ?_⟩
    unfold Backend.over
    rw [hpane]
    refine decide_eq_true ⟨?_, ?_⟩
    · rw [hmux]; exact hne
    · rw [hmux]; exact hgone
  have hjudges : b.judges rec = true → isPrunable rec = true ∧ b.over rec = true := by
    intro h
    unfold Backend.judges at h
    obtain ⟨hprunable, h⟩ := Bool.and_eq_true_iff.mp h
    refine ⟨hprunable, ?_⟩
    unfold Backend.over
    cases hpane : rec.pane with
    | none => rw [hpane] at h; exact h
    | some pane => rw [hpane] at h; exact (Bool.and_eq_true_iff.mp h).2
  cases job with
  | prune => exact (Bool.or_eq_true_iff.mp h).elim hreconciles hjudges
  | reconcile adopts => exact hreconciles h

theorem reconcile_does : Under b (reconcile ctx adopts) ((Job.reconcile adopts).Does b ctx w) w := by
  have hidle : b.around ctx = [] → (Job.reconcile adopts).Does b ctx w (.ok []) w := by
    intro hnone
    refine ⟨[], w, Pass.none fun rec _ => ?_, .inl ⟨[], rfl, ?_⟩⟩
    · show b.reconciles ctx rec = false
      rw [Backend.reconciles, hnone]; rfl
    · have : (Job.reconcile adopts).adoptable b ctx = [] := by
        cases adopts with
        | true => exact hnone
        | false => rfl
      rw [this]
      exact adopts_none
  unfold reconcile
  cases hcur : storablePane ctx.env with
  | none =>
    apply hidle
    rw [Backend.around, hcur]
  | some cur =>
    have haround : b.around ctx = b.lists cur.mux := by rw [Backend.around, hcur]
    refine ⟨trivial, fun c panes w₁ _ hr => ?_⟩
    cases hr
    show Under b (if b.lists cur.mux = [] then _ else _) _ w
    by_cases hne : b.lists cur.mux = []
    · rw [if_pos hne]
      exact hidle (haround.trans hne)
    · rw [if_neg hne]
      refine ⟨trivial, fun c recs w₁ _ hr => ?_⟩
      cases hr
      refine wp_seq (p := cull cur.mux (b.lists cur.mux) (Registry.list w.agents)) (cull_marks listed_list) ?_ ?_
      · rintro changed w₁ ⟨hchanged, hmarks⟩
        cases hchanged
        have hpass : Pass ((Job.reconcile adopts).marks b ctx) w
            (((Registry.list w.agents).filter (b.culls cur.mux)).map AgentRecord.exited) w₁ := by
          have hsame : (Job.reconcile adopts).marks b ctx = b.culls cur.mux := by
            funext rec
            show b.reconciles ctx rec = _
            rw [Backend.reconciles, haround, hcur]
            simp [hne]
          rw [hsame]
          exact pass_of_marks hmarks
        cases adopts with
        | false => exact ⟨_, w₁, hpass, .inl ⟨[], by rw [List.append_nil], adopts_none⟩⟩
        | true =>
          refine ⟨trivial, fun c recs w₂ _ hr => ?_⟩
          cases hr
          refine wp_seq (p := adopt (Registry.list w₁.agents) (b.lists cur.mux)) adopt_adopts ?_ ?_
          · rintro new w₂ (⟨new', hnew, hadopts⟩ | ⟨-, -, -, e, hnew⟩)
            · cases hnew
              refine ⟨_, w₁, hpass, .inl ⟨new, rfl, ?_⟩⟩
              show Adopts b _ (b.around ctx) _ _ _
              rw [haround]
              exact hadopts
            · cases hnew
          · rintro e w₂ (⟨new', hnew, -⟩ | ⟨hpanes, rfl, hundated, -⟩)
            · cases hnew
            · refine ⟨_, w₂, hpass, .inr ⟨?_, rfl, hundated, e, rfl⟩⟩
              show b.around ctx ≠ []
              rw [haround]
              exact hpanes
      · rintro e w₁ ⟨hr, -⟩
        cases hr

theorem job_does : Under b (job.run ctx) (job.Does b ctx w) w := by
  cases job with
  | reconcile adopts => exact reconcile_does
  | prune =>
    show Under b (prune ctx) _ w
    unfold prune
    refine ⟨trivial, fun c now w₁ _ hr => ?_⟩
    cases hr
    refine wp_seq (p := reconcile ctx false) reconcile_does ?_ ?_
    · rintro changed w₁ ⟨changed', w₂, hpass, ⟨new, hr, hadopts⟩ | ⟨-, -, -, e, hr⟩⟩
      · -- nothing is adopted: the job's list of panes is empty
        obtain rfl : new = [] := List.eq_nil_iff_forall_not_mem.mpr fun rec hrec => by
          obtain ⟨pane, hpane, -⟩ := hadopts.live rec hrec
          exact absurd hpane List.not_mem_nil
        obtain rfl := hadopts.still rfl
        rw [List.append_nil] at hr
        cases hr
        refine ⟨trivial, fun c recs w₂ _ hr => ?_⟩
        cases hr
        refine wp_seq (p := judge b.now (fun _ => none) (Registry.list w₁.agents))
          (judge_marks listed_list fun _ _ h => by cases h) ?_ ?_
        · rintro changed' w₂ ⟨hchanged, hmarks⟩
          cases hchanged
          exact ⟨_, w₂, hpass.then (fun rec => prunable_of_judges) (pass_of_marks hmarks),
            .inl ⟨[], by rw [List.append_nil], adopts_none⟩⟩
        · rintro e w₂ ⟨hr, -⟩
          cases hr
      · cases hr
    · rintro e w₁ ⟨changed', w₂, -, ⟨new, hr, -⟩ | ⟨hpanes, -⟩⟩
      · cases hr
      · exact absurd rfl hpanes

theorem Pass.stored {f : AgentRecord → Bool} {changed : List AgentRecord} (h : Pass f w changed w') :
    w'.agents.get rec.id = some rec ↔ ∃ rec₀, w.agents.get rec₀.id = some rec₀ ∧ rec = mark f rec₀ := by
  rw [h.agents, Option.map_eq_some_iff]
  constructor
  · rintro ⟨rec₀, hget, rfl⟩
    exact ⟨rec₀, by rw [mark_id] at hget; exact hget, rfl⟩
  · rintro ⟨rec₀, hget, rfl⟩
    exact ⟨rec₀, by rw [mark_id]; exact hget, rfl⟩

theorem Pass.bound {f : AgentRecord → Bool} {changed : List AgentRecord} (h : Pass f w changed w') {pane : String} :
    w'.bound pane = w.bound pane := by
  unfold World.bound World.resolvePaneId World.paneText
  rw [h.panes]
  cases (w.panes.lookup (sanitizePane pane)).map jsTrim with
  | none => rfl
  | some id => simp [h.agents]

theorem mark_bears {f : AgentRecord → Bool} {pane : LivePane} : (mark f rec).bears pane = rec.bears pane := by
  unfold mark
  split <;> rfl

theorem Job.Does.new (h : job.Does b ctx w r w') : ∃ changed w₁ new, Pass (job.marks b ctx) w changed w₁ ∧
    (∀ changed', r = .ok changed' → changed' = changed ++ new) ∧
    (∀ rec, w'.agents.get rec.id = some rec ↔ w₁.agents.get rec.id = some rec ∨ rec ∈ new) ∧
    (∀ rec ∈ new, w₁.agents.get rec.id = none) ∧ (new.map (·.id)).Nodup ∧
    (new.Pairwise fun rec rec' => rec.pane ≠ rec'.pane) ∧
    ∀ rec ∈ new, ∃ pane ∈ job.adoptable b ctx, rec.pane = some { mux := pane.mux, id := pane.id } ∧
      w₁.bound pane.id = false ∧
      (Registry.list w₁.agents).any (·.bears pane) = false := by
  obtain ⟨changed, w₁, hpass, ⟨new, rfl, hadopts⟩ | ⟨-, rfl, -, e, rfl⟩⟩ := h
  · refine ⟨changed, w₁, new, hpass, fun changed' h => (Except.ok.inj h).symm, hadopts.stored,
      hadopts.fresh, hadopts.ids,
      hadopts.apart, fun rec hrec => ?_⟩
    obtain ⟨pane, hpane, -, hlive⟩ := hadopts.live rec hrec
    exact ⟨pane, hpane, hlive⟩
  · exact ⟨changed, w', [], hpass, nofun, fun rec => by simp, fun _ h => absurd h List.not_mem_nil,
      List.nodup_nil, .nil,
      fun _ h => absurd h List.not_mem_nil⟩

theorem Job.Does.prunes (h : job.Does b ctx w r w') : Prunes b ctx job w r w' := by
  obtain ⟨changed, w₁, new, hpass, hreturned, hstored, hfresh, hids, hapart, hlive⟩ := h.new
  have hmem : ∀ rec, w'.agents.get rec.id = some rec → w.agents.get rec.id = none → rec ∈ new := by
    intro rec hget hnone
    refine ((hstored rec).mp hget).resolve_left fun hget => ?_
    rw [hpass.agents, hnone] at hget
    cases hget
  refine ⟨fun rec hget => ?_, fun rec hget hnone => ?_, fun rec rec' hget hnone hget' hnone' hpane => ?_,
    fun changed' hr => ?_⟩
  · have hget' := (hstored _).mpr (.inl (hpass.stored.mpr ⟨rec, hget, rfl⟩))
    rw [mark_id] at hget'
    by_cases hmarks : job.marks b ctx rec = true
    · obtain ⟨hprunable, hover⟩ := marks_over hmarks
      obtain ⟨-, hexited, hstopped⟩ := of_decide_eq_true hprunable
      rw [mark, if_pos hmarks] at hget'
      exact .inr ⟨hget', kind_of_prunable hprunable, hexited, hstopped, hover⟩
    · rw [mark, if_neg hmarks] at hget'
      exact .inl hget'
  · obtain ⟨pane, hpane, hbears, hbound, hborne⟩ := hlive rec (hmem rec hget hnone)
    refine ⟨pane, hpane, hbears, hpass.bound.symm.trans hbound, fun other hother => ?_⟩
    have hnot := List.any_eq_false.mp hborne _ (Registry.mem_list.mpr (hpass.stored.mpr ⟨other, hother, rfl⟩))
    rw [mark_bears] at hnot
    exact Bool.eq_false_iff.mpr hnot
  · by_contra hne
    have : Std.Symm fun rec rec' : AgentRecord => rec.pane ≠ rec'.pane := ⟨fun _ _ h => h.symm⟩
    exact hapart.forall (hmem rec hget hnone) (hmem rec' hget' hnone') hne hpane
  · obtain rfl := hreturned changed' hr
    refine ⟨?_, fun rec => ?_⟩
    · rw [List.map_append]
      refine List.Nodup.append hpass.ids hids fun id hid hid' => ?_
      obtain ⟨rec, hrec, rfl⟩ := List.mem_map.mp hid
      obtain ⟨rec', hrec', hsame⟩ := List.mem_map.mp hid'
      obtain ⟨rec₀, hget, hmarks, rfl⟩ := (hpass.changed rec).mp hrec
      have hnone := hfresh rec' hrec'
      rw [hpass.agents, hsame, show w.agents.get rec₀.exited.id = some rec₀ from hget] at hnone
      cases hnone
    · rw [List.mem_append, hpass.changed, hstored]
      constructor
      · rintro (⟨rec₀, hget, hmarks, rfl⟩ | hrec)
        · refine ⟨.inl (hpass.stored.mpr ⟨rec₀, hget, by rw [mark, if_pos hmarks]⟩), fun hsame => ?_⟩
          obtain ⟨-, hexited, -⟩ := of_decide_eq_true (marks_over hmarks).1
          rw [show w.agents.get rec₀.exited.id = some rec₀ from hget] at hsame
          exact hexited (congrArg AgentRecord.status (Option.some.inj hsame))
        · refine ⟨.inr hrec, fun hget => ?_⟩
          have hnone := hfresh rec hrec
          rw [hpass.agents, hget] at hnone
          cases hnone
      · rintro ⟨hget | hrec, hchanged⟩
        · obtain ⟨rec₀, hget₀, rfl⟩ := hpass.stored.mp hget
          by_cases hmarks : job.marks b ctx rec₀ = true
          · exact .inl ⟨rec₀, hget₀, hmarks, by rw [mark, if_pos hmarks]⟩
          · rw [mark, if_neg hmarks] at hchanged
            exact absurd hget₀ hchanged
        · exact .inr hrec

theorem Job.Does.marked (h : job.Does b ctx w r w') (hget : w'.agents.get rec.id = some rec) :
    job.marks b ctx rec = false := by
  obtain ⟨changed, w₁, new, hpass, -, hstored, -, -, -, hlive⟩ := h.new
  rcases (hstored rec).mp hget with hget | hrec
  · exact hpass.over (fun rec h => (marks_over h).1) hget
  · obtain ⟨pane, hpane, hbears, -, -⟩ := hlive rec hrec
    match job with
    | .prune => exact absurd hpane List.not_mem_nil
    | .reconcile false => exact absurd hpane List.not_mem_nil
    | .reconcile true =>
      -- a minted record bears a pane of the list that it would be judged by
      refine Bool.eq_false_iff.mpr fun hmarks => ?_
      obtain ⟨cur, hcur, -, hcull⟩ := of_reconciles hmarks
      obtain ⟨-, hgone⟩ := of_decide_eq_true hcull
      rw [hbears] at hgone
      obtain ⟨-, hgone⟩ := of_decide_eq_true hgone
      have hlisted : pane ∈ b.lists cur.mux := by
        rw [Job.adoptable, Backend.around, hcur] at hpane
        exact hpane
      exact hgone (List.any_eq_true.mpr ⟨pane, hlisted, decide_eq_true rfl⟩)

theorem Job.Does.again (h : job.Does b ctx w r w') (h' : job.Does b ctx w' r' w'') : w'' = w' := by
  obtain ⟨changed', w₂, hpass', hend'⟩ := h'
  obtain rfl := hpass'.still fun rec hget => h.marked hget
  rcases hend' with ⟨new', -, hadopts'⟩ | ⟨-, rfl, -⟩
  · refine hadopts'.still (List.eq_nil_iff_forall_not_mem.mpr fun rec hrec => ?_)
    obtain ⟨changed, w₁, hpass, ⟨new, -, hadopts⟩ | ⟨-, -, hundated, -⟩⟩ := h
    · obtain ⟨pane, hpane, hharness, -, hbound, hborne⟩ := hadopts'.live rec hrec
      rcases hadopts.covered pane hpane hharness with hbound' | hborne'
      · rw [hbound'] at hbound
        cases hbound
      · obtain ⟨other, hother, hbears⟩ := List.any_eq_true.mp hborne'
        have hstored := (hadopts.stored other).mpr (.inl (Registry.mem_list.mp hother))
        exact List.any_eq_false.mp hborne other (Registry.mem_list.mpr hstored) hbears
    · rw [hadopts'.dated hundated] at hrec
      exact absurd hrec List.not_mem_nil
  · rfl

/-- A prune or a reconcile changes records on evidence only, returns what it changed, and run
again with the same answers changes nothing. -/
theorem prune_fails_closed (h : run (answering b) (job.run ctx) cs w = some (r, w')) :
    Prunes b ctx job w r w' ∧ ∀ cs' r' w'', run (answering b) (job.run ctx) cs' w' = some (r', w'') → w'' = w' := by
  have hdoes : job.Does b ctx w r w' := wp_run job_does (fun _ _ => trivial) h
  refine ⟨hdoes.prunes, fun cs' r' w'' h' => ?_⟩
  have hdoes' : job.Does b ctx w' r' w'' := wp_run job_does (fun _ _ => trivial) h'
  exact hdoes.again hdoes'

end

def onePane : Backend where
  lists
    | .herdr => [{ mux := .herdr, id := "p1", cwd := some "/w", harness := some "claude" }]
    | .tmux => []
  paneExists _ pane := pane = "p1"
  now := 1000

def paneGoneUnit : AgentRecord :=
  { id := "dead1", handle := "ada", cwd := "/w", pane := some { mux := .herdr, id := "p9" }, status := .active
    createdAt := 0, lastSeen := 0 }

def inHerdr : Ctx := { env := { currentPane := some (.herdr, "p1") } }

def withGoneUnit : World := { agents := Filed.empty.put paneGoneUnit (by decide) }

theorem reconcile_marks_and_mints : ∃ changed w', changed.map (·.id) = ["dead1", "new1"] ∧
    Prunes onePane inHerdr (.reconcile true) withGoneUnit (.ok changed) w' := by
  have hrun : ((run (answering onePane) ((Job.reconcile true).run inHerdr)
      [{}, {}, {}, {}, {}, { text := some "new1" }, {}, {}, {}]
      withGoneUnit).bind fun q => q.1.toOption.map fun changed => changed.map (·.id)) = some ["dead1", "new1"] := by
    decide +kernel
  obtain ⟨⟨r, w'⟩, hrun, hr⟩ := Option.bind_eq_some_iff.mp hrun
  cases r with
  | error e => cases hr
  | ok changed => exact ⟨changed, w', Option.some.inj hr, (prune_fails_closed hrun).1⟩

end Cyberlegion
