import Cyberlegion.RegistrySpec
import Cyberlegion.RuntimeFrame

/-!
# Who owns a pane

No two running units bear one pane, and the index names the unit that bears it. The
verbs keep this as long as no session opens in a pane that a running unit is still
recorded in, and no runtime verb acts on a pane that has gone to another unit.
-/

namespace Cyberlegion

open Effects Runs

/-- The record is stored, neither exited nor stopped, and bears the pane. -/
def World.bears (w : World) (rec : AgentRecord) (pane : Pane) : Prop :=
  w.agents.get rec.id = some rec ∧ rec.status.running = true ∧ rec.pane = some pane

structure Owned (w : World) : Prop where
  unique : ∀ rec rec' pane pane', w.bears rec pane → w.bears rec' pane' → pane.mux = pane'.mux →
    pane.id = pane'.id → rec.id = rec'.id
  indexed : ∀ rec pane, w.bears rec pane → w.resolvePaneId pane.id = some rec.id

/-- No running unit but `id` bears a pane with the index entry of this one. -/
def World.free (w : World) (id : Option String) (pane : String) : Bool :=
  w.agents.values.all fun rec => some rec.id = id ∨ rec.status.running = false ∨
    rec.pane.all fun q => sanitizePane q.id ≠ sanitizePane pane

/-- A new session opens in no pane that another running unit is recorded in, a runtime
verb that gets as far as to remove an index entry acts on no unit recorded in such a pane,
and binds a unit whose id a trimmed index entry can name. -/
def TakesNoPane (w : World) (c : Command) (trace : List (Call × Choice)) : Prop :=
  (∀ x ∈ trace, ∀ pane, opens x.1 x.2 = some pane → w.free ((c.target w).map (·.id)) pane = true) ∧
  ∀ rec, c.target w = some rec →
    ((∃ key ch, (Call.removePaneIndex key, ch) ∈ trace) → ∀ pane, rec.pane = some pane →
      w.free (some rec.id) pane.id = true) ∧
    (c.binds = true → jsTrim rec.id = rec.id)

section
variable {A : Call → Choice → Prop} {w w' : World} {c : Command} {ctx : Ctx} {rec : AgentRecord}
variable {written : Option AgentRecord} {id key pane : String} {old binds : Option String}

theorem free_iff {id : Option String} : w.free id pane = true ↔
    ∀ rec q, w.bears rec q → some rec.id ≠ id → sanitizePane q.id ≠ sanitizePane pane := by
  simp only [World.free, List.all_eq_true, decide_eq_true_eq, World.bears, Option.all_eq_true, Filed.mem_values]
  constructor
  · intro h rec q ⟨hget, hrunning, hpane⟩ hne
    rcases h rec hget with h | h | h
    · exact absurd h hne
    · rw [hrunning] at h; cases h
    · exact h q hpane
  · intro h rec hget
    by_cases hne : some rec.id = id
    · exact .inl hne
    cases hrunning : rec.status.running with
    | false => exact .inr (.inl rfl)
    | true => exact .inr (.inr fun q hpane => h rec q ⟨hget, hrunning, hpane⟩ hne)

theorem owned_of_indexed (h : ∀ rec pane, w.bears rec pane → w.resolvePaneId pane.id = some rec.id) : Owned w := by
  refine ⟨fun rec rec' q q' hq hq' _ hid => ?_, h⟩
  have hsame := h rec q hq
  rw [hid, h rec' q' hq'] at hsame
  exact (Option.some.inj hsame).symm

theorem owned_same (hw : Owned w) (h : Same w w') : Owned w' := by
  refine owned_of_indexed fun rec q hq => ?_
  rw [World.bears, h.agents] at hq
  rw [h.resolve]
  exact hw.indexed rec q hq

/-- Writing a unit's entry keeps ownership if the panes it unbinds and binds are no other
running unit's, and the unit is indexed where it is recorded. -/
theorem owned_wrote (hw : Owned w) (h : Wrote w id written old binds w')
    (hold : ∀ key, old = some key → w.free (some id) key = true)
    (hbinds : ∀ key, binds = some key → w.free (some id) key = true)
    (hown : ∀ rec q, written = some rec → rec.status.running = true → rec.pane = some q →
      (binds = some q.id ∧ jsTrim id = id) ∨ old = none ∧ binds = none ∧ w.resolvePaneId q.id = some id) :
    Owned w' := by
  refine owned_of_indexed fun rec q ⟨hget, hrunning, hpane⟩ => ?_
  rw [h.agents] at hget
  rw [h.panes]
  by_cases hid : rec.id = id
  · rw [if_pos hid] at hget
    rcases hown rec q hget hrunning hpane with ⟨hbind, htrim⟩ | ⟨hold, hbind, hres⟩
    · rw [hbind, Option.any_some, if_pos (decide_eq_true rfl), htrim, hid]
    · rw [hbind, hold, hid]
      exact hres
  · rw [if_neg hid] at hget
    have hbears : w.bears rec q := ⟨hget, hrunning, hpane⟩
    have hother : ∀ {key : Option String}, (∀ k, key = some k → w.free (some id) k = true) →
        ¬(key.any (sanitizePane q.id = sanitizePane ·) = true) := by
      intro key hkey hany
      obtain ⟨k, hk, heq⟩ := (Option.any_eq_true _ _).mp hany
      exact free_iff.mp (hkey k hk) rec q hbears (fun h => hid (Option.some.inj h)) (of_decide_eq_true heq)
    rw [if_neg (hother hbinds), if_neg (hother hold)]
    exact hw.indexed rec q hbears

/-! ## The verbs that keep the registry -/

theorem owned_touches (hw : Owned w) (h : Touches w w') : Owned w' := by
  rcases h with h | ⟨rec, lastSeen, hget, h⟩
  · exact owned_same hw h
  · refine owned_wrote hw h nofun nofun fun rec' q hrec' hrunning hpane => ?_
    cases hrec'
    exact .inr ⟨rfl, rfl, hw.indexed rec q ⟨hget, hrunning, hpane⟩⟩

theorem owned_converses {session : Option String} (hw : Owned w) (h : Converses w ctx session w') : Owned w' := by
  unfold Converses at h
  split at h
  · exact owned_same hw h
  · obtain ⟨hget, ⟨-, h⟩ | h⟩ := h
    · exact owned_same hw h
    · refine owned_wrote hw h nofun nofun fun rec' q hrec' hrunning hpane => ?_
      cases hrec'
      exact .inr ⟨rfl, rfl, hw.indexed _ q ⟨hget, hrunning, hpane⟩⟩

/-- A pane whose index entry names no running unit but `id` is free for it. -/
theorem free_of_index (hw : Owned w) (h : ∀ rec q, w.bears rec q → w.resolvePaneId pane = some rec.id → rec.id = id) :
    w.free (some id) pane = true := by
  refine free_iff.mpr fun rec q hq hne hkey => hne ?_
  rw [h rec q hq]
  have hres := hw.indexed rec q hq
  rwa [World.resolvePaneId, hkey] at hres

theorem owned_sweep (hw : Owned w) (h : Sweep w w') : Owned w' := by
  cases h with
  | same h => exact owned_same hw h
  | exits hget _ h =>
    refine owned_wrote hw h nofun nofun fun rec' q hrec' hrunning _ => ?_
    cases hrec'
    cases hrunning
  | adopts hid hnew _ htrim hpane _ hunbound h =>
    refine owned_wrote hw h nofun (fun key hkey => ?_) fun rec' q hrec' _ hq => ?_
    · cases hkey
      refine free_of_index hw fun rec q hq hres => ?_
      have hnone := hunbound _ hres
      rw [hq.1] at hnone
      cases hnone
    · cases hrec'
      rw [hq] at hpane
      exact .inl ⟨hpane.symm, htrim⟩

theorem owned_sweeps (hw : Owned w) (h : Sweeps w w') : Owned w' := by
  induction h with
  | refl => exact hw
  | tail _ h ih => exact owned_sweep ih h

theorem owned_spawn {input : SpawnInput} {r : Except HubError SpawnResult} (hw : Owned w)
    (hopens : ∀ pane, Opens A pane → w.free none pane = true) (h : SpawnWrites A w ctx input r w') : Owned w' := by
  rcases h with ⟨h, -⟩ | ⟨res, pane, -, -, htrim, ⟨hopen, hpane⟩, h⟩
  · exact owned_same hw h
  · refine owned_wrote hw h nofun (fun key hkey => ?_) fun rec' q hrec' _ hq => ?_
    · cases hkey
      exact free_iff.mpr fun rec q hq _ => free_iff.mp (hopens _ hopen) rec q hq (by simp)
    · cases hrec'
      cases hpane.symm.trans hq
      exact .inl ⟨rfl, htrim⟩

theorem owned_register (hw : Owned w) (h : RegisterWrites A w ctx w') : Owned w' := by
  rcases h with h | ⟨id, rec, hwho, -, ⟨hcur⟩, h⟩
  · exact owned_same hw h
  · have hself : ∀ q, rec.pane = some q → w.selfId ctx = w.resolvePaneId q.id := by
      intro q hq
      rw [hq] at hcur
      obtain ⟨cur, hcur, hmux⟩ := Option.bind_eq_some_iff.mp hcur.symm
      obtain ⟨mux, -, hmux⟩ := Option.map_eq_some_iff.mp hmux
      rw [World.selfId, hcur]
      exact congrArg w.resolvePaneId (congrArg CurrentPane.pane hmux)
    refine owned_wrote hw h nofun (fun key hkey => ?_) fun rec' q hrec' _ hq => ?_
    · obtain ⟨q, hq, rfl⟩ := Option.map_eq_some_iff.mp hkey
      refine free_of_index hw fun other q' _ hres => ?_
      rw [Registers, hself q hq, hres] at hwho
      exact hwho.symm
    · cases hrec'
      refine .inl ⟨by rw [hq]; rfl, ?_⟩
      rw [Registers, hself q hq] at hwho
      cases hres : w.resolvePaneId q.id with
      | none =>
        rw [hres] at hwho
        exact hwho.2
      | some self =>
        rw [hres] at hwho
        obtain ⟨text, -, rfl⟩ := Option.map_eq_some_iff.mp hres
        rw [hwho]
        exact jsTrim_jsTrim text

/-! ## The runtime verbs -/

theorem leaves_owned (hw : Owned w) (htidy : Tidy w) (hkey : w.leaves rec key)
    (hfree : ∀ pane, rec.pane = some pane → w.free (some rec.id) pane.id = true) : w.free (some rec.id) key = true := by
  unfold World.leaves at hkey
  cases hp : rec.pane with
  | some q =>
    rw [hp] at hkey
    rw [← hkey]
    exact hfree q hp
  | none =>
    rw [hp] at hkey
    have hclean : sanitizePane key = key := by
      refine htidy key fun hnone => ?_
      rw [World.paneText, hnone] at hkey
      cases hkey
    refine free_of_index hw fun other q _ hres => ?_
    rw [World.resolvePaneId, hclean, hkey] at hres
    exact (Option.some.inj hres).symm

theorem owned_runtime (hw : Owned w) (htidy : Tidy w)
    (hopens : ∀ pane, Opens A pane → w.free ((c.target w).map (·.id)) pane = true)
    (hfree : ∀ rec, c.target w = some rec → (∃ key ch, A (.removePaneIndex key) ch) →
      ∀ pane, rec.pane = some pane →
      w.free (some rec.id) pane.id = true)
    (htrim : ∀ rec, c.target w = some rec → c.binds = true → jsTrim rec.id = rec.id)
    (h : RuntimeWrites A w c w') : Owned w' := by
  rcases h with h | ⟨rec, written, old, binds, ht, hunbinds, hwrite, h⟩
  · exact owned_same hw h
  have hold : ∀ key, old = some key → w.free (some rec.id) key = true := by
    intro key hkey
    obtain ⟨hleaves, hremoved⟩ := hunbinds
    exact leaves_owned hw htidy (hleaves key hkey).2 (hfree rec ht ⟨key, hremoved key hkey⟩)
  refine owned_wrote hw h hold ?_ ?_
  · cases hwrite with
    | halts | reaps => exact nofun
    | opens _ _ hopen =>
      rintro key ⟨⟩
      have hopen := hopens _ hopen
      rwa [ht] at hopen
    | binds _ _ _ htaken =>
      rintro key ⟨⟩
      refine free_of_index hw fun other q hq hres => by_contra fun hne => ?_
      rw [World.taken, hres] at htaken
      simp only [hq.1, Option.any_some, hq.2.1, ne_eq, hne, not_false_eq_true, and_self, decide_true] at htaken
      cases htaken
  · intro rec' q hrec' hrunning hq
    cases hwrite with
    | halts =>
      cases hrec'
      cases hrunning
    | reaps => cases hrec'
    | opens _ hverb _ =>
      cases hrec'
      cases hq
      exact .inl ⟨rfl, htrim rec ht hverb⟩
    | binds _ hverb _ _ =>
      cases hrec'
      cases hq
      exact .inl ⟨rfl, htrim rec ht hverb⟩

/-! ## Every run -/

theorem owned_command {tr : List (Call × Choice)} (hw : Owned w) (htidy : Tidy w) (hD : TakesNoPane w c tr) :
    Ends (fun op ch => (op, ch) ∈ tr) c.prog (fun _ w' => Owned w') w := by
  obtain ⟨ctx, verb⟩ := c
  have hopens : ∀ {id : Option String}, (∀ x ∈ tr, ∀ pane, opens x.1 x.2 = some pane → w.free id pane = true) →
      ∀ pane, Opens (fun op ch => (op, ch) ∈ tr) pane → w.free id pane = true :=
    fun h pane ⟨op, ch, hx, hpane⟩ => h (op, ch) hx pane hpane
  have hruntime : ∀ {w'}, RuntimeWrites (fun op ch => (op, ch) ∈ tr) w ⟨ctx, verb⟩ w' → Owned w' :=
    fun h => owned_runtime hw htidy (hopens hD.1) (fun rec ht => (hD.2 rec ht).1) (fun rec ht => (hD.2 rec ht).2) h
  cases verb with
  | spawn input => exact ends_returned (wp_mono spawn_writes fun r w' h => owned_spawn hw (hopens hD.1) h)
  | register input => exact ends_returned (wp_mono register_writes fun r w' h => owned_register hw h)
  | reconcile adopts => exact ends_returned (wp_mono reconcile_sweeps fun r w' h => owned_sweeps hw h)
  | prune => exact ends_returned (wp_mono prune_sweeps fun r w' h => owned_sweeps hw h)
  | touch => exact ends_returned (wp_mono touch_touches fun r w' h => owned_touches hw h)
  | recordConversation session =>
    exact ends_returned (wp_mono recordConversation_converses fun r w' h => owned_converses hw h)
  | stop ref => exact ends_returned (wp_mono (stop_writes rfl) fun r w' h => hruntime h)
  | restart ref fresh => exact ends_returned (wp_mono (restart_writes rfl) fun r w' h => hruntime h)
  | rebind ref => exact ends_returned (wp_mono (rebind_writes rfl) fun r w' h => hruntime h)
  | close input => exact ends_returned (wp_mono (close_writes rfl) fun r w' h => hruntime h)

end

/-- In every run whose verbs take no other running unit's pane, each pane that a running
unit bears is that unit's alone and indexed under it. -/
theorem pane_owned (live : List (StorableMux × String)) (dirs : List String) (es : List HubEvent) (s : HubRun)
    (hD : AllSteps hubStep (CallsMeet TakesNoPane handle Command.prog) (newHub live dirs) es)
    (h : exec hubStep (newHub live dirs) es = some s) : Owned s.state := by
  refine (log_run (I := fun w => Owned w ∧ Tidy w) (E := fun _ => True) (D := TakesNoPane) ?_ ?_ ⟨?_, ?_⟩
    (fun _ _ => trivial) hD h).1.1
  · intro c cs w r w' ⟨hw, htidy⟩ hmeet hr
    refine ⟨⟨wp_run (owned_command hw htidy hmeet) (fun _ hx => hx) hr, ?_⟩, trivial⟩
    have honly : c.prog.Only fun _ => True := Prog.only_true _
    exact wp_run (wp_only honly (fun op c w r w' _ hw hr => tidy_call op c w r w' hw hr) (fun _ _ _ _ => trivial) htidy)
      (A := fun _ _ => True) (Φ := fun _ _ => True) (fun _ _ => trivial) hr
  · intro x w w' ⟨hw, htidy⟩ hx
    obtain ⟨live, dirs, rfl⟩ := outside_cases hx
    exact ⟨owned_same hw ⟨rfl, rfl, rfl⟩, htidy⟩
  · exact owned_of_indexed fun rec pane hq => by cases hq.1
  · exact fun key hkey => absurd rfl hkey

theorem pane_owned_reused : ∃ s, exec hubStep (newHub [(.tmux, "%0")] ["/w"])
      [spawnAt "a1" "%1", .other (.paneEnds .tmux "%1"),
        .call ⟨shell, .prune⟩ [{}, { list := [{ mux := .tmux, id := "%0" }] }, {}, {}, {}],
          spawnAt "b2" "%1"] = some s ∧
    Owned s.state := by
  have hstate : (exec hubStep (newHub [(.tmux, "%0")] ["/w"])
      [spawnAt "a1" "%1", .other (.paneEnds .tmux "%1"),
        .call ⟨shell, .prune⟩ [{}, { list := [{ mux := .tmux, id := "%0" }] }, {}, {}, {}],
          spawnAt "b2" "%1"]).isSome := by
    decide +kernel
  obtain ⟨s, hs⟩ := Option.isSome_iff_exists.mp hstate
  refine ⟨s, hs, pane_owned _ _ _ s ?_ hs⟩
  refine AllSteps.mono (C := CallsMeet (fun w c tr => c.target w = none ∧
    ∀ x ∈ tr, ((opens x.1 x.2).all fun pane => w.free none pane) = true) handle Command.prog) ?_ ?_
  · intro s ev h
    cases ev with
    | other x => trivial
    | call c cs =>
      obtain ⟨ht, hfree⟩ := h
      refine ⟨fun x hx pane hpane => ?_, fun rec hrec => by rw [ht] at hrec; cases hrec⟩
      rw [ht]
      have hfree := hfree x hx
      rw [hpane] at hfree
      exact hfree
  · decide +kernel

/-- The same before the first unit is marked exited: two running units bear `%1`. -/
theorem pane_shared : ∃ s, exec hubStep (newHub [(.tmux, "%0")] ["/w"])
      [spawnAt "a1" "%1", .other (.paneEnds .tmux "%1"), spawnAt "b2" "%1"] = some s ∧ ¬Owned s.state := by
  have hstate : ((exec hubStep (newHub [(.tmux, "%0")] ["/w"])
      [spawnAt "a1" "%1", .other (.paneEnds .tmux "%1"), spawnAt "b2" "%1"]).bind fun s =>
      (s.state.agents.get "a1").map fun a => (decide (s.state.agents.get a.id = some a ∧ a.status.running = true ∧
        a.pane = some { mux := .tmux, id := "%1" }), decide (s.state.resolvePaneId "%1" = some a.id))) =
      some (true, false) := by
    decide +kernel
  obtain ⟨s, hs, hrec⟩ := Option.bind_eq_some_iff.mp hstate
  obtain ⟨a, -, ha⟩ := Option.map_eq_some_iff.mp hrec
  obtain ⟨hbears, hindex⟩ := Prod.mk.inj ha
  refine ⟨s, hs, fun hw => ?_⟩
  have hbears := of_decide_eq_true hbears
  have hother := of_decide_eq_false hindex
  exact hother (hw.indexed a { mux := .tmux, id := "%1" } hbears)

end Cyberlegion
