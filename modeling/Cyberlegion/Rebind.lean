import Cyberlegion.Restart

/-!
# How a rebind goes

A rebind refuses, finds the unit in the caller's pane already, or writes: the record, the
index entry of the pane it leaves and the one of the caller's pane.
-/

namespace Cyberlegion

open Effects

/-- The record bears the caller's pane, and so does the index. -/
def Bears (w : World) (rec : AgentRecord) (cur : CurrentPane) : Prop :=
  (rec.pane.any fun pane => pane.mux = cur.mux ∧ pane.id = cur.pane) = true ∧ w.resolvePaneId cur.pane = some rec.id

/-- The pane whose entry a rebind removes. -/
def parting (rec : AgentRecord) (cur : CurrentPane) (m : Calls) : Option String := (leaving rec m).filter (· ≠ cur.pane)

def sought (rec : AgentRecord) (m : Calls) : Option String :=
  given (match rec.pane with
    | some pane => some pane.id
    | none => (seen m).found.getLast?.join)

/-- The record or the backend rules the unit's session out. -/
def RuledOut (rec : AgentRecord) (m : Calls) : Prop :=
  rec.status.running = false ∨ ∃ pane mux list, sought rec m = some pane ∧
  (mux, list) ∈ (seen m).listed ∧ list ≠ [] ∧
    list.any (·.id = pane) = false

/-- What lets a rebind past its refusals. -/
def Rebinds (w : World) (rec : AgentRecord) (cur : CurrentPane) (m : Calls) : Prop :=
  rec.kind.hasRuntime = true ∧ (Bears w rec cur ∨ w.taken rec.id cur.pane = false ∧
    ((parting rec cur m).isSome = true → RuledOut rec m) ∧ ∀ ms ∈ (seen m).clocks, validTime ms)

/-- The pane index without the entry of one pane. -/
def World.unindexed (w : World) : Option String → Table String String
  | some pane => w.panes.erase (sanitizePane pane)
  | none => w.panes

/-- How a rebind ends. -/
inductive Rebinding (w : World) (ctx : Ctx) (ref : String) : Except HubError AgentRecord → World → Calls → Prop
  | refused {e : HubError} {m : Calls}
      (h : ∀ rec cur, w.named ref = some rec → storablePane ctx.env = some cur → ¬Rebinds w rec cur m) :
      Rebinding w ctx ref (.error e) w m
  | already {rec : AgentRecord} {cur : CurrentPane} {m : Calls} (hn : w.named ref = some rec)
      (hcur : storablePane ctx.env = some cur) (hr : Rebinds w rec cur m) (hbears : Bears w rec cur) :
      Rebinding w ctx ref (.ok rec) w m
  | bound {rec : AgentRecord} {cur : CurrentPane} {m : Calls} {ms : Int} (hn : w.named ref = some rec)
      (hcur : storablePane ctx.env = some cur) (hr : Rebinds w rec cur m) (hbears : ¬Bears w rec cur)
      (hsafe : safeId rec.id) :
      Rebinding w ctx ref (.ok (rec.bound { mux := cur.mux, id := cur.pane } ms))
        { w with agents := w.agents.put (rec.bound { mux := cur.mux, id := cur.pane } ms) hsafe
                 panes := (w.unindexed (parting rec cur m)).insert (sanitizePane cur.pane) rec.id } m

section
variable {α : Type} {w : World} {ctx : Ctx} {rec : AgentRecord} {ref : String} {cur : CurrentPane}

/-! ## What it asks -/

theorem traces_resolveAgent : Traces handle (resolveAgent ref) w fun r w' m => w' = w ∧ seen m = .none ∧ match r with
    | .ok rec => w.named ref = some rec
    | .error _ => w.named ref = none := by
  have hasks : Traces handle (resolveAgent ref) w fun _ _ m => Asking m := refuses_resolveAgent.traces
  cases hn : w.named ref with
  | some rec =>
    have hanswer := (resolveAgent_answers (Φ := fun _ _ => True) (fun _ _ _ => trivial) hn).traces
    refine (hanswer.and hasks).mono fun r w' m h => ?_
    obtain ⟨⟨rfl, rfl⟩, hm⟩ := h
    exact ⟨rfl, seen_asking hm, rfl⟩
  | none =>
    have hfail : wp handle (fun _ _ => True) (fun _ _ => True) (resolveAgent ref >>= pure)
        (fun r w' => w' = w ∧ ∃ e, r = .error e) w := by
      refine ends_named (fun rec hn' => ?_) fun e => ⟨rfl, e, rfl⟩
      rw [hn] at hn'
      cases hn'
    rw [bind_pure] at hfail
    refine ((traces_wp hfail).and hasks).mono fun r w' m h => ?_
    obtain ⟨⟨rfl, e, rfl⟩, hm⟩ := h
    exact ⟨rfl, seen_asking hm, rfl⟩

theorem traces_alreadyBound : Traces handle (alreadyBound rec cur) w fun r w' m =>
    w' = w ∧ seen m = .none ∧ ∃ b, r = .ok b ∧ (b = true ↔ Bears w rec cur) := by
  unfold alreadyBound Bears
  split
  · next h =>
    refine traces_call.mpr fun c a t hop => ?_
    cases hop
    refine traces_ret.mpr ⟨rfl, rfl, _, rfl, ?_⟩
    rw [decide_eq_true_iff]
    exact ⟨fun hres => ⟨h, hres⟩, And.right⟩
  · next h => exact traces_ret.mpr ⟨rfl, rfl, false, rfl, nofun, fun hb => absurd hb.1 h⟩

theorem traces_holderOf {pane : String} : Traces handle (holderOf rec pane) w fun r w' m =>
    w' = w ∧ seen m = .none ∧ ∃ holder, r = .ok holder ∧ holder.isSome = w.taken rec.id pane := by
  have hasks : (holderOf rec pane).Only (·.refuses = true) := by
    unfold holderOf
    refine ⟨rfl, fun held => ?_⟩
    simp only [Prog.bind]
    cases given held with
    | none => trivial
    | some holderId =>
      simp only
      split
      · trivial
      · exact ⟨rfl, fun _ => trivial⟩
  have hholder : ∃ holder, Answers handle (fun _ _ => True) (holderOf rec pane) w (.ok holder) ∧
      holder.isSome = w.taken rec.id pane := holderOf_answers fun _ _ _ => trivial
  obtain ⟨holder, hanswer, htaken⟩ := hholder
  refine (hanswer.traces.and hasks.traces).mono fun r w' m h => ?_
  obtain ⟨⟨rfl, rfl⟩, hm⟩ := h
  exact ⟨rfl, seen_asking hm, holder, rfl, htaken⟩

theorem Finds.sought_eq {pane : Option String} {m m' : Calls} (h : Finds rec pane m) (hm' : (seen m').found = []) :
    sought rec (m ++ m') = given pane := by
  unfold Finds at h
  unfold sought
  rw [seen_append, Seen.append, hm', List.append_nil]
  cases hq : rec.pane with
  | some q =>
    rw [hq] at h
    rw [h.1]
  | none =>
    rw [hq] at h
    simp only at h ⊢
    rw [h]
    rfl

theorem ruledOut_iff (hrunning : rec.status.running = true) {m : Calls} : RuledOut rec m ↔
    ∃ pane mux list, sought rec m = some pane ∧ (mux, list) ∈ (seen m).listed ∧ list ≠ [] ∧
      list.any (·.id = pane) = false := by
  rw [RuledOut, hrunning]
  simp

/-- The probe finds the session live or unknown unless the record or a list rules it out. -/
theorem traces_probeLiveness (hruntime : rec.kind.hasRuntime = true) : Traces handle (probeLiveness rec) w fun r w' m =>
    w' = w ∧ seen m = { Seen.none with found := (seen m).found, listed := (seen m).listed } ∧
      (rec.pane = none → rec.status.running = true → (seen m).found ≠ []) ∧
      ∃ liveness, r = .ok liveness ∧ ((liveness = .live ∨ liveness = .unknown) ↔ ¬RuledOut rec m) := by
  unfold probeLiveness
  rw [if_neg (not_not.mpr hruntime)]
  by_cases hstopped : rec.status = .stopped
  · rw [if_pos hstopped]
    have hrunning : rec.status.running = false := by rw [hstopped]; rfl
    refine traces_ret.mpr ⟨rfl, rfl, fun _ h => ?_, _, rfl, fun h => ?_, fun h => absurd (.inl hrunning) h⟩
    · rw [hrunning] at h
      cases h
    · rcases h with h | h <;> cases h
  by_cases hexited : rec.status = .exited
  · rw [if_neg hstopped, if_pos hexited]
    have hrunning : rec.status.running = false := by rw [hexited]; rfl
    refine traces_ret.mpr ⟨rfl, rfl, fun _ h => ?_, _, rfl, fun h => ?_, fun h => absurd (.inl hrunning) h⟩
    · rw [hrunning] at h
      cases h
    · rcases h with h | h <;> cases h
  rw [if_neg hstopped, if_neg hexited]
  have hrunning : rec.status.running = true := decide_eq_true ⟨hstopped, hexited⟩
  refine traces_runtimePane.seq (fun pane w' m h => ?_) fun e w' m h => ?_
  · obtain ⟨rfl, pane, hpane, hfinds⟩ := h
    cases hpane
    have hfound : rec.pane = none → (seen m).found ≠ [] := by
      intro hnone
      rw [Finds, hnone] at hfinds
      simp only at hfinds
      rw [hfinds]
      exact List.cons_ne_nil _ _
    -- nothing is listed: the session may still be there
    have hunknown : ∀ m' : Calls, seen m' = .none →
        seen (m ++ m') = { Seen.none with found := (seen (m ++ m')).found } ∧
        ((seen (m ++ m')).found = (seen m).found) ∧ ¬RuledOut rec (m ++ m') := by
      intro m' hm'
      have hseen : seen (m ++ m') = seen m := by rw [seen_append, hm', Seen.append_none]
      refine ⟨by rw [hseen]; exact hfinds.seen_eq, by rw [hseen], ?_⟩
      rw [ruledOut_iff hrunning, hseen, hfinds.seen_eq]
      rintro ⟨_, _, _, -, hlisted, -⟩
      cases hlisted
    dsimp only
    cases hg : given pane with
    | none =>
      obtain ⟨hseen, hsame, hout⟩ := hunknown [] rfl
      refine traces_ret.mpr ⟨rfl, ?_, fun hnone _ => ?_, _, rfl, fun _ => hout, fun _ => .inr rfl⟩
      · rw [hseen]
      · rw [hsame]
        exact hfound hnone
    | some key =>
      refine traces_paneAdapter.seq (fun adapter w₂ m' h => ?_) fun e w₂ m' h => ?_
      · obtain ⟨rfl, adapter, hadapter, hm'⟩ := h
        cases hadapter
        cases adapter with
        | none =>
          obtain ⟨hseen, hsame, hout⟩ := hunknown (m' ++ []) (by rw [List.append_nil, hm'])
          refine traces_ret.mpr ⟨rfl, ?_, fun hnone _ => ?_, _, rfl, fun _ => hout, fun _ => .inr rfl⟩
          · rw [hseen]
          · rw [hsame]
            exact hfound hnone
        | some mux =>
          refine traces_call.mpr fun c list t hop => ?_
          obtain rfl := handle_reads rfl hop
          obtain rfl : c.list = list := by
            simp only [handle] at hop
            split at hop
            · cases hop; rfl
            · cases hop
          have hseen : seen (m ++ (m' ++ [(.listPanes mux, c)])) =
              { Seen.none with found := (seen m).found, listed := [(mux, c.list)] } := by
            rw [seen_append, seen_append, hm', hfinds.seen_eq]
            simp [seen, seenOf, Seen.append, Seen.none]
          have hsought : sought rec (m ++ (m' ++ [(.listPanes mux, c)])) = some key := by
            rw [hfinds.sought_eq, hg]
            rw [seen_append, hm']
            rfl
          have hout : RuledOut rec (m ++ (m' ++ [(.listPanes mux, c)])) ↔
              c.list ≠ [] ∧ c.list.any (·.id = key) = false := by
            rw [ruledOut_iff hrunning, hsought, hseen]
            simp
          show Traces handle (if _ then _ else _) _ _
          by_cases hlist : c.list = []
          · rw [if_pos hlist]
            refine traces_ret.mpr ⟨rfl, by rw [hseen], fun hnone _ => ?_, _, rfl, fun _ => ?_, fun _ => .inr rfl⟩
            · rw [hseen]
              exact hfound hnone
            · rw [hout]
              exact fun h => h.1 hlist
          rw [if_neg hlist]
          by_cases hany : c.list.any (·.id = key) = true
          · rw [if_pos hany]
            refine traces_ret.mpr ⟨rfl, by rw [hseen], fun hnone _ => ?_, _, rfl, fun _ => ?_, fun _ => .inl rfl⟩
            · rw [hseen]
              exact hfound hnone
            · rw [hout, hany]
              rintro ⟨-, h⟩
              cases h
          · rw [if_neg hany]
            refine traces_ret.mpr ⟨rfl, by rw [hseen], fun hnone _ => ?_, _, rfl, fun h => ?_, fun h => ?_⟩
            · rw [hseen]
              exact hfound hnone
            · rcases h with h | h <;> cases h
            · rw [hout] at h
              exact absurd ⟨hlist, Bool.eq_false_iff.mpr hany⟩ h
      · obtain ⟨-, adapter, hadapter, -⟩ := h
        cases hadapter
  · obtain ⟨-, pane, hpane, -⟩ := h
    cases hpane

/-! ## The course of a rebind -/

theorem Finds.prepend {pane : Option String} {m m' : Calls} (h : Finds rec pane m') (hm : seen m = .none) :
    Finds rec pane (m ++ m') := by
  unfold Finds at h ⊢
  rw [seen_append, hm, Seen.none_append]
  exact h

theorem Finds.parting_eq {pane : Option String} {m m' : Calls} (h : Finds rec pane m) :
    parting rec cur (m ++ m') = (given pane).filter (· ≠ cur.pane) := by
  unfold Finds at h
  unfold parting leaving
  rw [seen_append, Seen.append]
  cases hq : rec.pane with
  | some q =>
    rw [hq] at h
    rw [h.1]
  | none =>
    rw [hq] at h
    simp only at h ⊢
    rw [h]
    rfl

theorem Finds.ruledOut_iff {pane : Option String} {m m' m'' : Calls} (h : Finds rec pane m)
    (hfound : (seen m').found = (seen m'').found) (hlisted : (seen m').listed = (seen m'').listed)
    (hasked : rec.pane = none → rec.status.running = true → (seen m'').found ≠ []) :
    RuledOut rec (m ++ m') ↔ RuledOut rec m'' := by
  have hlist : (seen (m ++ m')).listed = (seen m'').listed := by
    rw [seen_append, Seen.append, h.seen_eq, hlisted]
    rfl
  by_cases hrunning : rec.status.running = true
  · have hsought : sought rec (m ++ m') = sought rec m'' := by
      unfold sought
      cases hq : rec.pane with
      | some q => rfl
      | none =>
        simp only
        rw [seen_append, Seen.append, hfound, List.getLast?_append_of_ne_nil _ (hasked hq hrunning)]
    rw [RuledOut, RuledOut, hsought, hlist]
  · have hout : ∀ m : Calls, RuledOut rec m := fun m => .inl (Bool.eq_false_iff.mpr hrunning)
    exact iff_of_true (hout _) (hout _)

theorem traces_unindex {old : Option String} {f : Unit → HubM α} {Q : Except HubError α → World → Calls → Prop}
    (hok : ∀ m, seen m = .none → Traces handle (f ()) { w with panes := w.unindexed old }
      fun r w' m' => Q r w' (m ++ m')) :
    Traces handle (match old with | some pane => perform (.removePaneIndex pane) >>= f | none => f ()) w Q := by
  cases old with
  | none => exact hok [] rfl
  | some pane =>
    refine traces_call.mpr fun c a t hop => ?_
    cases hop
    exact hok [_] rfl

section
variable (hn : w.named ref = some rec) (hcur : storablePane ctx.env = some cur) (hruntime : rec.kind.hasRuntime = true)
  (hsafe : safeId rec.id)
include hn hcur

theorem rebinding_refused {e : HubError} {m : Calls} (h : ¬Rebinds w rec cur m) :
    Rebinding w ctx ref (.error e) w m := by
  refine .refused fun rec' cur' hn' hcur' => ?_
  rw [hn] at hn'
  rw [hcur] at hcur'
  cases hn'
  cases hcur'
  exact h

include hruntime hsafe

theorem traces_bindPane {m : Calls} {old : Option String} (hbears : ¬Bears w rec cur)
    (hfree : w.taken rec.id cur.pane = false) (hold : ∀ m', parting rec cur (m ++ m') = old)
    (hpass : old.isSome = true → ∀ m', (seen m').found = [] → (seen m').listed = [] → RuledOut rec (m ++ m'))
    (hclocks : (seen m).clocks = []) :
    Traces handle (bindPane rec cur old) w fun r w' m' => Rebinding w ctx ref r w' (m ++ m') := by
  unfold bindPane
  refine traces_nowIso.seq (fun ms w₁ m₁ h => ?_) fun e w₁ m₁ h => ?_
  · obtain ⟨rfl, c, rfl, rfl, hms⟩ := h
    refine traces_putAgent (rec.bound { mux := cur.mux, id := cur.pane } c.ms) hsafe fun c' => ?_
    refine traces_unindex fun m₂ hm₂ => ?_
    refine traces_call.mpr fun c'' a t hop => ?_
    cases hop
    have hseen : seen ([(.now, c)] ++ (.putAgent (rec.bound { mux := cur.mux, id := cur.pane } c.ms), c') ::
        (m₂ ++ [(.putPaneIndex cur.pane rec.id, c'')])) = { Seen.none with clocks := [c.ms] } := by
      rw [seen_append, seen.eq_def (_ :: (m₂ ++ _))]
      simp only
      rw [seen_append, hm₂]
      rfl
    have hr : Rebinds w₁ rec cur
        (m ++ ([(.now, c)] ++ (.putAgent (rec.bound { mux := cur.mux, id := cur.pane } c.ms), c') ::
        (m₂ ++ [(.putPaneIndex cur.pane rec.id, c'')]))) := by
      refine ⟨hruntime, .inr ⟨hfree, fun hsome => ?_, fun ms hclock => ?_⟩⟩
      · rw [hold] at hsome
        exact hpass hsome _ (by rw [hseen]; rfl) (by rw [hseen]; rfl)
      · rw [seen_append, Seen.append, hclocks, hseen] at hclock
        cases List.mem_singleton.mp hclock
        exact hms
    have hend : Rebinding w₁ ctx ref (.ok (rec.bound { mux := cur.mux, id := cur.pane } c.ms)) _ _ :=
      .bound hn hcur hr hbears hsafe
    rw [hold] at hend
    exact traces_ret.mpr hend
  · obtain ⟨rfl, c, rfl, hms⟩ := h
    refine rebinding_refused hn hcur fun hr => ?_
    rcases hr.2 with hr | ⟨-, -, hr⟩
    · exact hbears hr
    · refine hms (hr c.ms ?_)
      rw [seen_append]
      exact List.mem_append_right _ (List.mem_singleton_self _)

theorem traces_rebindTo {m : Calls} {pane : Option String} (hfinds : Finds rec pane m) :
    Traces handle (rebindTo rec cur ((given pane).filter (· ≠ cur.pane))) w fun r w' m' =>
      Rebinding w ctx ref r w' (m ++ m') := by
  unfold rebindTo
  refine traces_alreadyBound.seq (fun b w₁ m₁ h => ?_) fun e w₁ m₁ h => ?_
  · obtain ⟨rfl, hm₁, b, hb, hbears⟩ := h
    cases hb
    cases b with
    | true => exact traces_ret.mpr (.already hn hcur ⟨hruntime, .inl (hbears.mp rfl)⟩ (hbears.mp rfl))
    | false =>
      have hnot : ¬Bears w₁ rec cur := fun h => Bool.false_ne_true (hbears.mpr h)
      unfold assertUnheld
      show Traces handle ((holderOf rec cur.pane >>= _) >>= _) _ _
      rw [bind_assoc]
      refine traces_holderOf.seq (fun holder w₂ m₂ h => ?_) fun e w₂ m₂ h => ?_
      · obtain ⟨rfl, hm₂, holder, hholder, htaken⟩ := h
        cases hholder
        cases holder with
        | some holder =>
          refine traces_throw.mpr (rebinding_refused hn hcur fun hr => ?_)
          rcases hr.2 with hr | hr
          · exact hnot hr
          · rw [hr.1] at htaken
            cases htaken
        | none =>
          unfold assertNotRunning
          show Traces handle ((probeLiveness rec >>= _) >>= _) _ _
          rw [bind_assoc]
          refine (traces_probeLiveness hruntime).seq (fun liveness w₃ m₃ h => ?_) fun e w₃ m₃ h => ?_
          · obtain ⟨rfl, hm₃, hasked, liveness, hliveness, hout⟩ := h
            cases hliveness
            have hseen : ∀ m' : Calls, seen (m₁ ++ (m₂ ++ (m₃ ++ m'))) = (seen m₃).append (seen m') := by
              intro m'
              rw [seen_append, seen_append, seen_append, hm₁, hm₂]
              rfl
            have hruled : ∀ m' : Calls, (seen m').found = [] → (seen m').listed = [] →
                (RuledOut rec (m ++ (m₁ ++ (m₂ ++ (m₃ ++ m')))) ↔ RuledOut rec m₃) := by
              intro m' hfound hlisted
              refine hfinds.ruledOut_iff ?_ ?_ hasked
              · rw [hseen, Seen.append, hfound, List.append_nil]
              · rw [hseen, Seen.append, hlisted, List.append_nil]
            unfold refuse
            by_cases hlive : ((given pane).filter (· ≠ cur.pane)).isSome ∧ (liveness = .live ∨ liveness = .unknown)
            · rw [if_pos hlive]
              refine traces_throw.mpr (rebinding_refused hn hcur fun hr => ?_)
              rcases hr.2 with hr | ⟨-, hr, -⟩
              · exact hnot hr
              · rw [hfinds.parting_eq] at hr
                exact hout.mp hlive.2 ((hruled [] rfl rfl).mp (hr hlive.1))
            · rw [if_neg hlive]
              refine (traces_bindPane (m := m ++ (m₁ ++ (m₂ ++ m₃))) hn hcur hruntime hsafe hnot
                htaken.symm ?_ ?_ ?_).mono ?_
              · intro m'
                rw [List.append_assoc, hfinds.parting_eq]
              · intro hsome m' hfound hlisted
                have hgone : RuledOut rec m₃ := not_not.mp fun h => hlive ⟨hsome, hout.mpr h⟩
                simp only [List.append_assoc]
                exact (hruled m' hfound hlisted).mpr hgone
              · have hall := hseen []
                rw [List.append_nil] at hall
                rw [seen_append, hall, hfinds.seen_eq, hm₃]
                rfl
              · intro r w' m' h
                simp only [List.append_assoc] at h
                exact h
          · obtain ⟨-, -, -, liveness, hliveness, -⟩ := h
            cases hliveness
      · obtain ⟨-, -, holder, hholder, -⟩ := h
        cases hholder
  · obtain ⟨-, -, b, hb, -⟩ := h
    cases hb

end

theorem traces_rebind : Traces handle (rebindUnit ctx ref) w (Rebinding w ctx ref) := by
  unfold rebindUnit assertHasRuntime
  refine traces_resolveAgent.seq (fun rec w₁ m h => ?_) fun e w₁ m h => ?_
  · obtain ⟨rfl, hm, hn⟩ := h
    unfold refuse
    by_cases hruntime : ¬rec.kind.hasRuntime = true
    · rw [if_pos hruntime]
      exact traces_throw.mpr (.refused fun rec' cur' hn' _ hr => by
        rw [hn] at hn'
        cases hn'
        exact hruntime hr.1)
    rw [if_neg hruntime]
    rw [not_not] at hruntime
    cases hcur : storablePane ctx.env with
    | none =>
      refine traces_throw.mpr (.refused fun rec' cur' _ hcur' => ?_)
      rw [hcur] at hcur'
      cases hcur'
    | some cur =>
      refine traces_runtimePane.seq (fun pane w₂ m' h => ?_) fun e w₂ m' h => ?_
      · obtain ⟨rfl, pane, hpane, hfinds⟩ := h
        cases hpane
        have hsafe := w₂.agents.valid_of_get (named_mem hn)
        refine (traces_rebindTo hn hcur hruntime hsafe (hfinds.prepend hm)).mono fun r w' m'' h => ?_
        rw [List.append_assoc] at h
        exact h
      · obtain ⟨-, pane, hpane, -⟩ := h
        cases hpane
  · obtain ⟨rfl, -, hn⟩ := h
    refine .refused fun rec cur hn' => ?_
    rw [hn] at hn'
    cases hn'

end

end Cyberlegion
