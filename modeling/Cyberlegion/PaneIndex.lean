import Cyberlegion.VerbSpec

/-!
# The pane index

`putPaneIndex` files the agent under a pane's file name, which `sanitizePane` makes from
the pane's id; `findPaneByAgentId` answers that name. Where no other pane shares the
name, the index is the map it stands for.
-/

namespace Cyberlegion

open Effects Runs

/-! ## File names that are the pane's own -/

def plainChar (c : Char) : Bool := asciiAlnum c ∨ c = '-'

/-- Only letters, digits and `-`: a pane id that no other shares its file name with. -/
def plainPane (pane : String) : Bool := pane.toList.all plainChar

def sanitizeChars (l : List Char) : List Char :=
  l.flatMap fun c =>
    if asciiAlnum c ∨ c = '_' ∨ c = '-' then [c]
    else if c.toNat < 0x10000 then ['_'] else ['_', '_']

section
variable {pane q : String} {l : List Char} {c : Char}

theorem sanitize_toList : (sanitizePane pane).toList = sanitizeChars pane.toList := by
  rw [sanitizePane, String.toList_ofList, sanitizeChars]

theorem plain_ne_underscore (h : plainChar c) : c ≠ '_' := by
  rintro rfl
  revert h
  decide

theorem sanitizeChars_cons : sanitizeChars (c :: l) =
    (if asciiAlnum c ∨ c = '_' ∨ c = '-' then [c]
      else if c.toNat < 0x10000 then ['_'] else ['_', '_']) ++ sanitizeChars l := by
  rw [sanitizeChars, List.flatMap_cons]
  rfl

theorem sanitizeChars_plain (h : ∀ c ∈ sanitizeChars l, plainChar c) : sanitizeChars l = l := by
  induction l with
  | nil => rfl
  | cons c l ih =>
    rw [sanitizeChars_cons] at h ⊢
    have hrest := ih fun d hd => h d (List.mem_append_right _ hd)
    have hno : '_' ∉ (if asciiAlnum c ∨ c = '_' ∨ c = '-' then [c]
        else if c.toNat < 0x10000 then ['_'] else ['_', '_']) :=
      fun hmem => plain_ne_underscore (h _ (List.mem_append_left _ hmem)) rfl
    rw [hrest]
    by_cases hclean : asciiAlnum c ∨ c = '_' ∨ c = '-'
    · rw [if_pos hclean]
      rfl
    · rw [if_neg hclean] at hno
      split at hno
      · exact absurd (List.mem_singleton_self _) hno
      · exact absurd List.mem_cons_self hno

theorem sanitize_plain (h : plainPane (sanitizePane pane)) : sanitizePane pane = pane := by
  refine String.toList_inj.mp ?_
  unfold plainPane at h
  rw [List.all_eq_true] at h
  rw [sanitize_toList] at h ⊢
  exact sanitizeChars_plain h

theorem sanitize_of_plain (h : plainPane pane) : sanitizePane pane = pane := by
  refine String.toList_inj.mp ?_
  unfold plainPane at h
  rw [List.all_eq_true] at h
  rw [sanitize_toList]
  generalize pane.toList = l at h
  induction l with
  | nil => rfl
  | cons c l ih =>
    rw [sanitizeChars_cons, ih fun d hd => h d (List.mem_cons_of_mem c hd)]
    rw [if_pos (by
      rcases of_decide_eq_true (h c List.mem_cons_self) with halnum | hdash
      · exact .inl halnum
      · exact .inr (.inr hdash))]
    rfl

theorem plain_alias (h : plainPane pane) (hq : sanitizePane q = pane) : q = pane := by
  rw [← hq] at h
  exact (sanitize_plain h).symm.trans hq

theorem exists_alias (h : ¬plainPane pane) : ∃ q, q ≠ pane ∧ sanitizePane q = sanitizePane pane := by
  by_cases hclean : sanitizePane pane = pane
  · -- a clean id that is not plain has a `_`, where another id may have a `%`
    refine ⟨String.ofList (pane.toList.map fun c => if c = '_' then '%' else c), fun heq => h ?_, ?_⟩
    · have hmap : pane.toList.map (fun c => if c = '_' then '%' else c) = pane.toList.map id := by
        rw [List.map_id, ← String.toList_ofList (l := pane.toList.map _), heq]
      rw [plainPane, List.all_eq_true]
      intro c hc
      have hself : (if c = '_' then '%' else c) = c := List.map_inj_left.mp hmap c hc
      rw [← hclean] at hc
      rcases sanitizePane_clean hc with halnum | rfl | hdash
      · exact decide_eq_true (.inl halnum)
      · cases hself
      · exact decide_eq_true (.inr hdash)
    · refine String.toList_inj.mp ?_
      rw [sanitize_toList, sanitize_toList, String.toList_ofList]
      generalize pane.toList = l
      induction l with
      | nil => rfl
      | cons c l ih =>
        rw [List.map_cons, sanitizeChars_cons, sanitizeChars_cons, ih]
        by_cases hc : c = '_'
        · rw [if_pos hc, hc]
          rfl
        · rw [if_neg hc]
  · exact ⟨sanitizePane pane, hclean, sanitize_sanitize pane⟩

end

/-! ## The index and the map it stands for -/

inductive IndexOp
  | put (pane agentId : String)
  | remove (pane : String)

def IndexOp.call : IndexOp → Call
  | .put pane agentId => .putPaneIndex pane agentId
  | .remove pane => .removePaneIndex pane

/-- The agent last bound to each pane and not since removed. -/
def IndexOp.bind (bound : String → Option String) : IndexOp → String → Option String
  | .put pane agentId => Function.update bound pane (some agentId)
  | .remove pane => Function.update bound pane none

/-- The hub beside the map that its pane index stands for. -/
abbrev Indexed := World × (String → Option String)

def indexStep (s : Indexed) (op : IndexOp) : Option Indexed :=
  (handle op.call {} s.1).map fun p => (p.2, op.bind s.2)

/-- The index answers as the map does, both ways. -/
structure FaithfulIndex (s : Indexed) : Prop where
  resolves : ∀ pane, s.1.resolvePaneId pane = s.2 pane
  finds : ∀ id c key w', handle (.findPaneByAgentId id) c s.1 = some (some key, w') → s.2 key = some id

/-- The pane's file name is its own, and the file's text is the agent's id as it is. -/
def IndexOp.direct : IndexOp → Bool
  | .put pane agentId => plainPane pane ∧ jsTrim agentId = agentId
  | .remove _ => true

/-- Every entry of the index was put under its own name. -/
structure Direct (s : Indexed) : Prop where
  plain : ∀ key, s.1.panes.lookup key ≠ none → plainPane key
  resolves : ∀ pane, s.1.resolvePaneId pane = s.2 pane

section
variable {s t : Indexed} {op : IndexOp} {pane q agentId : String}

theorem indexStep_put (h : indexStep s (.put pane agentId) = some t) :
    (∀ key, t.1.panes.lookup key = if key = sanitizePane pane then some agentId else s.1.panes.lookup key) ∧
      (∀ q, t.1.resolvePaneId q = if sanitizePane q = sanitizePane pane then some (jsTrim agentId)
        else s.1.resolvePaneId q) ∧
      ∀ q, t.2 q = if q = pane then some agentId else s.2 q := by
  cases h
  exact ⟨fun key => Table.lookup_insert_eq .., fun q => resolve_insert, fun q => Function.update_apply ..⟩

theorem indexStep_remove (h : indexStep s (.remove pane) = some t) :
    (∀ key, t.1.panes.lookup key = if key = sanitizePane pane then none else s.1.panes.lookup key) ∧
      (∀ q, t.1.resolvePaneId q = if sanitizePane q = sanitizePane pane then none else s.1.resolvePaneId q) ∧
      ∀ q, t.2 q = if q = pane then none else s.2 q := by
  cases h
  exact ⟨fun key => Table.lookup_erase_eq .., fun q => resolve_erase, fun q => Function.update_apply ..⟩

theorem plain_inj (h : plainPane (sanitizePane q)) (hname : sanitizePane q = sanitizePane pane) : q = pane := by
  have hpane : plainPane (sanitizePane pane) := by rw [← hname]; exact h
  rw [← sanitize_plain h, hname, sanitize_plain hpane]

theorem Direct.unbound (h : Direct s) (hq : ¬plainPane (sanitizePane q)) : s.2 q = none := by
  have hlookup : s.1.panes.lookup (sanitizePane q) = none := by_contra fun hne => hq (h.plain _ hne)
  rw [← h.resolves, World.resolvePaneId, World.paneText, hlookup]
  rfl

theorem Direct.faithful (h : Direct s) : FaithfulIndex s := by
  refine ⟨h.resolves, fun id c key w' hr => ?_⟩
  have hkey : s.1.paneText key = some id := by
    simp only [handle] at hr
    split at hr
    · split at hr
      · next htext => cases hr; exact htext
      · cases hr
    · split at hr <;> cases hr
  have hplain : plainPane key := by
    refine h.plain key fun hnone => ?_
    rw [World.paneText, hnone] at hkey
    cases hkey
  rw [← h.resolves, World.resolvePaneId, sanitize_of_plain hplain]
  exact hkey

theorem direct_step (h : Direct s) (hop : op.direct = true) (hstep : indexStep s op = some t) : Direct t := by
  cases op with
  | put pane agentId =>
    obtain ⟨hplain, htrim⟩ := of_decide_eq_true hop
    obtain ⟨hlookup, hresolve, hbound⟩ := indexStep_put hstep
    have hself := sanitize_of_plain hplain
    refine ⟨fun key hkey => ?_, fun q => ?_⟩
    · rw [hlookup] at hkey
      by_cases hk : key = sanitizePane pane
      · rw [hk, hself]
        exact hplain
      · rw [if_neg hk] at hkey
        exact h.plain key hkey
    · rw [hresolve, hbound, hself, htrim]
      by_cases hq : q = pane
      · rw [if_pos hq, if_pos (by rw [hq, hself])]
      · rw [if_neg hq, if_neg fun heq => hq (plain_alias hplain heq)]
        exact h.resolves q
  | remove pane =>
    obtain ⟨hlookup, hresolve, hbound⟩ := indexStep_remove hstep
    refine ⟨fun key hkey => ?_, fun q => ?_⟩
    · rw [hlookup] at hkey
      split at hkey
      · exact absurd rfl hkey
      · exact h.plain key hkey
    · rw [hresolve, hbound]
      by_cases hq : q = pane
      · rw [if_pos hq, if_pos (by rw [hq])]
      · rw [if_neg hq]
        split
        · next hname => exact (h.unbound fun hplain => hq (plain_inj hplain hname)).symm
        · exact h.resolves q

theorem direct_of_faithful (h : Direct s) (hstep : indexStep s op = some t) (ht : FaithfulIndex t) :
    op.direct = true := by
  cases op with
  | remove pane => rfl
  | put pane agentId =>
    obtain ⟨-, hresolve, hbound⟩ := indexStep_put hstep
    refine decide_eq_true ⟨by_contra fun hplain => ?_, ?_⟩
    · obtain ⟨q, hq, hname⟩ := exists_alias hplain
      have hshown := ht.resolves q
      rw [hresolve, hbound, if_pos hname, if_neg hq, h.unbound fun hplain => hq (plain_inj hplain hname)] at hshown
      cases hshown
    · have hshown := ht.resolves pane
      rw [hresolve, hbound, if_pos rfl, if_pos rfl] at hshown
      exact Option.some.inj hshown

end

theorem exec_direct {s t : Indexed} {ops : List IndexOp} (hs : Direct s) (h : ∀ op ∈ ops, op.direct = true)
    (ht : exec indexStep s ops = some t) : Direct t := by
  induction ops generalizing s with
  | nil => cases ht; exact hs
  | cons op ops ih =>
    obtain ⟨u, hstep, ht⟩ := (exec_cons_eq_some indexStep).mp ht
    exact ih (direct_step hs (h op List.mem_cons_self) hstep) (fun op' hop' => h op' (List.mem_cons_of_mem _ hop')) ht

theorem direct_new : Direct ({}, fun _ => none) := ⟨fun _ hkey => absurd rfl hkey, fun _ => rfl⟩

/-- The index is the map it stands for in every state of a run exactly when every put of
the run binds a pane id of letters, digits and `-` to an agent id that `trim` keeps. -/
theorem pane_index_iff (ops : List IndexOp) :
    (∀ before s, before <+: ops → exec indexStep (({}, fun _ => none) : Indexed) before = some s → FaithfulIndex s) ↔
      ∀ op ∈ ops, op.direct = true := by
  constructor
  · have hall : ∀ (ops : List IndexOp) (s : Indexed), Direct s →
        (∀ before t, before <+: ops → exec indexStep s before = some t → FaithfulIndex t) →
        ∀ op ∈ ops, op.direct = true := by
      intro ops
      induction ops with
      | nil => intro s _ _ op hop; cases hop
      | cons op ops ih =>
        intro s hs h
        obtain ⟨t, hstep⟩ : ∃ t, indexStep s op = some t := by
          cases op <;> exact ⟨_, rfl⟩
        have hfirst : op.direct = true := by
          refine direct_of_faithful hs hstep (h [op] t ?_ ?_)
          · exact List.cons_prefix_cons.mpr ⟨rfl, List.nil_prefix⟩
          · exact (exec_cons_eq_some indexStep).mpr ⟨t, hstep, rfl⟩
        intro op' hop'
        rcases List.mem_cons.mp hop' with rfl | hop'
        · exact hfirst
        · refine ih t (direct_step hs hfirst hstep) (fun before u hbefore hu => ?_) op' hop'
          refine h (op :: before) u (List.cons_prefix_cons.mpr ⟨rfl, hbefore⟩) ?_
          exact (exec_cons_eq_some indexStep).mpr ⟨t, hstep, hu⟩
    exact hall ops _ direct_new
  · intro h before s hbefore hs
    have hdirect : ∀ op ∈ before, op.direct = true := fun op hop => h op (hbefore.subset hop)
    exact (exec_direct direct_new hdirect hs).faithful

/-- The reverse lookup of a tmux pane answers its file name, which is no pane of anybody's. -/
theorem pane_index_renames : ∃ s, exec indexStep (({}, fun _ => none) : Indexed) [.put "%1" "a1"] = some s ∧
    ¬FaithfulIndex s := by
  refine ⟨_, rfl, fun h => ?_⟩
  have hfound := h.finds "a1" { text := some "_1" } "_1" _ (by rfl)
  exact absurd hfound (by decide)

end Cyberlegion
