import Cyberlegion.HookLists

/-!
# One hook generation

What `install` leaves of its own entries in a settings file, and what a second install
changes.
-/

namespace Cyberlegion.Init

open Json

/-- The pairs of a canonical event and its key that an install looks at. -/
def watched (spec : VendorSpec) : List (String × String) :=
  spec.events ++ if spec.pluginHook then RETIRED_EVENTS.map fun event => (event, event) else []

def InitWritten (event : String) (h : Json) : Prop := ∃ command, commandOf h = some command ∧ Written event command

def Sole (p : Json → Prop) (l : List Json) (h : Json) : Prop :=
  ∃ front back, l = front ++ h :: back ∧ p h ∧ ∀ y ∈ front ++ back, ¬p y

def AtMostOne (p : Json → Prop) (l : List Json) : Prop := l.Pairwise fun x y => ¬(p x ∧ p y)

/-- One entry for each event where the vendor needs a project hook, none where the plugin ships it. -/
def Converged (spec : VendorSpec) (pin : Option String) (settings : Json) : Prop :=
  if spec.pluginHook then ∀ e ∈ watched spec, ∀ h ∈ entriesAt spec.shape settings e.2, ¬InitWritten e.1 h
  else ∀ e ∈ spec.events, ∃ h, Sole (InitWritten e.1) (entriesAt spec.shape settings e.2) h ∧
    commandOf h = some (hookCommand e.1 pin)

/-- Every command of the file that `install` takes for its own is one that init has written. -/
def Recognised (spec : VendorSpec) (settings : Json) : Prop :=
  ∀ e ∈ watched spec, ∀ h ∈ entriesAt spec.shape settings e.2, ∀ command, commandOf h = some command →
    hookTarget command = some e.1 → Written e.1 command

def Converges (stringify : Json → String) (harness : Harness) (dir : String) (pin : Option String) (text : String)
    (settings : Json) : Prop :=
  ∃ results file, install stringify harness dir pin (some ⟨text, some settings⟩) = (.ok results, file) ∧
    Converged (VENDORS harness) pin (readJson file) ∧ Recognised (VENDORS harness) settings ∧
    ∃ results' file', install stringify harness dir pin file = (.ok results', file') ∧ readJson file' = readJson file

/-- Every command of the file that is of a generation's form has a version or a dist tag for its pin. -/
def Pinned (spec : VendorSpec) (settings : Json) : Prop :=
  ∀ e ∈ watched spec, ∀ h ∈ entriesAt spec.shape settings e.2, ∀ command, commandOf h = some command →
    Shaped e.1 command → Written e.1 command

/-- No entry without a command comes before the first one with the property. -/
def CommandsFirst (p : Json → Prop) (l : List Json) : Prop :=
  ∀ front x back, l = front ++ x :: back → (∀ y ∈ front, ¬p y) → commandOf x ≠ none

/-- What an upsert asks of settings whose hooks are of its event: one entry of init's at most,
before every entry without a command, and a version that is written as it is. -/
def Upsertable (settings : Json) : Prop :=
  AtMostOne (InitWritten "SessionStart") (entriesAt .cursor settings "sessionStart") ∧
    CommandsFirst (InitWritten "SessionStart") (entriesAt .cursor settings "sessionStart") ∧ FiniteVersion settings

section
variable {stringify : Json → String} {harness : Harness} {dir text canonical : String}
  {pin : Option String} {settings : Json}
  {file : Option Content} {p : Json → Prop} {l : List Json} {h : Json} {spec : VendorSpec}

theorem word_of_watched : ∀ e ∈ watched (VENDORS harness), Word e.1 := by cases harness <;> decide

theorem ours_of_initWritten (hword : Word canonical) (hh : InitWritten canonical h) : ours canonical h = true := by
  obtain ⟨command, hcommand, hwritten⟩ := hh
  exact ours_of_command hcommand (hookTarget_eq_some.mpr ⟨hword, shaped_of_written hwritten⟩)

theorem recognised_iff : Recognised (VENDORS harness) settings ↔ Pinned (VENDORS harness) settings := by
  constructor
  · intro hr e he h hh command hcommand hshaped
    exact hr e he h hh command hcommand (hookTarget_eq_some.mpr ⟨word_of_watched e he, hshaped⟩)
  · intro hp e he h hh command hcommand htarget
    exact hp e he h hh command hcommand (hookTarget_eq_some.mp htarget).2

theorem validatePin_ok (hpin : ∀ p ∈ pin, PIN_TOKEN p = true) : pin.forM validatePin = .ok () := by
  cases pin with
  | none => rfl
  | some p =>
    show validatePin p = .ok ()
    rw [validatePin, if_pos (hpin p rfl)]
    rfl

theorem install_run (stringify : Json → String) (dir : String) (file : Option Content)
    (hpin : ∀ p ∈ pin, PIN_TOKEN p = true) {results : List (String × String × InstallStatus)} {changed : Bool}
    {settings' : Json}
    (hrun : installSettings (VENDORS harness) pin (readJson file) = .ok (results, changed, settings')) :
    ∃ results', install stringify harness dir pin file =
      (.ok results', if changed = true then some (writeJson stringify settings') else file) := by
  rw [install]
  simp only [validatePin_ok hpin, hrun, bind, Except.bind]
  exact ⟨_, rfl⟩

theorem install_throws (stringify : Json → String) (dir : String) (file : Option Content)
    (hpin : ∀ p ∈ pin, PIN_TOKEN p = true) {e : InitError}
    (hrun : installSettings (VENDORS harness) pin (readJson file) = .error e) :
    install stringify harness dir pin file = (.error e, file) := by
  rw [install]
  simp only [validatePin_ok hpin, hrun, bind, Except.bind]

/-! ### A vendor whose plugin ships the hook -/

theorem installSettings_removes (pin : Option String) (hh : harness ≠ .cursor) {first second : Bool} {s₁ s₂ : Json}
    (hfirst : remove (VENDORS harness).shape settings "SessionStart" "SessionStart" = .ok (first, s₁))
    (hsecond : remove (VENDORS harness).shape s₁ "PostToolUse" "PostToolUse" = .ok (second, s₂)) :
    ∃ results, installSettings (VENDORS harness) pin settings = .ok (results, first || second, s₂) := by
  have hplugin : (VENDORS harness).pluginHook = true ∧
      (VENDORS harness).events = [("SessionStart", "SessionStart")] := by
    cases harness with
    | cursor => exact absurd rfl hh
    | claude | codex => exact ⟨rfl, rfl⟩
  refine ⟨("SessionStart", "SessionStart", if first then .removedProjectHook else .providedByPlugin) ::
    if second then [("PostToolUse", "PostToolUse", .removedProjectHook)] else [], ?_⟩
  rw [installSettings, hplugin.1, hplugin.2]
  simp [installEvents, removeRetired, RETIRED_EVENTS, hplugin.1, hfirst, hsecond, bind, Except.bind, pure, Except.pure]

theorem installSettings_plugin (pin : Option String) (hh : harness ≠ .cursor)
    (hs : HookLists (VENDORS harness).shape ["SessionStart", "PostToolUse"] settings) :
    ∃ results changed settings', installSettings (VENDORS harness) pin settings = .ok (results, changed, settings') ∧
      (∀ event ∈ ["SessionStart", "PostToolUse"], listIn (hookMembers settings') event =
        leftOf event (VENDORS harness).shape (listIn (hookMembers settings) event)) ∧
      HookLists (VENDORS harness).shape ["SessionStart", "PostToolUse"] settings' ∧
      (KeyedSettings settings → KeyedSettings settings') ∧ (changed = false → settings' = settings) ∧
      ((∀ event ∈ ["SessionStart", "PostToolUse"],
        (entriesAt (VENDORS harness).shape settings event).any (ours event) = false) → changed = false) := by
  obtain ⟨s₁, hremove₁, hkept₁, hother₁, hs₁, hkeyed₁, hsame₁⟩ :=
    remove_spec "SessionStart" "SessionStart" hs (by decide)
  obtain ⟨s₂, hremove₂, hkept₂, hother₂, hs₂, hkeyed₂, hsame₂⟩ :=
    remove_spec "PostToolUse" "PostToolUse" hs₁ (by decide)
  obtain ⟨results, hrun⟩ := installSettings_removes pin hh hremove₁ hremove₂
  refine ⟨results, _, s₂, hrun, ?_, hs₂, fun hk => hkeyed₂ (hkeyed₁ hk), ?_, ?_⟩
  · intro event he
    simp only [List.mem_cons, List.not_mem_nil, or_false] at he
    rcases he with rfl | rfl
    · rw [hother₂ _ (by decide), hkept₁]
    · rw [hkept₂, hother₁ _ (by decide)]
  · intro hnone
    rw [Bool.or_eq_false_iff] at hnone
    rw [hsame₂ hnone.2, hsame₁ hnone.1]
  · intro hnone
    have hfirst := hnone "SessionStart" (by decide)
    rw [hfirst, hsame₁ hfirst, hnone "PostToolUse" (by decide)]
    rfl

theorem plugin_converges_iff (hh : harness ≠ .cursor) (hpin : ∀ p ∈ pin, PIN_TOKEN p = true)
    (hs : HookLists (VENDORS harness).shape ["SessionStart", "PostToolUse"] settings) :
    Converges stringify harness dir pin text settings ↔ Pinned (VENDORS harness) settings := by
  have hplugin : (VENDORS harness).pluginHook = true ∧
      watched (VENDORS harness) = [("SessionStart", "SessionStart"), ("PostToolUse", "PostToolUse")] := by
    cases harness with
    | cursor => exact absurd rfl hh
    | claude | codex => exact ⟨rfl, rfl⟩
  rw [← recognised_iff]
  constructor
  · rintro ⟨results, file, -, -, hrecognised, -⟩
    exact hrecognised
  · intro hrecognised
    obtain ⟨results, changed, settings', hrun, hkept, hs', -, hsame, -⟩ := installSettings_plugin pin hh hs
    obtain ⟨shown, hinstall⟩ := install_run stringify dir (some ⟨text, some settings⟩) hpin hrun
    have hleft : ∀ event ∈ ["SessionStart", "PostToolUse"],
        (entriesAt (VENDORS harness).shape settings' event).any (ours event) = false := by
      intro event he
      rw [entriesAt, hkept event he, entriesOf_leftOf (listed_elements hs he), List.any_eq_false]
      intro h hmem
      simpa using (List.mem_filter.mp hmem).2
    obtain ⟨read, hread, hs', hclean⟩ : ∃ read,
        readJson (if changed = true then some (writeJson stringify settings') else some ⟨text, some settings⟩) = read ∧
        HookLists (VENDORS harness).shape ["SessionStart", "PostToolUse"] read ∧
        ∀ event ∈ ["SessionStart", "PostToolUse"],
          (entriesAt (VENDORS harness).shape read event).any (ours event) = false := by
      cases changed with
      | true =>
        refine ⟨settings'.reparsed, rfl, hookLists_reparsed hs', fun event he => ?_⟩
        rw [entriesAt_reparsed, List.any_map]
        exact (congrArg _ (funext (ours_reparsed event))).trans (hleft event he)
      | false => exact ⟨settings, rfl, hs, fun event he => hsame rfl ▸ hleft event he⟩
    obtain ⟨results₂, changed₂, settings₂, hrun₂, -, -, -, hsame₂, hnone₂⟩ :=
      installSettings_plugin pin hh hs'
    have hagain := hnone₂ hclean
    obtain ⟨shown₂, hinstall₂⟩ := install_run stringify dir
      (if changed = true then some (writeJson stringify settings') else some ⟨text, some settings⟩) hpin
      (by rw [hread]; exact hrun₂)
    refine ⟨shown, _, hinstall, ?_, hrecognised, shown₂, _, hinstall₂, ?_⟩
    · rw [Converged, if_pos hplugin.1, hplugin.2, hread]
      have hgone : ∀ event ∈ ["SessionStart", "PostToolUse"],
          ∀ h ∈ entriesAt (VENDORS harness).shape read event, ¬InitWritten event h := by
        intro event he h hmem hwritten
        have hword : ∀ event ∈ ["SessionStart", "PostToolUse"], Word event := by decide
        have hword := hword event he
        exact (List.any_eq_false.mp (hclean event he) h hmem) (ours_of_initWritten hword hwritten)
      intro e he
      simp only [List.mem_cons, List.not_mem_nil, or_false] at he
      rcases he with rfl | rfl
      · exact hgone _ (by decide)
      · exact hgone _ (by decide)
    · rw [hagain, if_neg Bool.false_ne_true]

/-! ### A vendor that needs a project hook -/

theorem atMostOne_of_none (hl : ∀ y ∈ l, ¬p y) : AtMostOne p l := by
  apply List.pairwise_of_forall_mem_list
  intro x hx y _ hboth
  exact hl x hx hboth.1

theorem atMostOne_of_sole (hsole : Sole p l h) : AtMostOne p l := by
  obtain ⟨front, back, rfl, -, hothers⟩ := hsole
  have hfront : ∀ y ∈ front, ¬p y := fun y hy => hothers y (List.mem_append_left _ hy)
  have hback : ∀ y ∈ back, ¬p y := fun y hy => hothers y (List.mem_append_right _ hy)
  rw [AtMostOne, List.pairwise_append, List.pairwise_cons]
  refine ⟨atMostOne_of_none hfront, ⟨fun y hy hboth => hback y hy hboth.2, atMostOne_of_none hback⟩, ?_⟩
  intro x hx y hy hboth
  exact hfront x hx hboth.1

theorem sole_of_atMostOne {front back : List Json} (hone : AtMostOne p (front ++ h :: back)) (hh : p h) :
    ∀ y ∈ front ++ back, ¬p y := by
  rw [AtMostOne, List.pairwise_append, List.pairwise_cons] at hone
  intro y hy hpy
  rcases List.mem_append.mp hy with hy | hy
  · exact hone.2.2 y hy h List.mem_cons_self ⟨hpy, hh⟩
  · exact hone.2.1.1 y hy ⟨hh, hpy⟩

theorem sole_append {front back : List Json} (hothers : ∀ y ∈ front ++ back, ¬p y) (hh : p h) :
    Sole p (front ++ h :: back) h := ⟨front, back, rfl, hh, hothers⟩

theorem sole_upserted_iff {command : String} (hl : ∀ h ∈ l, Entry h) (hword : Word canonical)
    (hwritten : Written canonical command) (hours : ∀ h ∈ l, ours canonical h = true → InitWritten canonical h) :
    (∃ h, Sole (InitWritten canonical) (upserted canonical command l) h ∧ commandOf h = some command) ↔
      AtMostOne (InitWritten canonical) l := by
  rw [upserted]
  cases hfirst : rewriteFirst canonical command l with
  | none =>
    have hnone : ∀ h ∈ l, ¬InitWritten canonical h := by
      intro h hh hinit
      have hnot := rewriteFirst_none.mp hfirst h hh
      rw [ours_of_initWritten hword hinit] at hnot
      cases hnot
    constructor
    · intro _
      exact atMostOne_of_none hnone
    · intro _
      refine ⟨_, sole_append (h := .obj [("command", .str command)]) ?_ ⟨command, rfl, hwritten⟩, rfl⟩
      rw [List.append_nil]
      exact hnone
  | some l' =>
    obtain ⟨front, x, back, rfl, -, hx, rfl⟩ := rewriteFirst_some hfirst
    have hmem : x ∈ front ++ x :: back := List.mem_append_right _ List.mem_cons_self
    have hset : InitWritten canonical (setCommand command x) := ⟨command, commandOf_setCommand (hl x hmem), hwritten⟩
    constructor
    · rintro ⟨h, hsole, -⟩
      exact atMostOne_of_sole (sole_append (sole_of_atMostOne (atMostOne_of_sole hsole) hset) (hours x hmem hx))
    · intro hone
      exact ⟨_, sole_append (sole_of_atMostOne hone (hours x hmem hx)) hset, commandOf_setCommand (hl x hmem)⟩

theorem hookTarget_hookCommand (hpin : ∀ p ∈ pin, PIN_TOKEN p = true) :
    hookTarget (hookCommand "SessionStart" pin) = some "SessionStart" :=
  hookTarget_eq_some.mpr ⟨by decide, shaped_of_written (written_hookCommand hpin)⟩

theorem installSettings_cursor {m : List (String × Json)} (hpin : ∀ p ∈ pin, PIN_TOKEN p = true)
    (hs : HookLists .cursor ["sessionStart"] (.obj m)) :
    (Searchable "SessionStart" (entriesAt .cursor (.obj m) "sessionStart") → ∃ results,
      installSettings (VENDORS .cursor) pin (.obj m) = .ok (results, true, withList m "sessionStart"
        (upserted "SessionStart" (hookCommand "SessionStart" pin) (entriesAt .cursor (.obj m) "sessionStart")))) ∧
    (¬Searchable "SessionStart" (entriesAt .cursor (.obj m) "sessionStart") →
      installSettings (VENDORS .cursor) pin (.obj m) = .error .typeError) := by
  obtain ⟨hfound, hthrown⟩ := upsertCursor_eq "sessionStart" hs (by decide) (hookTarget_hookCommand hpin)
  constructor
  · intro hsearch
    obtain ⟨status, hupsert⟩ := hfound hsearch
    refine ⟨[("SessionStart", "sessionStart", status)], ?_⟩
    simp [installSettings, VENDORS, installEvents, upsert, hupsert, entriesAt, entriesOf, bind,
      Except.bind, pure, Except.pure]
  · intro hsearch
    have hupsert := hthrown hsearch
    simp [installSettings, VENDORS, installEvents, upsert, hupsert, bind, Except.bind]

theorem initWritten_reparsed : InitWritten canonical h.reparsed ↔ InitWritten canonical h := by
  rw [InitWritten, InitWritten, commandOf_reparsed]

theorem atMostOne_reparsed :
    AtMostOne (InitWritten canonical) (l.map reparsed) ↔ AtMostOne (InitWritten canonical) l := by
  rw [AtMostOne, AtMostOne, List.pairwise_map]
  simp only [initWritten_reparsed]

theorem searchable_iff (hours : ∀ h ∈ l, ours canonical h = true ↔ p h) :
    Searchable canonical l ↔ CommandsFirst p l := by
  have hfront : ∀ {front x back}, l = front ++ x :: back →
      ((∀ y ∈ front, ours canonical y = false) ↔ ∀ y ∈ front, ¬p y) := by
    rintro front x back rfl
    refine forall₂_congr fun y hy => ?_
    rw [← hours y (List.mem_append_left _ hy), Bool.not_eq_true]
  exact forall₄_congr fun front x back hl => imp_congr_left (hfront hl)

theorem cursor_converges_iff (hpin : ∀ p ∈ pin, PIN_TOKEN p = true) (hs : HookLists .cursor ["sessionStart"] settings) :
    Converges stringify .cursor dir pin text settings ↔ Pinned (VENDORS .cursor) settings ∧ Upsertable settings := by
  have hword : Word "SessionStart" := by decide
  have hwritten : Written "SessionStart" (hookCommand "SessionStart" pin) := written_hookCommand hpin
  have htarget := hookTarget_hookCommand hpin
  have hl : ∀ h ∈ entriesAt .cursor settings "sessionStart", Entry h := listed_elements hs (by decide)
  have hours : Recognised (VENDORS .cursor) settings → ∀ h ∈ entriesAt .cursor settings "sessionStart",
      (ours "SessionStart" h = true ↔ InitWritten "SessionStart" h) := by
    intro hr h hh
    refine ⟨fun ho => ?_, ours_of_initWritten hword⟩
    obtain ⟨command, hcommand, ht⟩ := ours_iff.mp ho
    exact ⟨command, hcommand, hr _ List.mem_cons_self h hh command hcommand ht⟩
  obtain ⟨m, rfl, hhooks, hlists⟩ := hs
  have hs : HookLists .cursor ["sessionStart"] (.obj m) := ⟨m, rfl, hhooks, hlists⟩
  rw [← recognised_iff, Upsertable]
  by_cases hsearch : Searchable "SessionStart" (entriesAt .cursor (.obj m) "sessionStart")
  · obtain ⟨results, hrun⟩ := (installSettings_cursor hpin hs).1 hsearch
    obtain ⟨shown, hinstall⟩ := install_run stringify dir (some ⟨text, some (.obj m)⟩) hpin hrun
    rw [if_pos rfl] at hinstall
    -- what the second install reads
    obtain ⟨m', hm'⟩ : ∃ m', (withList m "sessionStart" (upserted "SessionStart" (hookCommand "SessionStart" pin)
        (entriesAt .cursor (.obj m) "sessionStart"))).reparsed = .obj m' := ⟨_, reparsed_obj _⟩
    have hentries : entriesAt .cursor (.obj m') "sessionStart" =
        upserted "SessionStart" (hookCommand "SessionStart" pin)
        ((entriesAt .cursor (.obj m) "sessionStart").map reparsed) := by
      rw [← hm', entriesAt_reparsed, ← upserted_reparsed, entriesAt, listIn_withList]
      rfl
    have hl' : ∀ h ∈ (entriesAt .cursor (.obj m) "sessionStart").map reparsed, Entry h :=
      List.forall_mem_map.mpr fun h hh => entry_reparsed (hl h hh)
    have hs' : HookLists .cursor ["sessionStart"] (.obj m') :=
      hm' ▸ hookLists_reparsed (hookLists_withList hs (upserted_entry _ _ hl))
    obtain ⟨results₂, hrun₂⟩ := (installSettings_cursor hpin hs').1
      (hentries ▸ searchable_upserted hl' htarget (searchable_reparsed hsearch))
    rw [hentries, upserted_upserted hl' htarget] at hrun₂
    obtain ⟨shown₂, hinstall₂⟩ := install_run stringify dir (some (writeJson stringify (withList m "sessionStart"
      (upserted "SessionStart" (hookCommand "SessionStart" pin) (entriesAt .cursor (.obj m) "sessionStart"))))) hpin
      (by rw [readJson, writeJson, hm']; exact hrun₂)
    rw [if_pos rfl] at hinstall₂
    have hagain := withList_again_iff hm'
    rw [upserted_reparsed] at hagain
    have hconverged : Converged (VENDORS .cursor) pin (.obj m') ↔ ∃ h,
      Sole (InitWritten "SessionStart")
        (upserted "SessionStart" (hookCommand "SessionStart" pin)
          ((entriesAt .cursor (.obj m) "sessionStart").map reparsed)) h ∧
          commandOf h = some (hookCommand "SessionStart" pin) := by
      rw [← hentries]
      exact ⟨fun h => h _ List.mem_cons_self, fun h e he => by rw [List.mem_singleton.mp he]; exact h⟩
    have hsole : Recognised (VENDORS .cursor) (.obj m) → (Converged (VENDORS .cursor) pin (.obj m') ↔
        AtMostOne (InitWritten "SessionStart") (entriesAt .cursor (.obj m) "sessionStart")) := by
      intro hr
      rw [hconverged, sole_upserted_iff hl' hword hwritten, atMostOne_reparsed]
      refine List.forall_mem_map.mpr fun h hh ho => ?_
      rw [ours_reparsed] at ho
      exact initWritten_reparsed.mpr ((hours hr h hh).mp ho)
    constructor
    · rintro ⟨results', file, hfirst, hone, hr, results₂', file₂, hsecond, hread⟩
      rw [hinstall] at hfirst
      cases hfirst
      rw [hinstall₂] at hsecond
      cases hsecond
      have hone' : Converged (VENDORS .cursor) pin (.obj m') := hm' ▸ hone
      exact ⟨hr, (hsole hr).mp hone', (searchable_iff (hours hr)).mp hsearch, hagain.mp (hread.trans hm')⟩
    · rintro ⟨hr, hone, -, hversion⟩
      refine ⟨shown, _, hinstall, ?_, hr, shown₂, _, hinstall₂, (hagain.mpr hversion).trans hm'.symm⟩
      have hone' := (hsole hr).mpr hone
      rw [← hm'] at hone'
      exact hone'
  · have hthrown := install_throws stringify dir (some ⟨text, some (.obj m)⟩) hpin
      ((installSettings_cursor hpin hs).2 hsearch)
    constructor
    · rintro ⟨results, file, hfirst, -⟩
      rw [hthrown] at hfirst
      cases hfirst
    · rintro ⟨hr, -, hcommands, -⟩
      exact absurd ((searchable_iff (hours hr)).mpr hcommands) hsearch

/-- An install leaves one hook generation where no command of the file has a broken pin and, for a
project hook, an upsert finds what it asks for. -/
theorem install_converges_iff (hpin : ∀ p ∈ pin, PIN_TOKEN p = true)
    (hs : HookLists (VENDORS harness).shape ((watched (VENDORS harness)).map (·.2)) settings) :
    Converges stringify harness dir pin text settings ↔ Pinned (VENDORS harness) settings ∧
      (harness = .cursor → Upsertable settings) := by
  by_cases hh : harness = .cursor
  · subst hh
    rw [cursor_converges_iff hpin hs]
    exact and_congr_right fun _ => ⟨fun h _ => h, fun h => h rfl⟩
  · have hevents : (watched (VENDORS harness)).map (·.2) = ["SessionStart", "PostToolUse"] := by
      cases harness with
      | cursor => exact absurd rfl hh
      | claude | codex => rfl
    rw [hevents] at hs
    rw [plugin_converges_iff hh hpin hs]
    exact ⟨fun hp => ⟨hp, fun h => absurd h hh⟩, And.left⟩

end

section
variable {entries : List String} {h : Json}

def cursorHooks (commands : List String) : Json :=
  .obj [("version", .num 1),
    ("hooks", .obj [("sessionStart", .arr (commands.map fun c => .obj [("command", .str c)]))])]

theorem hookLists_cursorHooks : HookLists .cursor ["sessionStart"] (cursorHooks entries) := by
  refine ⟨_, rfl, .inr ⟨_, rfl⟩, ?_⟩
  intro event he
  rw [List.mem_singleton.mp he]
  refine .inr ⟨_, rfl, ?_⟩
  intro h hh
  obtain ⟨command, -, rfl⟩ := List.mem_map.mp hh
  exact ⟨_, rfl, .inr ⟨command, rfl⟩⟩

theorem mem_cursorHooks (hh : h ∈ entriesAt .cursor (cursorHooks entries) "sessionStart") :
    ∃ command ∈ entries, h = .obj [("command", .str command)] := by
  obtain ⟨command, hc, rfl⟩ := List.mem_map.mp hh
  exact ⟨command, hc, rfl⟩

theorem commandsFirst_cursorHooks {p : Json → Prop} :
    CommandsFirst p (entriesAt .cursor (cursorHooks entries) "sessionStart") := by
  intro front x back hl _
  obtain ⟨command, -, rfl⟩ := mem_cursorHooks (hl ▸ List.mem_append_right front List.mem_cons_self)
  exact Option.some_ne_none command

theorem finiteVersion_cursorHooks : FiniteVersion (cursorHooks entries) := by
  intro m hm negative hget
  cases hm
  cases hget

theorem older_written : ∀ c ∈ ["npx cyberlegion@0.1.0 mail hook --event SessionStart", "echo other"],
    Shaped "SessionStart" c → Written "SessionStart" c := by
  intro c hc hshaped
  have htarget := hookTarget_eq_some.mpr ⟨show Word "SessionStart" by decide, hshaped⟩
  simp only [List.mem_cons, List.not_mem_nil, or_false] at hc
  rcases hc with rfl | rfl
  · exact ⟨.npx false (some "0.1.0"), fun p hp => by rw [← Option.some_inj.mp hp]; decide, by decide⟩
  · exact absurd htarget (by decide)

theorem install_converges_older : Converges (fun _ => "") .cursor "/repo" (some "0.2.0") ""
    (cursorHooks ["npx cyberlegion@0.1.0 mail hook --event SessionStart", "echo other"]) := by
  have hother : ¬InitWritten "SessionStart" (.obj [("command", .str "echo other")]) := by
    intro hinit
    have hours := ours_of_initWritten (show Word "SessionStart" by decide) hinit
    exact absurd hours (by decide)
  have hs : HookLists (VENDORS .cursor).shape ((watched (VENDORS .cursor)).map (·.2))
      (cursorHooks ["npx cyberlegion@0.1.0 mail hook --event SessionStart", "echo other"]) := hookLists_cursorHooks
  refine (install_converges_iff (fun p hp => ?_) hs).mpr ⟨?_, fun _ => ?_⟩
  · rw [← Option.some_inj.mp hp]
    decide
  · intro e he h hh command hcommand
    rw [List.mem_singleton.mp he] at hh ⊢
    obtain ⟨c, hc, rfl⟩ := mem_cursorHooks hh
    rw [← Option.some_inj.mp (show some c = some command from hcommand)]
    exact older_written c hc
  · exact ⟨List.pairwise_pair.mpr fun hboth => hother hboth.2, commandsFirst_cursorHooks, finiteVersion_cursorHooks⟩

/-- Two generations beside each other: the second one stays. -/
theorem install_leaves_duplicate : ¬Converges (fun _ => "") .cursor "/repo" none ""
    (cursorHooks ["cyberlegion mail hook --event SessionStart", "npx cyberlegion mail hook --event SessionStart"]) := by
  intro hconverges
  have hone := ((cursor_converges_iff (fun p hp => by cases hp) hookLists_cursorHooks).mp hconverges).2
  have hboth := List.pairwise_pair.mp hone.1
  refine hboth ⟨⟨_, rfl, .bare, ⟨fun p hp => (by cases hp), ?_⟩⟩,
    ⟨_, rfl, .npx false none, ⟨fun p hp => (by cases hp), ?_⟩⟩⟩
  · decide
  · decide

end

end Cyberlegion.Init
