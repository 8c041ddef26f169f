import Cyberlegion.InstallKeeps

/-!
# When an install keeps a settings file

The settings files that an install leaves, or writes with nothing changed but its own
entries.
-/

namespace Cyberlegion.Init

open Json

/-- An entry whose command is of a generation's form. -/
def Formed (canonical : String) (h : Json) : Prop := ∃ command, commandOf h = some command ∧ Shaped canonical command

/-- The first command of a generation's form is one that init has written. -/
def FirstPinned (canonical : String) (l : List Json) : Prop :=
  ∀ front x back, l = front ++ x :: back → (∀ y ∈ front, ¬Formed canonical y) → Formed canonical x →
    InitWritten canonical x

/-- A list that holds an entry of init's holds no group without entries. -/
def Populated (canonical : String) (groups : List Json) : Prop :=
  (∃ h ∈ entriesOf .claude groups, Formed canonical h) → ∀ g ∈ groups, groupEntries g ≠ []

/-- Where the plugin ships the hook, the file is written when it holds a command of a generation's form. -/
def Writes (spec : VendorSpec) (settings : Json) : Prop :=
  ∃ e ∈ watched spec, ∃ h ∈ entriesAt spec.shape settings e.2, Formed e.1 h

/-- What an install asks of the settings file, to keep it. A cursor install throws where an entry
without a command comes first. -/
def Unharmed (harness : Harness) (file : Option Content) : Prop :=
  match harness with
  | .cursor => settingsOf file ≠ none ∧ (∀ items, settingsOf file = some (.arr items) → RoundTrips (.arr items)) ∧
      ∀ m, settingsOf file = some (.obj m) →
        CommandsFirst (Formed "SessionStart") (entriesAt .cursor (.obj m) "sessionStart") →
        FirstPinned "SessionStart" (entriesAt .cursor (.obj m) "sessionStart") ∧
        FiniteBeside .cursor (watched (VENDORS .cursor)) (.obj m)
  | .claude => ∀ m, settingsOf file = some (.obj m) → Pinned (VENDORS .claude) (.obj m) ∧
      (∀ e ∈ watched (VENDORS .claude), Populated e.1 (listIn (hookMembers (.obj m)) e.2)) ∧
      (Writes (VENDORS .claude) (.obj m) → FiniteBeside .claude (watched (VENDORS .claude)) (.obj m))
  | .codex => ∀ m, settingsOf file = some (.obj m) → Pinned (VENDORS .codex) (.obj m) ∧
      (Writes (VENDORS .codex) (.obj m) → FiniteBeside .cursor (watched (VENDORS .codex)) (.obj m))

section
variable {stringify : Json → String} {harness : Harness} {dir canonical : String} {pin : Option String}
  {file : Option Content} {h v s : Json} {m : List (String × Json)} {changed : Bool}
  {results : List (String × String × InstallStatus)} {shape : Shape} {l l' : List Json}

theorem ours_iff_formed (hword : Word canonical) : ours canonical h = true ↔ Formed canonical h := by
  rw [ours_iff]
  constructor
  · intro ⟨command, hcommand, htarget⟩
    exact ⟨command, hcommand, (hookTarget_eq_some.mp htarget).2⟩
  · intro ⟨command, hcommand, hshaped⟩
    exact ⟨command, hcommand, hookTarget_eq_some.mpr ⟨hword, hshaped⟩⟩

theorem readJson_of_settings (hv : settingsOf file = some v) : readJson file = v := by
  cases file with
  | none => exact Option.some_inj.mp hv
  | some content =>
    have hvalue : content.value = some v := hv
    rw [readJson, hvalue]
    rfl

theorem install_invalid (hpin : ¬∀ p ∈ pin, PIN_TOKEN p = true) :
    (install stringify harness dir pin file).2 = file := by
  cases pin with
  | none => exact absurd (fun p hp => (by cases hp)) hpin
  | some p =>
    have hp : ¬PIN_TOKEN p = true := by
      intro hp
      refine hpin fun q hq => ?_
      rw [← Option.some_inj.mp hq]
      exact hp
    have hvalid : (some p).forM validatePin = .error (.invalidPin p) := by
      show validatePin p = .error (.invalidPin p)
      rw [validatePin, if_neg hp]
      rfl
    rw [install]
    simp only [hvalid, bind, Except.bind]

theorem install_file (stringify : Json → String) (dir : String) (hpin : ∀ p ∈ pin, PIN_TOKEN p = true)
    (hrun : installSettings (VENDORS harness) pin (readJson file) = .ok (results, changed, s)) :
    (install stringify harness dir pin file).2 = if changed = true then some (writeJson stringify s) else file := by
  obtain ⟨shown, hinstall⟩ := install_run stringify dir file hpin hrun
  rw [hinstall]

theorem fileKept_written_iff {kept : Json → Json → Prop} (hrefl : ∀ v, kept v v) (hv : settingsOf file = some v) :
    FileKept kept file (some (writeJson stringify s)) ↔ kept v s.reparsed := by
  constructor
  · rintro (hfile | ⟨w, text, w', hw, hfile, hkept⟩)
    · rw [← hfile] at hv
      rw [← Option.some_inj.mp hv]
      exact hrefl _
    · rw [hv] at hw
      obtain rfl := Option.some_inj.mp hw
      rw [Option.some_inj.mp (congrArg Content.value (Option.some_inj.mp hfile))]
      exact hkept
  · intro hkept
    exact .inr ⟨v, _, s.reparsed, hv, rfl, hkept⟩

/-- A file whose JSON is no object is left, but for a list, which a cursor install writes again. -/
theorem install_no_object (hpin : ∀ p ∈ pin, PIN_TOKEN p = true) (hv : settingsOf file = some v)
    (hobj : ∀ m, v ≠ .obj m) :
    FileKept (SettingsKept (VENDORS harness).shape (watched (VENDORS harness))) file
      (install stringify harness dir pin file).2 ↔ (harness = .cursor → ∀ items, v = .arr items → RoundTrips v) := by
  have hread := readJson_of_settings hv
  have hrun : (∃ results, installSettings (VENDORS harness) pin v = .ok (results, false, v) ∧ harness ≠ .cursor) ∨
      (∃ e, installSettings (VENDORS harness) pin v = .error e ∧ ∀ items, v ≠ .arr items) ∨
      ∃ results, installSettings (VENDORS harness) pin v = .ok (results, true, v) ∧ harness = .cursor ∧
        ∃ items, v = .arr items := by
    cases harness <;> cases v <;> first
      | exact absurd rfl (hobj _)
      | exact .inl ⟨_, rfl, by decide⟩
      | exact .inr (.inl ⟨_, rfl, fun items heq => (by cases heq)⟩)
      | exact .inr (.inr ⟨_, rfl, rfl, _, rfl⟩)
  rcases hrun with ⟨results, hrun, hne⟩ | ⟨e, hrun, hnot⟩ | ⟨results, hrun, rfl, items, rfl⟩
  · rw [install_file stringify dir hpin (by rw [hread]; exact hrun)]
    exact ⟨fun _ heq => absurd heq hne, fun _ => .inl rfl⟩
  · rw [install_throws stringify dir file hpin (by rw [hread]; exact hrun)]
    exact ⟨fun _ _ items heq => absurd heq (hnot items), fun _ => .inl rfl⟩
  · rw [install_file stringify dir hpin (by rw [hread]; exact hrun), if_pos rfl,
      fileKept_written_iff (fun _ => .inl rfl) hv]
    constructor
    · rintro (heq | ⟨m, -, heq, -⟩) _ _ _
      · exact heq.symm
      · cases heq
    · intro hround
      exact .inl (hround rfl items rfl).symm

theorem watched_plugin (hh : harness ≠ .cursor) :
    watched (VENDORS harness) = [("SessionStart", "SessionStart")] ++ [("PostToolUse", "PostToolUse")] := by
  cases harness with
  | cursor => exact absurd rfl hh
  | claude | codex => rfl

theorem mem_watched_plugin (hh : harness ≠ .cursor) :
    ∀ e ∈ watched (VENDORS harness), e.1 = e.2 ∧ e.2 ∈ ["SessionStart", "PostToolUse"] := by
  rw [watched_plugin hh]
  decide

theorem watched_one (hh : harness ≠ .cursor) {e : String × String} (he : e ∈ watched (VENDORS harness)) :
    ∀ c, (c, e.2) ∈ watched (VENDORS harness) → c = e.1 := by
  intro c hc
  rw [(mem_watched_plugin hh e he).1]
  exact (mem_watched_plugin hh _ hc).1

/-! ### What a removal leaves -/

theorem ours_of_left (hl : ∀ x ∈ l, Element shape x) (hh : h ∈ entriesOf shape (leftOf canonical shape l)) :
    ours canonical h = false := by
  rw [entriesOf_leftOf hl] at hh
  have hnot := (List.mem_filter.mp hh).2
  rwa [Bool.not_eq_true'] at hnot

/-- What a removal takes from a list that is kept, init has written. -/
theorem initWritten_of_left (hword : Word canonical) (hl : ∀ x ∈ l, Element shape x)
    (hedited : ListEdited shape canonical l l')
    (hleft : l' = [] ∨ l' = (leftOf canonical shape l).map reparsed) (hh : h ∈ entriesOf shape l)
    (hformed : Formed canonical h) : InitWritten canonical h := by
  by_contra huser
  have hmem := mem_of_listEdited hedited hh huser
  rcases hleft with rfl | rfl
  · cases shape <;> cases hmem
  · rw [entriesOf_reparsed] at hmem
    obtain ⟨x, hx, rfl⟩ := List.mem_map.mp hmem
    have hours := (ours_iff_formed hword).mpr hformed
    rw [ours_reparsed, ours_of_left hl hx] at hours
    cases hours

/-- A removal takes away a group without entries, which a list that is kept does not lose. -/
theorem populated_of_left (hword : Word canonical) (hl : ∀ x ∈ l, Element .claude x)
    (hedited : ListEdited .claude canonical l l')
    (hleft : l' = [] ∨ l' = (leftOf canonical .claude l).map reparsed) : Populated canonical l := by
  rintro ⟨h, hh, hformed⟩ g hg hempty
  obtain ⟨g', hg', hall⟩ := group_of_listEdited hedited hg hempty
  rcases hleft with rfl | rfl
  · cases hg'
  · have hany : (entriesOf .claude l).any (ours canonical) = true :=
      List.any_eq_true.mpr ⟨h, hh, (ours_iff_formed hword).mpr hformed⟩
    rw [leftOf, if_pos hany] at hg'
    obtain ⟨g₁, hg₁, rfl⟩ := List.mem_map.mp hg'
    obtain ⟨g₀, hg₀, hkeptGroup⟩ := List.mem_filterMap.mp hg₁
    obtain ⟨-, hentries⟩ := keptGroup_some (hl g₀ hg₀) hkeptGroup
    have hnil : groupEntries g₁ = [] := by
      rw [List.eq_nil_iff_forall_not_mem]
      intro x hx
      have hinit := hall x.reparsed (by rw [groupEntries_reparsed]; exact List.mem_map_of_mem hx)
      have hours := ours_of_initWritten hword (initWritten_reparsed.mp hinit)
      rw [hentries] at hx
      have hnot := (List.mem_filter.mp hx).2
      rw [hours] at hnot
      cases hnot
    rw [hentries] at hnil
    obtain ⟨m₀, rfl, -⟩ := hl g₀ hg₀
    rw [keptGroup] at hkeptGroup
    simp only [hnil, if_true] at hkeptGroup
    cases hkeptGroup

/-! ### Where the plugin ships the hook -/

theorem plugin_changed_iff (hh : harness ≠ .cursor)
    (hs : HookLists (VENDORS harness).shape ["SessionStart", "PostToolUse"] (.obj m))
    (hrun : installSettings (VENDORS harness) pin (.obj m) = .ok (results, changed, s)) :
    changed = true ↔ Writes (VENDORS harness) (.obj m) := by
  obtain ⟨_, _, _, hrun', hlists, -, -, hsame, hnone⟩ := installSettings_plugin pin hh hs
  rw [hrun] at hrun'
  cases hrun'
  constructor
  · intro hchanged
    by_contra hwrites
    have hunchanged : changed = false := by
      refine hnone fun event he => List.any_eq_false.mpr fun h hmem ho => ?_
      have hwatched : (event, event) ∈ watched (VENDORS harness) := by
        rw [watched_plugin hh]
        simp only [List.mem_cons, List.not_mem_nil, or_false] at he
        rcases he with rfl | rfl <;> decide
      exact hwrites ⟨_, hwatched, h, hmem, (ours_iff_formed (word_of_watched _ hwatched)).mp ho⟩
    rw [hchanged] at hunchanged
    cases hunchanged
  · rintro ⟨e, he, h, hh', hformed⟩
    cases changed with
    | true => rfl
    | false =>
      obtain ⟨heq, hmem⟩ := mem_watched_plugin hh e he
      have hleft := hlists e.2 hmem
      rw [hsame rfl, ← heq] at hleft
      rw [entriesAt, ← heq, hleft] at hh'
      have hours := (ours_iff_formed (word_of_watched e he)).mpr hformed
      rw [ours_of_left (heq ▸ listed_elements hs hmem) hh'] at hours
      cases hours

/-- What becomes of an event's list where the settings are kept. -/
theorem plugin_edits (hh : harness ≠ .cursor) (hkeyed : KeyedSettings (.obj m)) (hkeyed' : KeyedSettings s)
    (hs' : HookLists (VENDORS harness).shape ["SessionStart", "PostToolUse"] s)
    (hlists : ∀ event ∈ ["SessionStart", "PostToolUse"], listIn (hookMembers s) event =
      leftOf event (VENDORS harness).shape (listIn (hookMembers (.obj m)) event))
    (hsettings : SettingsKept (VENDORS harness).shape (watched (VENDORS harness)) (.obj m) s.reparsed)
    {e : String × String} (he : e ∈ watched (VENDORS harness)) :
    ∃ l, ListEdited (VENDORS harness).shape e.1 (listIn (hookMembers (.obj m)) e.2) l ∧ (l = [] ∨
      l = (leftOf e.1 (VENDORS harness).shape (listIn (hookMembers (.obj m)) e.2)).map reparsed) := by
  obtain ⟨heq, hmem⟩ := mem_watched_plugin hh e he
  obtain ⟨m', hm', -, -⟩ := hookLists_reparsed hs'
  obtain ⟨hm, hhm⟩ := hkeyed m rfl
  obtain ⟨hk', hhk'⟩ := keyedSettings_reparsed hkeyed' m' hm'
  rw [hm'] at hsettings
  rcases list_of_settingsKept hm hk' hhm hhk' (watched_one hh he) hsettings with hgone | hedited
  · exact ⟨[], hgone, .inl rfl⟩
  · rw [← hm', hookMembers_reparsed, listIn_reparsed, hlists e.2 hmem, ← heq] at hedited
    rw [← heq]
    exact ⟨_, hedited, .inr rfl⟩

theorem plugin_keeps (hh : harness ≠ .cursor)
    (hs : HookLists (VENDORS harness).shape ["SessionStart", "PostToolUse"] (.obj m))
    (hkeyed : KeyedSettings (.obj m)) (hpinned : Pinned (VENDORS harness) (.obj m))
    (hgroups : (VENDORS harness).shape = .claude →
      ∀ e ∈ watched (VENDORS harness), Populated e.1 (listIn (hookMembers (.obj m)) e.2))
    (hrun : installSettings (VENDORS harness) pin (.obj m) = .ok (results, changed, s)) :
    SettingsKept (VENDORS harness).shape (watched (VENDORS harness)) (.obj m) s := by
  have hfirst : ("SessionStart", "SessionStart") ∈ watched (VENDORS harness) := by
    rw [watched_plugin hh]
    decide
  have hsecond : ("PostToolUse", "PostToolUse") ∈ watched (VENDORS harness) := by
    rw [watched_plugin hh]
    decide
  have hown : ∀ e ∈ watched (VENDORS harness), ∀ h ∈ entriesAt (VENDORS harness).shape (.obj m) e.2,
      ours e.1 h = true → InitWritten e.1 h := by
    intro e he h hh ho
    obtain ⟨command, hcommand, hshaped⟩ := (ours_iff_formed (word_of_watched e he)).mp ho
    exact ⟨command, hcommand, hpinned e he h hh command hcommand hshaped⟩
  have hfull : ∀ e ∈ watched (VENDORS harness), (VENDORS harness).shape = .claude →
      (∃ h ∈ entriesAt (VENDORS harness).shape (.obj m) e.2, ours e.1 h = true) →
        ∀ g ∈ listIn (hookMembers (.obj m)) e.2, groupEntries g ≠ [] := by
    intro e he hshape hsome
    obtain ⟨h, hh, ho⟩ := hsome
    rw [hshape] at hh
    exact hgroups hshape e he ⟨h, hh, (ours_iff_formed (word_of_watched e he)).mp ho⟩
  obtain ⟨s₁, hremove₁, hkept₁, hother₁, hs₁, hkeyed₁, -⟩ :=
    remove_spec "SessionStart" "SessionStart" hs (by decide)
  obtain ⟨_, _, heq₁, hedited₁⟩ :=
    remove_kept "SessionStart" "SessionStart" hs (by decide) hkeyed (hown _ hfirst) (hfull _ hfirst)
  rw [hremove₁] at heq₁
  cases heq₁
  -- the first removal leaves the other event's list alone
  have hlist : listIn (hookMembers s₁) "PostToolUse" = listIn (hookMembers (.obj m)) "PostToolUse" :=
    hother₁ _ (by decide)
  have hentries : entriesAt (VENDORS harness).shape s₁ "PostToolUse" =
      entriesAt (VENDORS harness).shape (.obj m) "PostToolUse" := by rw [entriesAt, entriesAt, hlist]
  obtain ⟨_, s₂, hremove₂, hedited₂⟩ :=
    remove_kept "PostToolUse" "PostToolUse" hs₁ (by decide) (hkeyed₁ hkeyed)
      (by rw [hentries]; exact hown _ hsecond) (by rw [hentries, hlist]; exact hfull _ hsecond)
  obtain ⟨results₂, hrun₂⟩ := installSettings_removes pin hh hremove₁ hremove₂
  rw [hrun₂] at hrun
  obtain rfl : s₂ = s := congrArg (fun r => r.2.2) (Except.ok.inj hrun)
  rw [watched_plugin hh]
  exact settingsKept_trans (by decide) hedited₁ hedited₂

theorem plugin_kept_iff (hh : harness ≠ .cursor) (hpin : ∀ p ∈ pin, PIN_TOKEN p = true)
    (hv : settingsOf file = some (.obj m)) (hkeyed : KeyedSettings (.obj m))
    (hs : HookLists (VENDORS harness).shape ["SessionStart", "PostToolUse"] (.obj m)) :
    FileKept (SettingsKept (VENDORS harness).shape (watched (VENDORS harness))) file
      (install stringify harness dir pin file).2 ↔ Pinned (VENDORS harness) (.obj m) ∧
      ((VENDORS harness).shape = .claude →
        ∀ e ∈ watched (VENDORS harness), Populated e.1 (listIn (hookMembers (.obj m)) e.2)) ∧
        (Writes (VENDORS harness) (.obj m) →
          FiniteBeside (VENDORS harness).shape (watched (VENDORS harness)) (.obj m)) := by
  obtain ⟨results, changed, s, hrun, hlists, hs', hkeyed', -, -⟩ := installSettings_plugin pin hh hs
  have hchanged := plugin_changed_iff hh hs hrun
  have hread := readJson_of_settings hv
  rw [install_file stringify dir hpin (by rw [hread]; exact hrun)]
  by_cases hwrites : Writes (VENDORS harness) (.obj m)
  · rw [if_pos (hchanged.mpr hwrites), fileKept_written_iff (fun _ => .inl rfl) hv]
    constructor
    · intro hsettings
      have hedits := fun {e} he => plugin_edits hh hkeyed (hkeyed' hkeyed) hs' hlists hsettings (e := e) he
      refine ⟨?_, ?_, fun _ => finiteBeside_of_kept (roundTrips_reparsed s) hsettings⟩
      · intro e he h hh' command hcommand hshaped
        obtain ⟨l, hedited, hleft⟩ := hedits he
        obtain ⟨given, hgiven, hwritten⟩ := initWritten_of_left (word_of_watched e he)
          (listed_elements hs (mem_watched_plugin hh e he).2) hedited hleft hh' ⟨command, hcommand, hshaped⟩
        rw [hcommand, Option.some_inj] at hgiven
        exact hgiven ▸ hwritten
      · intro hshape e he
        obtain ⟨l, hedited, hleft⟩ := hedits he
        have helements := listed_elements hs (mem_watched_plugin hh e he).2
        rw [hshape] at hedited hleft helements
        exact populated_of_left (word_of_watched e he) helements hedited hleft
    · rintro ⟨hpinned, hgroups, hfinite⟩
      exact settingsKept_reparsed (fun c c' event hc hc' => watched_one hh hc' c hc) (hfinite hwrites)
        (plugin_keeps hh hs hkeyed hpinned hgroups hrun)
  · have hunformed : ∀ e ∈ watched (VENDORS harness),
        ∀ h ∈ entriesAt (VENDORS harness).shape (.obj m) e.2, ¬Formed e.1 h :=
      fun e he h hh hformed => hwrites ⟨e, he, h, hh, hformed⟩
    rw [if_neg (fun h => hwrites (hchanged.mp h))]
    refine ⟨fun _ => ⟨?_, ?_, fun h => absurd h hwrites⟩, fun _ => .inl rfl⟩
    · intro e he h hh command hcommand hshaped
      exact absurd ⟨command, hcommand, hshaped⟩ (hunformed e he h hh)
    · rintro hshape e he ⟨h, hh, hformed⟩
      exact absurd hformed (hunformed e he h (by rw [entriesAt, hshape]; exact hh))

/-! ### Where the hook is the project's -/

/-- An upsert that keeps the settings gives its command to an entry that init has written. -/
theorem firstPinned_of_kept {command : String} (hwritten : Written "SessionStart" command)
    (hkeyed : KeyedSettings (.obj m)) (hs : HookLists .cursor ["sessionStart"] (.obj m))
    (hsettings : SettingsKept .cursor (watched (VENDORS .cursor)) (.obj m) (withList m "sessionStart"
      (upserted "SessionStart" command (entriesAt .cursor (.obj m) "sessionStart"))).reparsed) :
    FirstPinned "SessionStart" (entriesAt .cursor (.obj m) "sessionStart") := by
  have hword : Word "SessionStart" := by decide
  intro front x back hl hfront hx
  by_contra huser
  obtain ⟨old, hold, hshaped⟩ := hx
  have hnotWritten : ¬Written "SessionStart" old := fun hw => huser ⟨old, hold, hw⟩
  have hin : listIn (hookMembers (.obj m)) "sessionStart" = front ++ x :: back := hl
  have hupserted : upserted "SessionStart" command (front ++ x :: back) = front ++ setCommand command x :: back := by
    have hnot : ∀ y ∈ front, ours "SessionStart" y = false := by
      intro y hy
      rw [← Bool.not_eq_true, ours_iff_formed hword]
      exact hfront y hy
    rw [upserted, rewriteFirst_append hnot ((ours_iff_formed hword).mpr ⟨old, hold, hshaped⟩)]
    rfl
  have hother : decide (commandOf (setCommand command x) = some old) = false := by
    have hentry : Entry x := by
      apply listed_elements hs (List.mem_singleton_self _) x
      rw [hin]
      exact List.mem_append_right _ List.mem_cons_self
    apply decide_eq_false
    rw [commandOf_setCommand hentry, Option.some_inj]
    rintro rfl
    exact hnotWritten hwritten
  rw [hl, hupserted] at hsettings
  obtain ⟨hm, hhm⟩ := hkeyed m rfl
  obtain ⟨m', hm'⟩ : ∃ m', (withList m "sessionStart" (front ++ setCommand command x :: back)).reparsed =
      .obj m' := ⟨_, reparsed_obj _⟩
  have hkeyed' : KeyedSettings (.obj m') :=
    hm' ▸ keyedSettings_reparsed (keyedSettings_set (keyed_versioned hm) (Entries.keyed_set hhm))
  have hin' : listIn (hookMembers (.obj m')) "sessionStart" =
      (front ++ setCommand command x :: back).map reparsed := by
    rw [← hm', hookMembers_reparsed, listIn_reparsed, listIn_withList]
  rw [hm'] at hsettings
  obtain ⟨hk, hhk⟩ := hkeyed' m' rfl
  -- an edited list has as many entries with the command, and the upsert left one fewer
  have hlength : ∀ l, EntriesEdited "SessionStart" (front ++ x :: back) l →
      ((front ++ x :: back).filter fun h => commandOf h = some old).length =
        (l.filter fun h => commandOf h = some old).length :=
    fun l hedited => congrArg List.length (filter_of_entriesEdited hedited hnotWritten)
  have hmapped : ∀ l : List Json, ((l.map reparsed).filter fun h => decide (commandOf h = some old)).length =
      (l.filter fun h => decide (commandOf h = some old)).length := by
    intro l
    rw [List.filter_map, List.length_map]
    simp only [Function.comp_def, commandOf_reparsed]
  rcases list_of_settingsKept hm hk hhm hhk (fun c hc => congrArg Prod.fst (List.mem_singleton.mp hc)) hsettings
    with hgone | hedited
  · rw [hin] at hgone
    have hcount := hlength _ hgone
    simp [List.filter_append, hold] at hcount
  · rw [hin, hin'] at hedited
    have hcount := hlength _ hedited
    rw [hmapped] at hcount
    simp [List.filter_append, hold, hother] at hcount

theorem cursor_kept_iff (hpin : ∀ p ∈ pin, PIN_TOKEN p = true) (hv : settingsOf file = some (.obj m))
    (hkeyed : KeyedSettings (.obj m)) (hs : HookLists .cursor ["sessionStart"] (.obj m)) :
    FileKept (SettingsKept .cursor (watched (VENDORS .cursor))) file (install stringify .cursor dir pin file).2 ↔
      (CommandsFirst (Formed "SessionStart") (entriesAt .cursor (.obj m) "sessionStart") →
        FirstPinned "SessionStart" (entriesAt .cursor (.obj m) "sessionStart") ∧
        FiniteBeside .cursor (watched (VENDORS .cursor)) (.obj m)) := by
  have hword : Word "SessionStart" := by decide
  have hwritten : Written "SessionStart" (hookCommand "SessionStart" pin) := written_hookCommand hpin
  have hone : ∀ c c' event, (c, event) ∈ watched (VENDORS .cursor) →
      (c', event) ∈ watched (VENDORS .cursor) → c = c' := by
    intro c c' event hc hc'
    exact (congrArg Prod.fst (List.mem_singleton.mp hc)).trans (congrArg Prod.fst (List.mem_singleton.mp hc')).symm
  rw [← searchable_iff fun h _ => ours_iff_formed hword]
  by_cases hsearch : Searchable "SessionStart" (entriesAt .cursor (.obj m) "sessionStart")
  · obtain ⟨results, hrun⟩ := (installSettings_cursor hpin hs).1 hsearch
    rw [install_file stringify dir hpin (by rw [readJson_of_settings hv]; exact hrun), if_pos rfl,
      fileKept_written_iff (fun _ => .inl rfl) hv, forall_prop_of_true hsearch]
    constructor
    · intro hsettings
      exact ⟨firstPinned_of_kept hwritten hkeyed hs hsettings,
        finiteBeside_of_kept (roundTrips_reparsed _) hsettings⟩
    · rintro ⟨hfirst, hfinite⟩
      refine settingsKept_reparsed hone hfinite (withList_kept hs (List.mem_singleton_self _) ?_)
      apply upserted_edited hwritten
      intro front x back hl hfront hx
      refine hfirst front x back hl ?_ ((ours_iff_formed hword).mp hx)
      intro y hy hformed
      have hours := (ours_iff_formed hword).mpr hformed
      rw [hfront y hy] at hours
      cases hours
  · rw [install_throws stringify dir file hpin
      (by rw [readJson_of_settings hv]; exact (installSettings_cursor hpin hs).2 hsearch)]
    exact ⟨fun _ h => absurd h hsearch, fun _ => .inl rfl⟩

theorem install_error {e : InitError} (h : (install stringify harness dir pin file).1 = .error e) :
    (install stringify harness dir pin file).2 = file := by
  rw [install] at h ⊢
  split at h
  · rfl
  · cases h

/-! ### The prior contents -/

/-- A file that does not parse is written anew by a cursor install, and left by the others. -/
theorem install_unparsed (hpin : ∀ p ∈ pin, PIN_TOKEN p = true) (hv : settingsOf file = none) :
    FileKept (SettingsKept (VENDORS harness).shape (watched (VENDORS harness))) file
      (install stringify harness dir pin file).2 ↔ Unharmed harness file := by
  obtain ⟨text, rfl⟩ : ∃ text, file = some ⟨text, none⟩ := by
    cases file with
    | none => cases hv
    | some content => exact ⟨content.text, by rw [← hv]; rfl⟩
  have hread : readJson (some ⟨text, none⟩) = .obj [] := rfl
  by_cases hh : harness = .cursor
  · subst hh
    obtain ⟨results, hrun⟩ := (installSettings_cursor (m := []) hpin ⟨[], rfl, .inl rfl, fun _ _ => .inl rfl⟩).1
      fun front x back hl => by cases front <;> cases hl
    rw [install_file stringify dir hpin (by rw [hread]; exact hrun)]
    constructor
    · rintro (hfile | ⟨v, -, -, hsettings, -⟩)
      · cases congrArg Content.value (Option.some_inj.mp hfile)
      · rw [hv] at hsettings
        cases hsettings
    · intro hunharmed
      exact absurd hv hunharmed.1
  · have hskip : ∀ event canonical, remove (VENDORS harness).shape (.obj []) event canonical =
        .ok (false, .obj []) :=
      fun event canonical => remove_absent (.inl rfl)
    obtain ⟨results, hrun⟩ := installSettings_removes pin hh (hskip _ _) (hskip _ _)
    rw [install_file stringify dir hpin (by rw [hread]; exact hrun)]
    refine ⟨fun _ => ?_, fun _ => .inl rfl⟩
    cases harness with
    | cursor => exact absurd rfl hh
    | claude | codex =>
      intro m hm
      rw [hv] at hm
      cases hm

theorem install_object (hpin : ∀ p ∈ pin, PIN_TOKEN p = true) (hprior : Prior harness file)
    (hv : settingsOf file = some (.obj m)) :
    FileKept (SettingsKept (VENDORS harness).shape (watched (VENDORS harness))) file
      (install stringify harness dir pin file).2 ↔ Unharmed harness file := by
  obtain ⟨hkeyed, hs⟩ := hprior m hv
  have hall : ∀ {P : List (String × Json) → Prop}, (∀ m', settingsOf file = some (.obj m') → P m') ↔ P m := by
    intro P
    constructor
    · intro h
      exact h m hv
    · intro h m' hm'
      rw [hv] at hm'
      cases hm'
      exact h
  cases harness with
  | cursor =>
    refine (cursor_kept_iff hpin hv hkeyed hs).trans ?_
    rw [Unharmed, hall]
    refine ⟨fun h => ⟨by rw [hv]; exact Option.some_ne_none _, fun items hitems => ?_, h⟩, fun h => h.2.2⟩
    rw [hv] at hitems
    cases hitems
  | claude =>
    rw [plugin_kept_iff (by decide) hpin hv hkeyed hs, Unharmed, hall]
    exact and_congr_right fun _ => and_congr_left fun _ => ⟨fun h => h rfl, fun h _ => h⟩
  | codex =>
    rw [plugin_kept_iff (by decide) hpin hv hkeyed hs, Unharmed, hall]
    exact ⟨fun h => ⟨h.1, h.2.2⟩, fun h => ⟨h.1, fun hshape => (by cases hshape), h.2⟩⟩

theorem install_list (hpin : ∀ p ∈ pin, PIN_TOKEN p = true) (hv : settingsOf file = some v)
    (hobj : ∀ m, v ≠ .obj m) :
    FileKept (SettingsKept (VENDORS harness).shape (watched (VENDORS harness))) file
      (install stringify harness dir pin file).2 ↔ Unharmed harness file := by
  have hnone : ∀ {m}, settingsOf file ≠ some (.obj m) := by
    intro m hm
    rw [hv] at hm
    exact hobj m (Option.some_inj.mp hm)
  rw [install_no_object hpin hv hobj]
  cases harness with
  | cursor =>
    rw [forall_prop_of_true rfl, Unharmed, hv]
    constructor
    · intro hlist
      refine ⟨Option.some_ne_none _, fun items hitems => ?_, fun m hm => absurd (hv.trans hm) hnone⟩
      have heq := Option.some_inj.mp hitems
      exact heq ▸ hlist items heq
    · rintro ⟨-, hlist, -⟩ items rfl
      exact hlist items rfl
  | claude | codex => exact ⟨fun _ m hm => absurd hm hnone, fun _ h => (by cases h)⟩

/-- An install keeps the file exactly where it is unharmed by it. -/
theorem install_kept_iff (hprior : Prior harness file) :
    FileKept (SettingsKept (VENDORS harness).shape (watched (VENDORS harness))) file
      (install stringify harness dir pin file).2 ↔ ((∀ p ∈ pin, PIN_TOKEN p = true) → Unharmed harness file) := by
  by_cases hpin : ∀ p ∈ pin, PIN_TOKEN p = true
  · rw [forall_prop_of_true hpin]
    cases hv : settingsOf file with
    | none => exact install_unparsed hpin hv
    | some v =>
      by_cases hobj : ∃ m, v = .obj m
      · obtain ⟨m, rfl⟩ := hobj
        exact install_object hpin hprior hv
      · exact install_list hpin hv (not_exists.mp hobj)
  · rw [install_invalid hpin]
    exact ⟨fun _ h => absurd h hpin, fun _ => .inl rfl⟩

end

end Cyberlegion.Init
