import Cyberlegion.Lib.Edits
import Cyberlegion.InstallSound

/-!
# What an install keeps of a settings file

The settings written are the settings read with init's own entries added, rewritten and
removed, and nothing else changed.
-/

namespace Cyberlegion.Init

open Json

/-! ## Settings with init's entries edited -/

/-- An entry of init's with another command. -/
def Rewritten (canonical : String) (h h' : Json) : Prop :=
  InitWritten canonical h ∧ ∃ command, Written canonical command ∧ h' = setCommand command h

def EntriesEdited (canonical : String) : List Json → List Json → Prop :=
  Edited (fun h h' => h = h' ∨ Rewritten canonical h h') (InitWritten canonical) (InitWritten canonical)

def InitGroup (canonical : String) (g : Json) : Prop :=
  groupEntries g ≠ [] ∧ ∀ h ∈ groupEntries g, InitWritten canonical h

/-- A group with its entries edited, not all of them gone, and its other members as they were. -/
def GroupEdited (canonical : String) (g g' : Json) : Prop :=
  ∃ m old entries, g = .obj m ∧ Entries.get m "hooks" = some (.arr old) ∧
    g' = .obj (Entries.set m "hooks" (.arr entries)) ∧ entries ≠ [] ∧ EntriesEdited canonical old entries

def ListEdited (shape : Shape) (canonical : String) (l l' : List Json) : Prop :=
  match shape with
  | .claude => Edited (fun g g' => g = g' ∨ GroupEdited canonical g g') (InitGroup canonical) (InitGroup canonical) l l'
  | .cursor => EntriesEdited canonical l l'

/-- The list of an event, whose key is added with its first entry and goes with its last. -/
def EventEdited (shape : Shape) (events : List (String × String)) (event : String) (old new : Option Json) : Prop :=
  ∃ canonical, (canonical, event) ∈ events ∧ ∃ l l', (nullish old = true ∧ l = [] ∨ old = some (.arr l)) ∧
    (new = none ∧ l ≠ [] ∧ l' = [] ∨ new = some (.arr l')) ∧ ListEdited shape canonical l l'

/-- The hooks, and the default version. -/
def SettingEdited (shape : Shape) (events : List (String × String)) (k : String) (old new : Option Json) : Prop :=
  k = "version" ∧ nullish old = true ∧ new = some (.num 1) ∨
    k = "hooks" ∧ ∃ hm hm', (nullish old = true ∧ hm = [] ∨ old = some (.obj hm)) ∧ new = some (.obj hm') ∧
      EditedMembers (EventEdited shape events) hm hm'

def SettingsKept (shape : Shape) (events : List (String × String)) (v v' : Json) : Prop :=
  v = v' ∨ ∃ m m', v = .obj m ∧ v' = .obj m' ∧ EditedMembers (SettingEdited shape events) m m'

/-- What the settings file parses to, where it parses; no file counts as no settings. -/
def settingsOf : Option Content → Option Json
  | none => some (.obj [])
  | some content => content.value

/-- The file is as it was, or what it held has been kept. -/
def FileKept (kept : Json → Json → Prop) (file file' : Option Content) : Prop :=
  file' = file ∨ ∃ v text v', settingsOf file = some v ∧ file' = some ⟨text, some v'⟩ ∧ kept v v'

/-- A throw leaves the file, and what is written keeps what it held. -/
def Harmless {α : Type} (kept : Json → Json → Prop) (file : Option Content)
    (outcome : Except InitError α × Option Content) :
    Prop :=
  (∀ e, outcome.1 = .error e → outcome.2 = file) ∧ FileKept kept file outcome.2

/-- A prior content: the objects of a file that parses have each key once, and the hook lists are of
the vendor's shape. -/
def Prior (harness : Harness) (file : Option Content) : Prop :=
  ∀ m, settingsOf file = some (.obj m) → KeyedSettings (.obj m) ∧
    HookLists (VENDORS harness).shape ((watched (VENDORS harness)).map (·.2)) (.obj m)

/-! ## Where an infinite number does no harm -/

def FiniteEntry (canonical : String) (h : Json) : Prop := RoundTrips h ∨ InitWritten canonical h

/-- An infinite number stands in no part of the element but in entries of init's. -/
def FiniteElement (shape : Shape) (canonical : String) (x : Json) : Prop :=
  match shape with
  | .claude => RoundTrips x ∨ InitGroup canonical x ∨ ∃ m entries, x = .obj m ∧
      Entries.get m "hooks" = some (.arr entries) ∧ RoundTrips (.obj (Entries.set m "hooks" .null)) ∧
      ∀ h ∈ entries, FiniteEntry canonical h
  | .cursor => FiniteEntry canonical x

def FiniteEvent (shape : Shape) (events : List (String × String)) (event : String) (v : Json) : Prop :=
  RoundTrips v ∨ ∃ canonical, (canonical, event) ∈ events ∧ ∃ l, v = .arr l ∧ ∀ x ∈ l,
  FiniteElement shape canonical x

def FiniteMember (shape : Shape) (events : List (String × String)) (k : String) (v : Json) : Prop :=
  RoundTrips v ∨ k = "hooks" ∧ ∃ hm, v = .obj hm ∧ ∀ e ∈ hm, FiniteEvent shape events e.1 e.2

/-- An infinite number stands in no part of the settings but in entries of init's. -/
def FiniteBeside (shape : Shape) (events : List (String × String)) (v : Json) : Prop :=
  RoundTrips v ∨ ∃ m, v = .obj m ∧ ∀ e ∈ m, FiniteMember shape events e.1 e.2

/-! ## Edits in sequence -/

section
variable {shape : Shape} {events events' : List (String × String)}
  {m m' m'' hm hm' : List (String × Json)} {v v' v'' : Json}
  {k event : String} {old new : Option Json}

theorem eventEdited_mono (hsub : ∀ x ∈ events, x ∈ events') (h : EventEdited shape events event old new) :
    EventEdited shape events' event old new := by
  obtain ⟨canonical, hmem, hedit⟩ := h
  exact ⟨canonical, hsub _ hmem, hedit⟩

theorem settingEdited_mono (hsub : ∀ x ∈ events, x ∈ events') (h : SettingEdited shape events k old new) :
    SettingEdited shape events' k old new := by
  rcases h with hversion | ⟨hk, hm, hm', hold, hnew, hhooks⟩
  · exact .inl hversion
  · exact .inr ⟨hk, hm, hm', hold, hnew, hhooks.mono fun _ _ _ => eventEdited_mono hsub⟩

theorem settingsKept_trans (hne : ∀ e ∈ events, ∀ e' ∈ events', e.2 ≠ e'.2) (h : SettingsKept shape events v v')
    (h' : SettingsKept shape events' v' v'') : SettingsKept shape (events ++ events') v v'' := by
  have hleft : ∀ x ∈ events, x ∈ events ++ events' := fun x hx => List.mem_append_left _ hx
  have hright : ∀ x ∈ events', x ∈ events ++ events' := fun x hx => List.mem_append_right _ hx
  have hdisjoint : ∀ {event old new old' new'}, EventEdited shape events event old new →
      ¬EventEdited shape events' event old' new' := by
    intro event old new old' new' ⟨canonical, hmem, _⟩ ⟨canonical', hmem', _⟩
    exact hne _ hmem _ hmem' rfl
  have hhooks : ∀ {a b c : List (String × Json)}, EditedMembers (EventEdited shape events) a b →
      EditedMembers (EventEdited shape events') b c → EditedMembers (EventEdited shape (events ++ events')) a c := by
    intro a b c
    exact EditedMembers.trans (fun _ _ _ _ h h' => absurd h' (hdisjoint h)) (fun _ _ _ h h' => absurd h' (hdisjoint h))
      (fun _ _ _ => eventEdited_mono hleft) (fun _ _ _ => eventEdited_mono hright)
  have hcompose : ∀ {k old b new}, SettingEdited shape events k old (some b) →
      SettingEdited shape events' k (some b) new →
      SettingEdited shape (events ++ events') k old new := by
    intro k old b new hfirst hsecond
    rcases hfirst with ⟨rfl, hnull, hone⟩ | ⟨rfl, hm, hm', hold, hmid, hedit⟩
    · rcases hsecond with ⟨-, hnull', -⟩ | ⟨hk, -⟩
      · rw [hone] at hnull'
        cases hnull'
      · exact absurd hk (by decide)
    · rcases hsecond with ⟨hk, -⟩ | ⟨-, hm₁, hm₂, hmid', hnew, hedit'⟩
      · exact absurd hk (by decide)
      · rw [hmid] at hmid'
        rcases hmid' with ⟨hnull, -⟩ | hmid'
        · cases hnull
        · cases hmid'
          exact .inr ⟨rfl, hm, hm₂, hold, hnew, hhooks hedit hedit'⟩
  rcases h with rfl | ⟨m, m', rfl, rfl, hedit⟩
  · rcases h' with rfl | ⟨m, m', rfl, rfl, hedit'⟩
    · exact .inl rfl
    · exact .inr ⟨m, m', rfl, rfl, hedit'.mono fun _ _ _ => settingEdited_mono hright⟩
  · rcases h' with rfl | ⟨m₁, m₂, heq, rfl, hedit'⟩
    · exact .inr ⟨m, m', rfl, rfl, hedit.mono fun _ _ _ => settingEdited_mono hleft⟩
    · cases heq
      exact .inr ⟨m, m₂, rfl, rfl, EditedMembers.trans (fun _ _ _ _ => hcompose) (fun _ _ _ => hcompose)
        (fun _ _ _ => settingEdited_mono hleft) (fun _ _ _ => settingEdited_mono hright) hedit hedit'⟩

theorem settingsKept_hooks (hhooks : EditedMembers (EventEdited shape events) (hookMembers (.obj m)) hm')
    (hold : nullish (Entries.get m "hooks") = true ∨ ∃ hm, Entries.get m "hooks" = some (.obj hm)) :
    SettingsKept shape events (.obj m) (.obj (Entries.set m "hooks" (.obj hm'))) := by
  refine .inr ⟨_, _, rfl, rfl, EditedMembers.set_get (.inr ⟨rfl, hookMembers (.obj m), hm', ?_, rfl, hhooks⟩)⟩
  rcases hold with hnull | ⟨hm, hget⟩
  · refine .inl ⟨hnull, ?_⟩
    rw [hookMembers]
    split
    · next hm hgot =>
      rw [hgot] at hnull
      cases hnull
    · rfl
  · refine .inr ?_
    rw [hookMembers, hget]

end

/-! ## What the edits keep -/

section
variable {shape : Shape} {canonical event command : String} {events : List (String × String)} {l l' : List Json}
  {m m' : List (String × Json)} {g h x : Json}

theorem listEdited_refl (l : List Json) : ListEdited shape canonical l l := by
  cases shape with
  | claude => exact Edited.refl fun g _ => .inl rfl
  | cursor => exact Edited.refl fun h _ => .inl rfl

theorem initWritten_rewritten {h' : Json} (hr : Rewritten canonical h h') : InitWritten canonical h' := by
  obtain ⟨⟨old, hold, -⟩, command, hwritten, rfl⟩ := hr
  cases h with
  | obj m => exact ⟨command, by rw [setCommand, commandOf, Entries.get_set, if_pos rfl], hwritten⟩
  | _ => cases hold

theorem mem_of_entriesEdited (h : EntriesEdited canonical l l') (hx : x ∈ l)
    (huser : ¬InitWritten canonical x) : x ∈ l' := by
  rcases h.mem hx with hdrop | ⟨y, hy, rfl | hrewritten⟩
  · exact absurd hdrop huser
  · exact hy
  · exact absurd hrewritten.1 huser

theorem groupEntries_of_get {entries : List Json} (hget : Entries.get m "hooks" = some (.arr entries)) :
    groupEntries (.obj m) = entries := by rw [groupEntries, hget]

theorem groupEntries_set {entries : List Json} : groupEntries (.obj (Entries.set m "hooks" (.arr entries))) = entries :=
  groupEntries_of_get (by rw [Entries.get_set, if_pos rfl])

theorem mem_of_listEdited (hl : ListEdited shape canonical l l') (hx : x ∈ entriesOf shape l)
    (huser : ¬InitWritten canonical x) :
    x ∈ entriesOf shape l' := by
  cases shape with
  | cursor => exact mem_of_entriesEdited hl hx huser
  | claude =>
    obtain ⟨g, hg, hxg⟩ := List.mem_flatMap.mp hx
    rcases Edited.mem hl hg with hdrop | ⟨g', hg', hkeep⟩
    · exact absurd (hdrop.2 x hxg) huser
    · refine List.mem_flatMap.mpr ⟨g', hg', ?_⟩
      rcases hkeep with rfl | ⟨m, old, entries, rfl, hold, rfl, -, hedited⟩
      · exact hxg
      · rw [groupEntries_of_get hold] at hxg
        rw [groupEntries_set]
        exact mem_of_entriesEdited hedited hxg huser

/-- A group without entries stays, and gets entries of init's only. -/
theorem group_of_listEdited (hl : ListEdited .claude canonical l l') (hg : g ∈ l) (hempty : groupEntries g = []) :
    ∃ g' ∈ l', ∀ h ∈ groupEntries g', InitWritten canonical h := by
  rcases Edited.mem hl hg with hdrop | ⟨g', hg', hkeep⟩
  · exact absurd hempty hdrop.1
  · refine ⟨g', hg', ?_⟩
    rcases hkeep with rfl | ⟨m, old, entries, rfl, hold, rfl, -, hedited⟩
    · intro h hh
      rw [hempty] at hh
      cases hh
    · intro h hh
      rw [groupEntries_set] at hh
      rw [groupEntries_of_get hold] at hempty
      subst hempty
      rcases hedited.mem_right hh with hadd | ⟨a, ha, -⟩
      · exact hadd
      · cases ha

/-- As many entries with a command that init has not written. -/
theorem filter_of_entriesEdited (h : EntriesEdited canonical l l') (hcommand : ¬Written canonical command) :
    l.filter (fun h => commandOf h = some command) = l'.filter fun h => commandOf h = some command := by
  have hnot : ∀ {h}, InitWritten canonical h → decide (commandOf h = some command) = false := by
    intro h ⟨given, hgiven, hwritten⟩
    apply decide_eq_false
    rw [hgiven, Option.some_inj]
    rintro rfl
    exact hcommand hwritten
  refine h.filter_eq ?_ (fun _ => hnot) fun _ => hnot
  rintro a b (rfl | hr)
  · exact .inl rfl
  · exact .inr ⟨hnot hr.1, hnot (initWritten_rewritten hr)⟩

theorem list_of_settingsKept (hm : Entries.Keyed m) (hm' : Entries.Keyed m')
    (hhm : Entries.Keyed (hookMembers (.obj m)))
    (hhm' : Entries.Keyed (hookMembers (.obj m'))) (hone : ∀ c, (c, event) ∈ events → c = canonical)
    (h : SettingsKept shape events (.obj m) (.obj m')) :
    ListEdited shape canonical (listIn (hookMembers (.obj m)) event) [] ∨
      ListEdited shape canonical (listIn (hookMembers (.obj m)) event) (listIn (hookMembers (.obj m')) event) := by
  have hrefl : ∀ l, ListEdited shape canonical l l := listEdited_refl
  have hedited : ∀ {hm hm' : List (String × Json)}, Entries.Keyed hm → Entries.Keyed hm' →
      EditedMembers (EventEdited shape events) hm hm' →
      ListEdited shape canonical (listIn hm event) [] ∨
      ListEdited shape canonical (listIn hm event) (listIn hm' event) := by
    intro hm hm' hk hk' hhooks
    cases hget : Entries.get hm event with
    | none =>
      rw [listIn_of_nullish (by rw [hget]; rfl)]
      exact .inl (hrefl [])
    | some v =>
      rcases hhooks.get hk hk' hget with
        ⟨w, hw, rfl | ⟨c, hc, l, l', hold, hnew, hlist⟩⟩ | ⟨c, hc, l, l', hold, hnew, hlist⟩
      · rw [listIn, listIn, hget, hw]
        exact .inr (hrefl _)
      · rw [hone c hc] at hlist
        have hl : listIn hm event = l := by
          rcases hold with ⟨hnull, rfl⟩ | harr
          · exact listIn_of_nullish (by rw [hget]; exact hnull)
          · rw [listIn, hget, harr]
        have hl' : listIn hm' event = l' := by
          rcases hnew with ⟨hnone, -⟩ | harr
          · cases hnone
          · rw [listIn, hw, harr]
        rw [hl, hl']
        exact .inr hlist
      · rw [hone c hc] at hlist
        have hl : listIn hm event = l := by
          rcases hold with ⟨hnull, rfl⟩ | harr
          · exact listIn_of_nullish (by rw [hget]; exact hnull)
          · rw [listIn, hget, harr]
        rcases hnew with ⟨-, -, rfl⟩ | harr
        · rw [hl]
          exact .inl hlist
        · cases harr
  rcases h with heq | ⟨m₁, m₂, hobj, hobj', hsettings⟩
  · rw [heq]
    exact .inr (hrefl _)
  · cases hobj
    cases hobj'
    cases hget : Entries.get m "hooks" with
    | none =>
      have hnil : hookMembers (.obj m) = [] := by rw [hookMembers, hget]
      rw [hnil]
      exact .inl (hrefl [])
    | some v =>
      have hhooks : ∀ hm, v = .obj hm → hookMembers (.obj m) = hm := by
        rintro hm rfl
        rw [hookMembers, hget]
      rcases hsettings.get hm hm' hget with ⟨w, hw, rfl | ⟨hk, -⟩ | ⟨-, om, om', hold, hnew, hmembers⟩⟩ |
        ⟨hk, -⟩ | ⟨-, om, om', -, hnew, -⟩
      · have hsame : hookMembers (.obj m') = hookMembers (.obj m) := by rw [hookMembers, hookMembers, hget, hw]
        rw [hsame]
        exact .inr (hrefl _)
      · exact absurd hk (by decide)
      · have hnew' : hookMembers (.obj m') = om' := by rw [hookMembers, hw, hnew]
        have hold' : hookMembers (.obj m) = om := by
          rcases hold with ⟨hnull, rfl⟩ | hobj
          · cases v with
            | null => rw [hookMembers, hget]
            | _ => cases hnull
          · exact hhooks om (Option.some_inj.mp hobj)
        rw [hold'] at hhm
        rw [hnew'] at hhm'
        rw [hold', hnew']
        exact hedited hhm hhm' hmembers
      · exact absurd hk (by decide)
      · cases hnew

end

/-! ## Edited settings, written -/

section
variable {shape : Shape} {canonical event k : String} {events : List (String × String)} {l l' : List Json}
  {m m' hm hm' : List (String × Json)} {g g' h v v' w : Json} {old : Option Json}

theorem initGroup_edited (hg : InitGroup canonical g) (h : GroupEdited canonical g g') : InitGroup canonical g' := by
  obtain ⟨m, old, entries, rfl, hold, rfl, hne, hedited⟩ := h
  rw [InitGroup, groupEntries_of_get hold] at hg
  rw [InitGroup, groupEntries_set]
  refine ⟨hne, fun h hh => ?_⟩
  rcases hedited.mem_right hh with hadd | ⟨a, ha, rfl | hrewritten⟩
  · exact hadd
  · exact hg.2 a ha
  · exact initWritten_rewritten hrewritten

theorem initGroup_reparsed (hg : InitGroup canonical g) : InitGroup canonical g.reparsed := by
  rw [InitGroup, groupEntries_reparsed]
  refine ⟨fun hnil => hg.1 (List.map_eq_nil_iff.mp hnil), ?_⟩
  exact List.forall_mem_map.mpr fun h hh => initWritten_reparsed.mpr (hg.2 h hh)

theorem entriesEdited_reparsed (hfinite : ∀ h ∈ l, FiniteEntry canonical h) (h : EntriesEdited canonical l l') :
    EntriesEdited canonical l (l'.map reparsed) := by
  refine Edited.map (fun a ha b hab => ?_) (fun b => initWritten_reparsed.mpr) h
  rcases hab with rfl | hrewritten
  · rcases hfinite a ha with hround | hinit
    · exact .inl (.inl hround.symm)
    · exact .inr ⟨hinit, initWritten_reparsed.mpr hinit⟩
  · exact .inr ⟨hrewritten.1, initWritten_reparsed.mpr (initWritten_rewritten hrewritten)⟩

theorem finiteElement_of_roundTrips (hx : RoundTrips h) : FiniteElement shape canonical h := by
  cases shape
  · exact .inl hx
  · exact .inl hx

theorem groupEdited_reparsed {old entries : List Json} (hold : Entries.get m "hooks" = some (.arr old))
    (hbeside : RoundTrips (.obj (Entries.set m "hooks" .null))) (hfinite : ∀ h ∈ old, FiniteEntry canonical h)
    (hne : entries ≠ []) (hedited : EntriesEdited canonical old entries) :
    GroupEdited canonical (.obj m) (Json.obj (Entries.set m "hooks" (.arr entries))).reparsed := by
  refine ⟨m, old, entries.map reparsed, rfl, hold, ?_, fun hnil => hne (List.map_eq_nil_iff.mp hnil),
    entriesEdited_reparsed hfinite hedited⟩
  rw [reparsed_obj, set_reparsed, reparsed_arr, set_beside hbeside]

theorem listEdited_reparsed (hfinite : ∀ x ∈ l, FiniteElement shape canonical x) (h : ListEdited shape canonical l l') :
    ListEdited shape canonical l (l'.map reparsed) := by
  cases shape with
  | cursor => exact entriesEdited_reparsed hfinite h
  | claude =>
    refine Edited.map (fun g hg g' hkeep => ?_) (fun g => initGroup_reparsed) h
    rcases hfinite g hg with hround | hinit | ⟨m, old, rfl, hold, hbeside, hentries⟩
    · rcases hkeep with rfl | ⟨m, old, entries, rfl, hold, rfl, hne, hedited⟩
      · exact .inl (.inl hround.symm)
      · have hbeside : RoundTrips (.obj (Entries.set m "hooks" .null)) :=
          roundTrips_set (v := .arr old) (by rw [Entries.set_of_get hold]; exact hround) rfl
        have hentries : ∀ h ∈ old, FiniteEntry canonical h :=
          fun h hh => .inl (roundTrips_arr.mp (roundTrips_get hround hold) h hh)
        exact .inl (.inr (groupEdited_reparsed hold hbeside hentries hne hedited))
    · rcases hkeep with rfl | hedited
      · exact .inr ⟨hinit, initGroup_reparsed hinit⟩
      · exact .inr ⟨hinit, initGroup_reparsed (initGroup_edited hinit hedited)⟩
    · rcases hkeep with rfl | ⟨m₁, old₁, entries, heq, hold₁, rfl, hne, hedited⟩
      · by_cases hnil : old = []
        · refine .inl (.inl ?_)
          rw [reparsed_obj, ← Entries.set_of_get hold, set_reparsed, set_beside hbeside, hnil]
          rfl
        · have hsame := groupEdited_reparsed hold hbeside hentries hnil (Edited.refl fun a _ => .inl rfl)
          rw [Entries.set_of_get hold] at hsame
          exact .inl (.inr hsame)
      · cases heq
        rw [hold] at hold₁
        cases hold₁
        exact .inl (.inr (groupEdited_reparsed hold hbeside hentries hne hedited))

theorem eventEdited_reparsed (hone : ∀ c c' event, (c, event) ∈ events → (c', event) ∈ events → c = c')
    (hfinite : ∀ v, old = some v → FiniteEvent shape events event v)
    (h : EventEdited shape events event old (some w)) : EventEdited shape events event old (some w.reparsed) := by
  obtain ⟨canonical, hmem, l, l', hold, hnew, hlist⟩ := h
  have helements : ∀ x ∈ l, FiniteElement shape canonical x := by
    rcases hold with ⟨-, rfl⟩ | hold
    · exact fun x hx => (by cases hx)
    · rcases hfinite _ hold with hround | ⟨c, hc, l₁, heq, hall⟩
      · exact fun x hx => finiteElement_of_roundTrips (roundTrips_arr.mp hround x hx)
      · cases heq
        rw [hone canonical c event hmem hc]
        exact hall
  rcases hnew with ⟨hnone, -⟩ | hnew
  · cases hnone
  · rw [Option.some_inj.mp hnew, reparsed_arr]
    exact ⟨canonical, hmem, l, _, hold, .inr rfl, listEdited_reparsed helements hlist⟩

theorem hooksEdited_reparsed (hone : ∀ c c' event, (c, event) ∈ events → (c', event) ∈ events → c = c')
    (hfinite : ∀ e ∈ hm, FiniteEvent shape events e.1 e.2) (h : EditedMembers (EventEdited shape events) hm hm') :
    EditedMembers (EventEdited shape events) hm (reparsedMembers hm') := by
  rw [reparsedMembers_eq]
  refine h.map ?_ ?_ fun k w => eventEdited_reparsed hone fun v hv => (by cases hv)
  · intro e he
    rcases hfinite e he with hround | ⟨canonical, hmem, l, hl, hall⟩
    · exact .inl hround.symm
    · refine .inr ⟨canonical, hmem, l, l.map reparsed, .inr (congrArg some hl), .inr ?_, ?_⟩
      · rw [hl, reparsed_arr]
      · exact listEdited_reparsed hall (listEdited_refl l)
  · intro e he w
    refine eventEdited_reparsed hone fun v hv => ?_
    rw [← Option.some_inj.mp hv]
    exact hfinite e he

theorem settingEdited_reparsed (hone : ∀ c c' event, (c, event) ∈ events → (c', event) ∈ events → c = c')
    (hfinite : ∀ v, old = some v → FiniteMember shape events k v) (h : SettingEdited shape events k old (some w)) :
    SettingEdited shape events k old (some w.reparsed) := by
  rcases h with ⟨hk, hnull, hone⟩ | ⟨hk, hm, hm', hold, hnew, hmembers⟩
  · refine .inl ⟨hk, hnull, ?_⟩
    rw [Option.some_inj.mp hone]
    rfl
  · have hevents : ∀ e ∈ hm, FiniteEvent shape events e.1 e.2 := by
      rcases hold with ⟨-, rfl⟩ | hold
      · exact fun e he => (by cases he)
      · rcases hfinite _ hold with hround | ⟨-, hm₁, heq, hall⟩
        · exact fun e he => .inl (roundTrips_obj.mp hround e he)
        · cases heq
          exact hall
    rw [Option.some_inj.mp hnew, reparsed_obj]
    exact .inr ⟨hk, hm, _, hold, rfl, hooksEdited_reparsed hone hevents hmembers⟩

/-- Settings that are kept are kept in the file written. -/
theorem settingsKept_reparsed (hone : ∀ c c' event, (c, event) ∈ events → (c', event) ∈ events → c = c')
    (hfinite : FiniteBeside shape events v) (h : SettingsKept shape events v v') :
    SettingsKept shape events v v'.reparsed := by
  have hmembers : ∀ {m m'}, (∀ e ∈ m, FiniteMember shape events e.1 e.2) →
      EditedMembers (SettingEdited shape events) m m' →
      EditedMembers (SettingEdited shape events) m (reparsedMembers m') := by
    intro m m' hall hedited
    rw [reparsedMembers_eq]
    refine hedited.map ?_ ?_ fun k w => settingEdited_reparsed hone fun v hv => (by cases hv)
    · intro e he
      rcases hall e he with hround | ⟨hk, hm, hobj, hevents⟩
      · exact .inl hround.symm
      · refine .inr (.inr ⟨hk, hm, reparsedMembers hm, .inr (congrArg some hobj), ?_, ?_⟩)
        · rw [hobj, reparsed_obj]
        · exact hooksEdited_reparsed hone hevents (EditedMembers.refl hm)
    · intro e he w
      refine settingEdited_reparsed hone fun v hv => ?_
      rw [← Option.some_inj.mp hv]
      exact hall e he
  rcases h with rfl | ⟨m, m', rfl, rfl, hedited⟩
  · rcases hfinite with hround | ⟨m, rfl, hall⟩
    · exact .inl hround.symm
    · exact .inr ⟨m, _, rfl, reparsed_obj m, hmembers hall (EditedMembers.refl m)⟩
  · refine .inr ⟨m, _, rfl, reparsed_obj m', hmembers ?_ hedited⟩
    rcases hfinite with hround | ⟨m₁, heq, hall⟩
    · exact fun e he => .inl (roundTrips_obj.mp hround e he)
    · cases heq
      exact hall

/-! ### And only these -/

theorem finiteEntry_of_edited (hround : ∀ h ∈ l', RoundTrips h) (h : EntriesEdited canonical l l') :
    ∀ h ∈ l, FiniteEntry canonical h := by
  intro a ha
  rcases h.mem ha with hdrop | ⟨b, hb, rfl | hrewritten⟩
  · exact .inr hdrop
  · exact .inl (hround a hb)
  · exact .inr hrewritten.1

theorem finiteElement_of_edited (hround : ∀ x ∈ l', RoundTrips x) (h : ListEdited shape canonical l l') :
    ∀ x ∈ l, FiniteElement shape canonical x := by
  cases shape with
  | cursor => exact finiteEntry_of_edited hround h
  | claude =>
    intro g hg
    rcases Edited.mem h hg with hdrop | ⟨g', hg', rfl | ⟨m, old, entries, rfl, hold, rfl, -, hedited⟩⟩
    · exact .inr (.inl hdrop)
    · exact .inl (hround g hg')
    · have hentries : RoundTrips (.arr entries) := roundTrips_get (hround _ hg') (by rw [Entries.get_set, if_pos rfl])
      refine .inr (.inr ⟨m, old, rfl, hold, roundTrips_set (hround _ hg') rfl, ?_⟩)
      exact finiteEntry_of_edited (roundTrips_arr.mp hentries) hedited

theorem finiteEvent_of_edited (hround : RoundTrips (.obj hm')) (h : EditedMembers (EventEdited shape events) hm hm') :
    ∀ e ∈ hm, FiniteEvent shape events e.1 e.2 := by
  have hgone : ∀ {event v canonical l l'}, (canonical, event) ∈ events →
      nullish (some v) = true ∧ l = [] ∨ some v = some (.arr l) →
      ListEdited shape canonical l l' → (∀ x ∈ l', RoundTrips x) → FiniteEvent shape events event v := by
    intro event v canonical l l' hmem hold hlist hall
    rcases hold with ⟨hnull, -⟩ | hold
    · cases v with
      | null => exact .inl rfl
      | _ => cases hnull
    · exact .inr ⟨canonical, hmem, l, Option.some_inj.mp hold, finiteElement_of_edited hall hlist⟩
  intro e he
  rcases Edited.mem h he with ⟨canonical, hmem, l, l', hold, hnew, hlist⟩ |
    ⟨e', he', hkey, heq | ⟨canonical, hmem, l, l', hold, hnew, hlist⟩⟩
  · rcases hnew with ⟨-, -, rfl⟩ | hnew
    · exact hgone hmem hold hlist fun x hx => (by cases hx)
    · cases hnew
  · exact .inl (heq ▸ roundTrips_obj.mp hround e' he')
  · rcases hnew with ⟨hnone, -⟩ | hnew
    · cases hnone
    · refine hgone hmem hold hlist (roundTrips_arr.mp ?_)
      rw [← Option.some_inj.mp hnew]
      exact roundTrips_obj.mp hround e' he'

theorem finiteBeside_of_kept (hround : RoundTrips v') (h : SettingsKept shape events v v') :
    FiniteBeside shape events v := by
  rcases h with rfl | ⟨m, m', rfl, rfl, hedited⟩
  · exact .inl hround
  · refine .inr ⟨m, rfl, fun e he => ?_⟩
    rcases Edited.mem hedited he with (⟨-, -, hnone⟩ | ⟨-, _, _, -, hnone, -⟩) |
      ⟨e', he', hkey, heq | ⟨-, hnull, -⟩ | ⟨hk, hm, hm', hold, hnew, hmembers⟩⟩
    · cases hnone
    · cases hnone
    · exact .inl (heq ▸ roundTrips_obj.mp hround e' he')
    · obtain ⟨k, v⟩ := e
      cases v with
      | null => exact .inl rfl
      | _ => cases hnull
    · rcases hold with ⟨hnull, -⟩ | hold
      · obtain ⟨k, v⟩ := e
        cases v with
        | null => exact .inl rfl
        | _ => cases hnull
      · refine .inr ⟨hk, hm, Option.some_inj.mp hold, finiteEvent_of_edited ?_ hmembers⟩
        rw [← Option.some_inj.mp hnew]
        exact roundTrips_obj.mp hround e' he'

end

/-! ## What the steps of an install edit -/

section
variable {shape : Shape} {canonical event command : String} {events : List String} {l : List Json}
  {m hm : List (String × Json)} {g h x settings : Json}

theorem keptGroup_edited (hg : Group g)
    (hours : ∀ h ∈ groupEntries g, ours canonical h = true → InitWritten canonical h)
    {g' : Json} (hkept : keptGroup canonical g = some g') : GroupEdited canonical g g' := by
  obtain ⟨m, rfl, hhooks⟩ := hg
  rw [keptGroup] at hkept
  by_cases hnil : (groupEntries (.obj m)).filter (fun h => !ours canonical h) = []
  · simp only [hnil, if_true] at hkept
    cases hkept
  · simp only [hnil, if_false, Option.some_inj] at hkept
    have hget : Entries.get m "hooks" = some (.arr (groupEntries (.obj m))) := by
      rcases hhooks with hnull | ⟨entries, hentries, -⟩
      · refine absurd ?_ hnil
        rw [groupEntries]
        split
        · next entries hget =>
          rw [hget] at hnull
          cases hnull
        · rfl
      · rw [groupEntries_of_get hentries, hentries]
    refine ⟨m, _, _, rfl, hget, hkept.symm, hnil, Edited.filter (fun a => .inl rfl) ?_⟩
    intro h hh hfalse
    exact hours h hh (by simpa using hfalse)

/-- A removal edits a list where it takes init's entries only and finds no group without entries. -/
theorem keptOf_edited (hl : ∀ x ∈ l, Element shape x)
    (hours : ∀ h ∈ entriesOf shape l, ours canonical h = true → InitWritten canonical h)
    (hgroups : shape = .claude → ∀ g ∈ l, groupEntries g ≠ []) :
    ListEdited shape canonical l (keptOf canonical shape l) := by
  cases shape with
  | cursor =>
    refine Edited.filter (fun a => .inl rfl) ?_
    intro h hh hfalse
    exact hours h hh (by simpa using hfalse)
  | claude =>
    have hgroup : ∀ g ∈ l, ∀ h ∈ groupEntries g, ours canonical h = true → InitWritten canonical h :=
      fun g hg h hh => hours h (List.mem_flatMap.mpr ⟨g, hg, hh⟩)
    apply Edited.filterMap
    · intro g hg g' hkept
      exact .inr (keptGroup_edited (hl g hg) (hgroup g hg) hkept)
    · intro g hg hnone
      refine ⟨hgroups rfl g hg, fun h hh => hgroup g hg h hh ?_⟩
      have hnil := List.filter_eq_nil_iff.mp (keptGroup_none (hl g hg) hnone) h hh
      simpa using hnil

theorem remove_kept (canonical event : String) (hs : HookLists shape events settings)
    (he : event ∈ events) (hkeyed : KeyedSettings settings)
    (hours : ∀ h ∈ entriesAt shape settings event, ours canonical h = true → InitWritten canonical h)
    (hgroups : shape = .claude → (∃ h ∈ entriesAt shape settings event, ours canonical h = true) →
      ∀ g ∈ listIn (hookMembers settings) event, groupEntries g ≠ []) :
    ∃ removed settings', remove shape settings event canonical = .ok (removed, settings') ∧
      SettingsKept shape [(canonical, event)] settings settings' := by
  have hall := listed_elements hs he
  obtain ⟨m, rfl, hhooks, hlists⟩ := hs
  rcases remove_cases canonical event ⟨m, rfl, hhooks, hlists⟩ he
    with ⟨-, hremove⟩ | ⟨hm, l, hget, hlist, hany, hremove⟩
  · exact ⟨_, _, hremove, .inl rfl⟩
  · have hmembers : hookMembers (.obj m) = hm := by rw [hookMembers, hget]
    have hin : listIn (hookMembers (.obj m)) event = l := by rw [hmembers, listIn, hlist]
    have hhm : Entries.Keyed hm := hmembers ▸ (hkeyed m rfl).2
    rw [hin] at hall hgroups
    rw [entriesAt, hin] at hours hany hgroups
    rw [List.any_eq_true] at hany
    have hedited := keptOf_edited hall hours fun hshape => hgroups hshape hany
    refine ⟨_, _, hremove, settingsKept_hooks ?_ hhooks⟩
    have hne : l ≠ [] := by
      obtain ⟨h, hh, -⟩ := hany
      rintro rfl
      cases shape <;> cases hh
    rw [hmembers, putEvent]
    by_cases hnil : keptOf canonical shape l = []
    · rw [if_pos hnil]
      rw [hnil] at hedited
      apply EditedMembers.delete_get hhm
      intro v hv
      rw [hlist] at hv
      exact ⟨canonical, List.mem_cons_self, l, [], .inr hv.symm, .inl ⟨rfl, hne, rfl⟩, hedited⟩
    · rw [if_neg hnil]
      apply EditedMembers.set_get
      exact ⟨canonical, List.mem_cons_self, l, _, .inr hlist, .inr rfl, hedited⟩

theorem upserted_edited (hwritten : Written canonical command) (hfirst : ∀ front x back, l = front ++ x :: back →
    (∀ y ∈ front, ours canonical y = false) → ours canonical x = true → InitWritten canonical x) :
    EntriesEdited canonical l (upserted canonical command l) := by
  rw [upserted]
  cases hrewrite : rewriteFirst canonical command l with
  | none => exact Edited.concat (fun a => .inl rfl) ⟨command, rfl, hwritten⟩
  | some l' =>
    obtain ⟨front, x, back, rfl, hfront, hx, rfl⟩ := rewriteFirst_some hrewrite
    exact Edited.single (fun a => .inl rfl) (.inr ⟨hfirst front x back rfl hfront hx, command, hwritten, rfl⟩)

theorem hookMembers_versioned : hookMembers (.obj (versioned m)) = hookMembers (.obj m) := by
  rw [hookMembers, hookMembers, get_versioned (by decide)]

theorem withList_kept (hs : HookLists .cursor events (.obj m)) (he : event ∈ events)
    (hedited : EntriesEdited canonical (listIn (hookMembers (.obj m)) event) l) :
    SettingsKept .cursor [(canonical, event)] (.obj m) (withList m event l) := by
  obtain ⟨m₀, heq, hhooks, hlists⟩ := hs
  cases heq
  have hversion : SettingsKept .cursor [] (.obj m) (.obj (versioned m)) := by
    rw [versioned]
    by_cases hnull : nullish (Entries.get m "version") = true
    · rw [if_pos hnull]
      exact .inr ⟨_, _, rfl, rfl, EditedMembers.set_get (.inl ⟨rfl, hnull, rfl⟩)⟩
    · rw [if_neg hnull]
      exact .inl rfl
  refine settingsKept_trans (fun e he => (by cases he)) hversion (settingsKept_hooks ?_ ?_)
  · rw [hookMembers_versioned]
    apply EditedMembers.set_get
    refine ⟨canonical, List.mem_cons_self, _, l, ?_, .inr rfl, hedited⟩
    rcases hlists event he with hnull | ⟨l, hlist, -⟩
    · exact .inl ⟨hnull, listIn_of_nullish hnull⟩
    · refine .inr ?_
      rw [listIn, hlist]
  · rw [get_versioned (by decide)]
    exact hhooks

end

end Cyberlegion.Init
