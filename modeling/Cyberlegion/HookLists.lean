import Cyberlegion.HookCommands
import Cyberlegion.Reparsed

/-!
# Hook lists of the vendor's shape

What a removal and an upsert do to settings whose hook lists have the vendor's shape.
-/

namespace Cyberlegion.Init

open Json

/-! ## The entries of an event -/

def commandOf : Json → Option String
  | .obj m =>
    match Entries.get m "command" with
    | some (.str command) => some command
    | _ => none
  | _ => none

def groupEntries : Json → List Json
  | .obj m =>
    match Entries.get m "hooks" with
    | some (.arr entries) => entries
    | _ => []
  | _ => []

def hookMembers : Json → List (String × Json)
  | .obj m =>
    match Entries.get m "hooks" with
    | some (.obj hm) => hm
    | _ => []
  | _ => []

def listIn (hm : List (String × Json)) (event : String) : List Json :=
  match Entries.get hm event with
  | some (.arr l) => l
  | _ => []

def entriesOf : Shape → List Json → List Json
  | .claude, l => l.flatMap groupEntries
  | .cursor, l => l

def entriesAt (shape : Shape) (settings : Json) (event : String) : List Json :=
  entriesOf shape (listIn (hookMembers settings) event)

/-! ## The vendor's shape -/

/-- An entry: an object whose command, where it has one, is a text. -/
def Entry (h : Json) : Prop :=
  ∃ m, h = .obj m ∧ (Entries.get m "command" = none ∨ ∃ command, Entries.get m "command" = some (.str command))

/-- A group: an object with a list of entries, which may be missing. -/
def Group (g : Json) : Prop :=
  ∃ m, g = .obj m ∧ (nullish (Entries.get m "hooks") = true ∨
    ∃ entries, Entries.get m "hooks" = some (.arr entries) ∧ ∀ h ∈ entries, Entry h)

def Element : Shape → Json → Prop
  | .claude, g => Group g
  | .cursor, h => Entry h

/-- An event's list is of the vendor's shape or missing. -/
def Listed (shape : Shape) (v : Option Json) : Prop :=
  nullish v = true ∨ ∃ l, v = some (.arr l) ∧ ∀ x ∈ l, Element shape x

/-- The settings are an object whose lists under some event keys are of the vendor's shape. -/
def HookLists (shape : Shape) (events : List String) (settings : Json) : Prop :=
  ∃ m, settings = .obj m ∧ (nullish (Entries.get m "hooks") = true ∨ ∃ hm, Entries.get m "hooks" = some (.obj hm)) ∧
    ∀ event ∈ events, Listed shape (Entries.get (hookMembers settings) event)

/-- The settings and their hooks have each key once. -/
def KeyedSettings (settings : Json) : Prop :=
  ∀ m, settings = .obj m → Entries.Keyed m ∧ Entries.Keyed (hookMembers (.obj m))

/-- An entry that the code takes for one of init's. -/
def ours (canonical : String) (h : Json) : Bool := (commandOf h).any fun command => hookTarget command = some canonical

/-! ## Removing -/

section
variable {canonical event : String} {h g settings : Json} {l : List Json} {m hm : List (String × Json)} {shape : Shape}

theorem isOurs_entry (canonical : String) (hh : Entry h) :
    (h.prop "command").bind (isOurs · canonical) = .ok (ours canonical h) := by
  obtain ⟨m, rfl, hnone | ⟨command, hcommand⟩⟩ := hh
  · simp [prop, isOurs, ours, commandOf, hnone, Except.bind, pure, Except.pure]
  · simp [prop, isOurs, ours, commandOf, targetOf, hcommand, Except.bind, bind, pure, Except.pure]

theorem filterOurs_eq (canonical : String) (hl : ∀ h ∈ l, Entry h) :
    filterOurs canonical l = .ok (l.filter fun h => !ours canonical h) := by
  induction l with
  | nil => rfl
  | cons h l ih =>
    have hours := isOurs_entry canonical (hl h List.mem_cons_self)
    have hrest := ih fun x hx => hl x (List.mem_cons_of_mem _ hx)
    obtain ⟨given, hgiven⟩ : ∃ given, h.prop "command" = .ok given := by
      cases hp : h.prop "command" with
      | ok given => exact ⟨given, rfl⟩
      | error e => rw [hp] at hours; cases hours
    rw [hgiven] at hours
    have hours' : isOurs given canonical = .ok (ours canonical h) := hours
    rw [filterOurs, hgiven]
    simp only [bind, Except.bind, hours', hrest, pure, Except.pure]
    by_cases ho : ours canonical h = true
    · rw [if_pos ho, List.filter_cons_of_neg (by simp [ho])]
    · rw [if_neg ho, List.filter_cons_of_pos (by simpa using ho)]

/-- What is left of a group; a group left without entries goes. -/
def keptGroup (canonical : String) : Json → Option Json
  | .obj m =>
    let entries := (groupEntries (.obj m)).filter fun h => !ours canonical h
    if entries = [] then none else some (.obj (Entries.set m "hooks" (.arr entries)))
  | _ => none

theorem length_filter_ne_iff {p : Json → Bool} : (l.filter p).length ≠ l.length ↔ l.any (fun h => !p h) = true := by
  rw [Ne, List.length_filter_eq_length_iff, List.any_eq_true]
  simp

/-- The list of a group, through `?? []`. -/
theorem orEmpty_group (hg : nullish (Entries.get m "hooks") = true ∨
    ∃ entries, Entries.get m "hooks" = some (.arr entries) ∧ ∀ h ∈ entries, Entry h) :
    orEmpty (Entries.get m "hooks") = .ok (groupEntries (.obj m)) ∧ ∀ h ∈ groupEntries (.obj m), Entry h := by
  rcases hg with hnull | ⟨entries, hentries, hall⟩
  · have hnil : groupEntries (.obj m) = [] := by
      rw [groupEntries]
      split
      · next entries hget =>
        rw [hget] at hnull
        cases hnull
      · rfl
    rw [orEmpty, if_pos hnull, hnil]
    exact ⟨rfl, fun h hh => by cases hh⟩
  · have hlist : groupEntries (.obj m) = entries := by rw [groupEntries, hentries]
    rw [hlist, hentries]
    exact ⟨rfl, hall⟩

theorem keepGroup_eq (hg : Group g) :
    keepGroup canonical g = .ok ((groupEntries g).any (ours canonical), (keptGroup canonical g).toList) := by
  obtain ⟨m, rfl, hhooks⟩ := hg
  obtain ⟨hlist, hall⟩ := orEmpty_group hhooks
  have hremoved : decide (((groupEntries (.obj m)).filter fun h => !ours canonical h).length ≠
      (groupEntries (.obj m)).length) =
      (groupEntries (.obj m)).any (ours canonical) := by
    rw [Bool.eq_iff_iff, decide_eq_true_eq, length_filter_ne_iff]
    simp only [Bool.not_not]
  rw [keepGroup]
  simp only [prop, bind, Except.bind, pure, Except.pure, hlist, filterOurs_eq canonical hall, hremoved, keptGroup]
  by_cases hnil : (groupEntries (.obj m)).filter (fun h => !ours canonical h) = []
  · rw [if_pos hnil, if_pos hnil]
    rfl
  · rw [if_neg hnil, if_neg hnil]
    rfl

theorem keptGroups_eq (hl : ∀ g ∈ l, Group g) : keptGroups canonical l =
    .ok (l.any fun g => (groupEntries g).any (ours canonical), l.filterMap (keptGroup canonical)) := by
  induction l with
  | nil => rfl
  | cons g l ih =>
    have hrest := ih fun x hx => hl x (List.mem_cons_of_mem _ hx)
    rw [keptGroups, keepGroup_eq (hl g List.mem_cons_self), hrest]
    cases hkept : keptGroup canonical g <;> simp [bind, Except.bind, pure, Except.pure, hkept]

def keptOf (canonical : String) : Shape → List Json → List Json
  | .claude, l => l.filterMap (keptGroup canonical)
  | .cursor, l => l.filter fun h => !ours canonical h

/-- An event's list put back; an empty list goes. -/
def putEvent (hm : List (String × Json)) (event : String) (kept : List Json) : List (String × Json) :=
  if kept = [] then Entries.delete hm event else Entries.set hm event (.arr kept)

theorem remove_absent (hm : nullish (Entries.get m "hooks") = true ∨
    ∃ hm, Entries.get m "hooks" = some (.obj hm) ∧ nullish (Entries.get hm event) = true) :
    remove shape (.obj m) event canonical = .ok (false, .obj m) := by
  have hfalsy : ∀ v, nullish v = true → falsy v = true := by
    intro v hv
    rcases v with - | v
    · rfl
    · cases v <;> first | rfl | cases hv
  have hread : ∃ hooks list, hooksOf (.obj m) event = .ok (hooks, list) ∧ (falsy hooks || falsy list) = true := by
    rcases hm with hnull | ⟨hm, hhooks, hnull⟩
    · refine ⟨Entries.get m "hooks", none, ?_, by rw [hfalsy _ hnull]; rfl⟩
      simp only [hooksOf, prop, bind, Except.bind, pure, Except.pure, hnull, if_true]
    · refine ⟨some (.obj hm), Entries.get hm event, ?_, by rw [hfalsy _ hnull, Bool.or_true]⟩
      simp [hooksOf, prop, bind, Except.bind, pure, Except.pure, hhooks, nullish]
  obtain ⟨hooks, list, hread, hskip⟩ := hread
  cases shape
  · simp only [remove, removeClaude, hread, bind, Except.bind, hskip, if_true, pure, Except.pure]
  · simp only [remove, removeCursor, hread, bind, Except.bind, hskip, if_true, pure, Except.pure]

theorem remove_list (hhooks : Entries.get m "hooks" = some (.obj hm)) (hlist : Entries.get hm event = some (.arr l))
    (hl : ∀ x ∈ l, Element shape x) : remove shape (.obj m) event canonical =
      .ok (if (entriesOf shape l).any (ours canonical) = true then
        (true, .obj (Entries.set m "hooks" (.obj (putEvent hm event (keptOf canonical shape l)))))
          else (false, .obj m)) := by
  have hread : hooksOf (.obj m) event = .ok (some (.obj hm), some (.arr l)) := by
    simp [hooksOf, prop, bind, Except.bind, pure, Except.pure, hhooks, hlist, nullish]
  cases shape with
  | claude =>
    have hany : (l.any fun g => (groupEntries g).any (ours canonical)) =
        (l.flatMap groupEntries).any (ours canonical) :=
      List.any_flatMap.symm
    simp only [remove, removeClaude, hread, bind, Except.bind, falsy, Bool.or_self, Bool.false_eq_true,
      if_false, iterate,
      Option.getD_some, keptGroups_eq hl, pure, Except.pure, hany, entriesOf, keptOf]
    by_cases hours : (l.flatMap groupEntries).any (ours canonical) = true
    · simp only [hours, Bool.not_true, Bool.false_eq_true, if_false, if_true]
      rfl
    · simp [hours]
  | cursor =>
    have hfilter := filterOurs_eq canonical hl
    have hlength := length_filter_ne_iff (l := l) (p := fun h => !ours canonical h)
    simp only [Bool.not_not] at hlength
    by_cases hours : (entriesOf .cursor l).any (ours canonical) = true
    · rw [if_pos hours]
      simp only [remove, removeCursor, hread, bind, Except.bind, falsy, Bool.or_self, Bool.false_eq_true,
        if_false, asArray,
        Option.getD_some, hfilter, pure, Except.pure, hlength.mpr hours]
      rfl
    · have hsame := not_not.mp (mt hlength.mp hours)
      rw [if_neg hours]
      simp only [remove, removeCursor, hread, bind, Except.bind, falsy, Bool.or_self, Bool.false_eq_true,
        if_false, asArray,
        Option.getD_some, hfilter, pure, Except.pure, hsame, if_true]

theorem keptGroup_some (hg : Group g) {g' : Json} (hkept : keptGroup canonical g = some g') :
    Group g' ∧ groupEntries g' = (groupEntries g).filter fun h => !ours canonical h := by
  obtain ⟨m, rfl, hhooks⟩ := hg
  rw [keptGroup] at hkept
  by_cases hnil : (groupEntries (.obj m)).filter (fun h => !ours canonical h) = []
  · simp only [hnil, if_true] at hkept
    cases hkept
  · simp only [hnil, if_false, Option.some_inj] at hkept
    subst hkept
    have hget : Entries.get
        (Entries.set m "hooks" (.arr ((groupEntries (.obj m)).filter fun h => !ours canonical h))) "hooks" =
        some (.arr ((groupEntries (.obj m)).filter fun h => !ours canonical h)) := by
      rw [Entries.get_set, if_pos rfl]
    refine ⟨⟨_, rfl, .inr ⟨_, hget, ?_⟩⟩, ?_⟩
    · intro h hh
      exact (orEmpty_group hhooks).2 h (List.mem_of_mem_filter hh)
    · rw [groupEntries, hget]

theorem keptGroup_none (hg : Group g) (hkept : keptGroup canonical g = none) :
    (groupEntries g).filter (fun h => !ours canonical h) = [] := by
  obtain ⟨m, rfl, -⟩ := hg
  rw [keptGroup] at hkept
  by_contra hne
  simp only [hne, if_false] at hkept
  cases hkept

theorem keptOf_spec (canonical : String) (hl : ∀ x ∈ l, Element shape x) :
    (∀ x ∈ keptOf canonical shape l, Element shape x) ∧
    entriesOf shape (keptOf canonical shape l) = (entriesOf shape l).filter fun h => !ours canonical h := by
  cases shape with
  | cursor => exact ⟨fun x hx => hl x (List.mem_of_mem_filter hx), rfl⟩
  | claude =>
    constructor
    · intro g' hg'
      obtain ⟨g, hg, hkept⟩ := List.mem_filterMap.mp hg'
      exact (keptGroup_some (hl g hg) hkept).1
    · show ((l.filterMap (keptGroup canonical)).flatMap groupEntries) = (l.flatMap groupEntries).filter _
      rw [List.filter_flatMap]
      induction l with
      | nil => rfl
      | cons g l ih =>
        have hrest := ih fun x hx => hl x (List.mem_cons_of_mem _ hx)
        cases hkept : keptGroup canonical g with
        | none =>
          rw [List.filterMap_cons_none hkept, List.flatMap_cons, keptGroup_none (hl g List.mem_cons_self) hkept, hrest]
          rfl
        | some g' =>
          rw [List.filterMap_cons_some hkept, List.flatMap_cons, List.flatMap_cons,
            (keptGroup_some (hl g List.mem_cons_self) hkept).2, hrest]

theorem get_putEvent (hm : List (String × Json)) (event other : String) (kept : List Json) :
    Entries.get (putEvent hm event kept) other =
      if other = event then (if kept = [] then none else some (.arr kept)) else Entries.get hm other := by
  rw [putEvent]
  by_cases hnil : kept = []
  · simp only [hnil, if_true]
    exact Entries.get_delete
  · simp only [hnil, if_false]
    exact Entries.get_set

theorem keyed_putEvent (hk : Entries.Keyed hm) (kept : List Json) : Entries.Keyed (putEvent hm event kept) := by
  rw [putEvent]
  by_cases hnil : kept = []
  · rw [if_pos hnil]
    exact Entries.keyed_delete hk
  · rw [if_neg hnil]
    exact Entries.keyed_set hk

theorem hookMembers_set (hm : List (String × Json)) : hookMembers (.obj (Entries.set m "hooks" (.obj hm))) = hm := by
  have hget : Entries.get (Entries.set m "hooks" (Json.obj hm)) "hooks" = some (.obj hm) := by
    rw [Entries.get_set, if_pos rfl]
  rw [hookMembers, hget]

theorem keyedSettings_set (hk : Entries.Keyed m) (hhk : Entries.Keyed hm) :
    KeyedSettings (.obj (Entries.set m "hooks" (.obj hm))) := by
  intro m' hobj
  cases hobj
  rw [hookMembers_set]
  exact ⟨Entries.keyed_set hk, hhk⟩

theorem hookLists_set {hm : List (String × Json)} {events : List String}
    (hlists : ∀ event ∈ events, Listed shape (Entries.get hm event)) :
    HookLists shape events (.obj (Entries.set m "hooks" (.obj hm))) := by
  refine ⟨_, rfl, .inr ⟨hm, by rw [Entries.get_set, if_pos rfl]⟩, ?_⟩
  rw [hookMembers_set]
  exact hlists

theorem listIn_of_nullish (h : nullish (Entries.get hm event) = true) : listIn hm event = [] := by
  rw [listIn]
  split
  · next l hget =>
    rw [hget] at h
    cases h
  · rfl

/-- A list that a removal looks at: rewritten where it holds an entry of init's. -/
def leftOf (canonical : String) (shape : Shape) (l : List Json) : List Json :=
  if (entriesOf shape l).any (ours canonical) = true then keptOf canonical shape l else l

theorem entriesOf_leftOf (hl : ∀ x ∈ l, Element shape x) :
    entriesOf shape (leftOf canonical shape l) = (entriesOf shape l).filter fun h => !ours canonical h := by
  rw [leftOf]
  by_cases hours : (entriesOf shape l).any (ours canonical) = true
  · rw [if_pos hours, (keptOf_spec canonical hl).2]
  · rw [if_neg hours]
    rw [Bool.not_eq_true, List.any_eq_false] at hours
    refine (List.filter_eq_self.mpr fun h hh => ?_).symm
    simpa using hours h hh

theorem listed_elements {events : List String} (hs : HookLists shape events settings) (he : event ∈ events) :
    ∀ x ∈ listIn (hookMembers settings) event, Element shape x := by
  obtain ⟨m, -, -, hlists⟩ := hs
  intro x hx
  rcases hlists event he with hnull | ⟨l, hlist, hl⟩
  · rw [listIn_of_nullish hnull] at hx
    cases hx
  · rw [listIn, hlist] at hx
    exact hl x hx

theorem remove_cases (canonical event : String) {events : List String} (hs : HookLists shape events (.obj m))
    (he : event ∈ events) :
    ((entriesAt shape (.obj m) event).any (ours canonical) = false ∧
      remove shape (.obj m) event canonical = .ok (false, .obj m)) ∨
    ∃ hm l, Entries.get m "hooks" = some (.obj hm) ∧ Entries.get hm event = some (.arr l) ∧
      (entriesAt shape (.obj m) event).any (ours canonical) = true ∧ remove shape (.obj m) event canonical =
        .ok (true, .obj (Entries.set m "hooks" (.obj (putEvent hm event (keptOf canonical shape l))))) := by
  have hnil : entriesOf shape [] = [] := by cases shape <;> rfl
  have hall := listed_elements hs he
  obtain ⟨m₀, heq, hhooks, hlists⟩ := hs
  cases heq
  by_cases habsent : nullish (Entries.get m "hooks") = true ∨
      ∃ hm, Entries.get m "hooks" = some (.obj hm) ∧ nullish (Entries.get hm event) = true
  · refine .inl ⟨?_, remove_absent habsent⟩
    rw [entriesAt, listIn_of_nullish, hnil]
    · rfl
    · rcases habsent with hnull | ⟨hm, hget, hnull⟩
      · rw [hookMembers]
        split
        · next hm hget =>
          rw [hget] at hnull
          cases hnull
        · rfl
      · rw [hookMembers, hget]
        exact hnull
  · rw [not_or] at habsent
    obtain ⟨hm, hget⟩ := hhooks.resolve_left habsent.1
    have hmembers : hookMembers (.obj m) = hm := by rw [hookMembers, hget]
    have hlisted := hlists event he
    rw [hmembers] at hlisted
    obtain ⟨l, hlist, hl⟩ := hlisted.resolve_left fun hnull => habsent.2 ⟨hm, hget, hnull⟩
    have hentries : entriesAt shape (.obj m) event = entriesOf shape l := by rw [entriesAt, hmembers, listIn, hlist]
    rw [hentries, remove_list hget hlist hl]
    by_cases hours : (entriesOf shape l).any (ours canonical) = true
    · rw [if_pos hours]
      exact .inr ⟨hm, l, hget, hlist, hours, rfl⟩
    · rw [if_neg hours]
      exact .inl ⟨by simpa using hours, rfl⟩

theorem remove_spec (canonical event : String) {events : List String} (hs : HookLists shape events settings)
    (he : event ∈ events) :
    ∃ settings', remove shape settings event canonical =
        .ok ((entriesAt shape settings event).any (ours canonical), settings') ∧
      listIn (hookMembers settings') event = leftOf canonical shape (listIn (hookMembers settings) event) ∧
      (∀ other, other ≠ event → listIn (hookMembers settings') other = listIn (hookMembers settings) other) ∧
      HookLists shape events settings' ∧ (KeyedSettings settings → KeyedSettings settings') ∧
      ((entriesAt shape settings event).any (ours canonical) = false → settings' = settings) := by
  obtain ⟨m, rfl, hhooks, hlists⟩ := hs
  have hs : HookLists shape events (.obj m) := ⟨m, rfl, hhooks, hlists⟩
  have hall := listed_elements hs he
  rcases remove_cases canonical event hs he with ⟨hnone, hremove⟩ | ⟨hm, l, hget, hlist, hours, hremove⟩
  · rw [hremove, hnone]
    refine ⟨_, rfl, ?_, fun _ _ => rfl, hs, id, fun _ => rfl⟩
    have hnone' : ¬(entriesOf shape (listIn (hookMembers (.obj m)) event)).any (ours canonical) = true := by
      rw [Bool.not_eq_true]
      exact hnone
    rw [leftOf, if_neg hnone']
  · have hmembers : hookMembers (.obj m) = hm := by rw [hookMembers, hget]
    have hin : listIn (hookMembers (.obj m)) event = l := by rw [hmembers, listIn, hlist]
    have hours' : (entriesOf shape l).any (ours canonical) = true := by
      rw [← hin]
      exact hours
    rw [hremove, hours]
    refine ⟨_, rfl, ?_, ?_, ?_, ?_, fun h => (by cases h)⟩
    · rw [hookMembers_set, hin, leftOf, if_pos hours', listIn, get_putEvent, if_pos rfl]
      by_cases hempty : keptOf canonical shape l = []
      · rw [if_pos hempty, hempty]
      · rw [if_neg hempty]
    · intro other hother
      rw [hookMembers_set, hmembers, listIn, listIn, get_putEvent, if_neg hother]
    · rw [hin] at hall
      refine hookLists_set fun other hother => ?_
      rw [get_putEvent]
      by_cases heq : other = event
      · rw [if_pos heq]
        by_cases hempty : keptOf canonical shape l = []
        · rw [if_pos hempty]
          exact .inl rfl
        · rw [if_neg hempty]
          exact .inr ⟨_, rfl, (keptOf_spec canonical hall).1⟩
      · rw [if_neg heq, ← hmembers]
        exact hlists other hother
    · intro hkeyed
      obtain ⟨hm₁, hhm⟩ := hkeyed m rfl
      exact keyedSettings_set hm₁ (keyed_putEvent (hmembers ▸ hhm) _)

end

/-! ## Adding -/

def setCommand (command : String) : Json → Json
  | .obj m => .obj (Entries.set m "command" (.str command))
  | v => v

/-- The first of init's entries gets the command. -/
def rewriteFirst (canonical command : String) : List Json → Option (List Json)
  | [] => none
  | h :: l => if ours canonical h = true then some (setCommand command h :: l)
      else (rewriteFirst canonical command l).map (h :: ·)

def upserted (canonical command : String) (l : List Json) : List Json :=
  (rewriteFirst canonical command l).getD (l ++ [.obj [("command", .str command)]])

section
variable {canonical command event k : String} {h settings x v : Json} {l l' : List Json} {m hm : List (String × Json)}
  {events : List String}

theorem ours_iff : ours canonical h = true ↔ ∃ command, commandOf h = some command ∧
    hookTarget command = some canonical := by
  simp [ours, Option.any_eq_true]

theorem ours_of_command (hh : commandOf h = some command) (htarget : hookTarget command = some canonical) :
    ours canonical h = true := ours_iff.mpr ⟨command, hh, htarget⟩

theorem commandOf_setCommand (hh : Entry h) : commandOf (setCommand command h) = some command := by
  obtain ⟨m, rfl, -⟩ := hh
  rw [setCommand, commandOf, Entries.get_set, if_pos rfl]

theorem entry_setCommand (hh : Entry h) : Entry (setCommand command h) := by
  obtain ⟨m, rfl, -⟩ := hh
  exact ⟨_, rfl, .inr ⟨command, by rw [Entries.get_set, if_pos rfl]⟩⟩

theorem commandOf_entry (hh : Entry h) : ∃ m, h = .obj m ∧ Entries.get m "command" = (commandOf h).map .str := by
  obtain ⟨m, rfl, hcommand⟩ := hh
  refine ⟨m, rfl, ?_⟩
  rcases hcommand with hnone | ⟨command, hsome⟩
  · rw [commandOf, hnone]
    rfl
  · rw [commandOf, hsome]
    rfl

/-- The search for init's entry looks at no entry without a command. -/
def Searchable (canonical : String) (l : List Json) : Prop :=
  ∀ front x back, l = front ++ x :: back → (∀ y ∈ front, ours canonical y = false) → commandOf x ≠ none

theorem searchable_cons :
    Searchable canonical (h :: l) ↔ commandOf h ≠ none ∧ (ours canonical h = false → Searchable canonical l) := by
  constructor
  · intro hall
    refine ⟨hall [] h l rfl fun y hy => (by cases hy), fun hours front x back hl hfront => ?_⟩
    exact hall (h :: front) x back (congrArg (h :: ·) hl) (List.forall_mem_cons.mpr ⟨hours, hfront⟩)
  · rintro ⟨hhead, htail⟩ front x back hl hfront
    cases front with
    | nil =>
      obtain ⟨rfl, -⟩ := List.cons.inj hl
      exact hhead
    | cons y front =>
      obtain ⟨rfl, hrest⟩ := List.cons.inj hl
      rw [List.forall_mem_cons] at hfront
      exact htail hfront.1 front x back hrest hfront.2

/-- The search throws at an entry without a command, and else finds the first of init's entries. -/
theorem presentIn_eq (hl : ∀ h ∈ l, Entry h) (htarget : hookTarget command = some canonical) :
    (Searchable canonical l → presentIn command l = .ok (rewriteFirst canonical command l)) ∧
      (¬Searchable canonical l → presentIn command l = .error .typeError) := by
  induction l with
  | nil => exact ⟨fun _ => rfl, fun h => absurd (fun front x back hl => by cases front <;> cases hl) h⟩
  | cons h l ih =>
    obtain ⟨hfound, hthrown⟩ := ih fun x hx => hl x (List.mem_cons_of_mem _ hx)
    obtain ⟨m, rfl, hgiven⟩ := commandOf_entry (hl h List.mem_cons_self)
    rw [searchable_cons, presentIn, rewriteFirst]
    cases hcommand : commandOf (.obj m) with
    | none =>
      rw [hcommand] at hgiven
      refine ⟨fun h => absurd rfl h.1, fun _ => ?_⟩
      simp only [prop, bind, Except.bind, pure, Except.pure, hgiven, Option.map_none, isText, htarget, targetOf,
        Option.isSome_some, if_true, Bool.false_eq_true, if_false]
      rfl
    | some given =>
      rw [hcommand] at hgiven
      simp only [prop, bind, Except.bind, pure, Except.pure, hgiven, Option.map_some, isText, htarget, targetOf,
        Option.isSome_some, if_true, decide_eq_true_eq]
      by_cases hsame : given = command
      · subst hsame
        have hours := ours_of_command hcommand htarget
        rw [if_pos rfl, if_pos hours, setCommand, Entries.set_of_get hgiven, hours]
        exact ⟨fun _ => rfl, fun h => absurd ⟨Option.some_ne_none _, fun h => (by cases h)⟩ h⟩
      · rw [if_neg hsame]
        by_cases htaken : hookTarget given = some canonical
        · have hours := ours_of_command hcommand htaken
          rw [if_pos htaken, if_pos hours, hours]
          exact ⟨fun _ => rfl, fun h => absurd ⟨Option.some_ne_none _, fun h => (by cases h)⟩ h⟩
        · have hours : ours canonical (.obj m) = false := by
            rw [← Bool.not_eq_true, ours_iff]
            rintro ⟨c, hc, ht⟩
            rw [hcommand, Option.some_inj] at hc
            exact htaken (hc ▸ ht)
          rw [if_neg htaken, hours, if_neg Bool.false_ne_true]
          constructor
          · intro h
            rw [hfound (h.2 rfl)]
          · intro h
            rw [hthrown fun hs => h ⟨Option.some_ne_none _, fun _ => hs⟩]

theorem rewriteFirst_none : rewriteFirst canonical command l = none ↔ ∀ h ∈ l, ours canonical h = false := by
  induction l with
  | nil => exact ⟨fun _ h hh => (by cases hh), fun _ => rfl⟩
  | cons h l ih =>
    rw [rewriteFirst, List.forall_mem_cons]
    by_cases hours : ours canonical h = true
    · rw [if_pos hours, hours]
      exact ⟨fun hnone => (by cases hnone), fun hall => (by cases hall.1)⟩
    · rw [if_neg hours, Option.map_eq_none_iff, ih]
      exact ⟨fun hall => ⟨by simpa using hours, hall⟩, And.right⟩

theorem rewriteFirst_some (h : rewriteFirst canonical command l = some l') : ∃ front x back, l = front ++ x :: back ∧
    (∀ y ∈ front, ours canonical y = false) ∧ ours canonical x = true ∧ l' = front ++
    setCommand command x :: back := by
  induction l generalizing l' with
  | nil => cases h
  | cons y l ih =>
    rw [rewriteFirst] at h
    by_cases hours : ours canonical y = true
    · rw [if_pos hours, Option.some_inj] at h
      exact ⟨[], y, l, rfl, fun z hz => (by cases hz), hours, h.symm⟩
    · rw [if_neg hours, Option.map_eq_some_iff] at h
      obtain ⟨rest, hrest, rfl⟩ := h
      obtain ⟨front, x, back, rfl, hfront, hx, rfl⟩ := ih hrest
      refine ⟨y :: front, x, back, rfl, ?_, hx, rfl⟩
      rw [List.forall_mem_cons]
      exact ⟨by simpa using hours, hfront⟩

theorem assign_null (hk : nullish (Entries.get m k) = true) :
    assign (.obj m) k x = .ok (x, .obj (Entries.set m k x)) := by
  simp only [assign, prop, setProp, bind, Except.bind, pure, Except.pure, hk, if_true]

theorem assign_some (hk : Entries.get m k = some v) (hv : nullish (some v) = false) :
    assign (.obj m) k x = .ok (v, .obj m) := by
  simp only [assign, prop, bind, Except.bind, pure, Except.pure, hk, hv, Bool.false_eq_true, if_false, Option.getD_some]

def versioned (m : List (String × Json)) : List (String × Json) :=
  if nullish (Entries.get m "version") = true then Entries.set m "version" (.num 1) else m

theorem get_versioned (hk : k ≠ "version") : Entries.get (versioned m) k = Entries.get m k := by
  rw [versioned]
  by_cases hnull : nullish (Entries.get m "version") = true
  · rw [if_pos hnull, Entries.get_set, if_neg hk]
  · rw [if_neg hnull]

theorem keyed_versioned (hk : Entries.Keyed m) : Entries.Keyed (versioned m) := by
  rw [versioned]
  by_cases hnull : nullish (Entries.get m "version") = true
  · rw [if_pos hnull]
    exact Entries.keyed_set hk
  · rw [if_neg hnull]
    exact hk

theorem defaultVersion_eq : defaultVersion (.obj m) = .ok (.obj (versioned m)) := by
  rw [defaultVersion, versioned]
  by_cases hnull : nullish (Entries.get m "version") = true
  · simp only [prop, setProp, bind, Except.bind, pure, Except.pure, hnull, if_true]
  · simp only [prop, bind, Except.bind, pure, Except.pure, hnull]
    rfl

def withList (m : List (String × Json)) (event : String) (l : List Json) : Json :=
  .obj (Entries.set (versioned m) "hooks" (.obj (Entries.set (hookMembers (.obj m)) event (.arr l))))

theorem upsertCursor_search (event command : String) (hs : HookLists .cursor events (.obj m)) (he : event ∈ events) :
    upsertCursor (.obj m) event command = (presentIn command (listIn (hookMembers (.obj m)) event)).map fun found =>
      (if found.isSome then .alreadyPresent else .registered, withList m event
        (found.getD (listIn (hookMembers (.obj m)) event ++ [.obj [("command", .str command)]]))) := by
  obtain ⟨m₀, heq, hhooks, hlists⟩ := hs
  cases heq
  have hlist := hlists event he
  have hget : Entries.get (versioned m) "hooks" = Entries.get m "hooks" := get_versioned (by decide)
  have hobj : ∃ m', assign (.obj (versioned m)) "hooks" (.obj []) = .ok (.obj (hookMembers (.obj m)), .obj m') ∧
      ∀ y, Entries.set m' "hooks" y = Entries.set (versioned m) "hooks" y := by
    rcases hhooks with hnull | ⟨hm, hhm⟩
    · have hmembers : hookMembers (.obj m) = [] := by
        rw [hookMembers]
        split
        · next hm hgot =>
          rw [hgot] at hnull
          cases hnull
        · rfl
      rw [hmembers]
      exact ⟨_, assign_null (hget ▸ hnull), fun y => Entries.set_set⟩
    · have hmembers : hookMembers (.obj m) = hm := by rw [hookMembers, hhm]
      rw [hmembers]
      exact ⟨_, assign_some (hget.trans hhm) rfl, fun y => rfl⟩
  have harr : ∃ hm', assign (.obj (hookMembers (.obj m))) event (.arr []) =
        .ok (.arr (listIn (hookMembers (.obj m)) event), .obj hm') ∧
      ∀ y, Entries.set hm' event y = Entries.set (hookMembers (.obj m)) event y := by
    rcases hlist with hnull | ⟨l, hl, hall⟩
    · rw [listIn_of_nullish hnull]
      exact ⟨_, assign_null hnull, fun y => Entries.set_set⟩
    · have hin : listIn (hookMembers (.obj m)) event = l := by rw [listIn, hl]
      rw [hin]
      exact ⟨_, assign_some hl rfl, fun y => rfl⟩
  obtain ⟨m', hassign, hset⟩ := hobj
  obtain ⟨hm', hassign', hset'⟩ := harr
  rw [upsertCursor]
  simp only [defaultVersion_eq, hassign, hassign', iterate, bind, Except.bind, pure, Except.pure]
  cases hfound : presentIn command (listIn (hookMembers (.obj m)) event) with
  | error e => rfl
  | ok found =>
    cases found with
    | some l =>
      simp only [Except.map, putList, setProp, bind, Except.bind, pure, Except.pure, hset, hset', withList,
        Option.getD_some, Option.isSome_some, if_true]
    | none =>
      simp only [Except.map, putList, setProp, asArray, bind, Except.bind, pure, Except.pure, hset, hset', withList,
        Option.getD_none, Option.isSome_none, Bool.false_eq_true, if_false]

theorem upsertCursor_eq (event : String) (hs : HookLists .cursor events (.obj m)) (he : event ∈ events)
    (htarget : hookTarget command = some canonical) :
    (Searchable canonical (listIn (hookMembers (.obj m)) event) → ∃ status, upsertCursor (.obj m) event command =
      .ok (status, withList m event (upserted canonical command (listIn (hookMembers (.obj m)) event)))) ∧
    (¬Searchable canonical (listIn (hookMembers (.obj m)) event) →
      upsertCursor (.obj m) event command = .error .typeError) := by
  obtain ⟨hfound, hthrown⟩ := presentIn_eq (listed_elements hs he) htarget
  rw [upsertCursor_search event command hs he]
  constructor
  · intro hsearch
    rw [hfound hsearch]
    exact ⟨_, rfl⟩
  · intro hsearch
    rw [hthrown hsearch]
    rfl

theorem entry_new : Entry (.obj [("command", .str command)]) := ⟨_, rfl, .inr ⟨command, rfl⟩⟩

theorem upserted_entry (canonical command : String) (hl : ∀ h ∈ l, Entry h) :
    ∀ h ∈ upserted canonical command l, Entry h := by
  intro h hh
  rw [upserted] at hh
  cases hfirst : rewriteFirst canonical command l with
  | none =>
    rw [hfirst] at hh
    rcases List.mem_append.mp hh with hh | hh
    · exact hl h hh
    · rw [List.mem_singleton.mp hh]
      exact entry_new
  | some l' =>
    rw [hfirst] at hh
    obtain ⟨front, x, back, rfl, -, -, rfl⟩ := rewriteFirst_some hfirst
    rcases List.mem_append.mp hh with hh | hh
    · exact hl h (List.mem_append_left _ hh)
    · rcases List.mem_cons.mp hh with rfl | hh
      · exact entry_setCommand (hl x (List.mem_append_right _ List.mem_cons_self))
      · exact hl h (List.mem_append_right _ (List.mem_cons_of_mem _ hh))

theorem setCommand_setCommand : setCommand command (setCommand command h) = setCommand command h := by
  cases h with
  | obj m => exact congrArg Json.obj Entries.set_set
  | _ => rfl

theorem rewriteFirst_append {front back : List Json} (hfront : ∀ y ∈ front, ours canonical y = false)
    (hx : ours canonical x = true) :
    rewriteFirst canonical command (front ++ x :: back) = some (front ++ setCommand command x :: back) := by
  induction front with
  | nil => exact if_pos hx
  | cons y front ih =>
    rw [List.forall_mem_cons] at hfront
    rw [List.cons_append, rewriteFirst, hfront.1, if_neg Bool.false_ne_true, ih hfront.2]
    rfl

/-- The search of a second upsert ends at the entry of the first. -/
theorem searchable_upserted (hl : ∀ h ∈ l, Entry h) (htarget : hookTarget command = some canonical)
    (hsearch : Searchable canonical l) : Searchable canonical (upserted canonical command l) := by
  have hsearched : ∀ {front x back}, (∀ y ∈ front, commandOf y ≠ none) → commandOf x = some command →
      Searchable canonical (front ++ x :: back) := by
    intro front x back hfront hx
    induction front with
    | nil =>
      refine searchable_cons.mpr ⟨by rw [hx]; exact Option.some_ne_none _, fun hnot => ?_⟩
      rw [ours_of_command hx htarget] at hnot
      cases hnot
    | cons y front ih =>
      rw [List.forall_mem_cons] at hfront
      exact searchable_cons.mpr ⟨hfront.1, fun _ => ih hfront.2⟩
  rw [upserted]
  cases hfirst : rewriteFirst canonical command l with
  | none =>
    refine hsearched (fun y hy => ?_) rfl
    obtain ⟨front, back, rfl⟩ := List.append_of_mem hy
    exact hsearch front y back rfl fun z hz => rewriteFirst_none.mp hfirst z (List.mem_append_left _ hz)
  | some l' =>
    obtain ⟨front, x, back, rfl, hfront, -, rfl⟩ := rewriteFirst_some hfirst
    refine hsearched (fun y hy => ?_) (commandOf_setCommand (hl x (List.mem_append_right _ List.mem_cons_self)))
    obtain ⟨front, rest, rfl⟩ := List.append_of_mem hy
    refine hsearch front y (rest ++ x :: back) (by rw [List.append_assoc, List.cons_append]) fun z hz => ?_
    exact hfront z (List.mem_append_left _ hz)

/-- A second upsert finds the entry of the first. -/
theorem upserted_upserted (hl : ∀ h ∈ l, Entry h) (htarget : hookTarget command = some canonical) :
    upserted canonical command (upserted canonical command l) = upserted canonical command l := by
  cases hfirst : rewriteFirst canonical command l with
  | none =>
    have hnew : ours canonical (.obj [("command", .str command)]) = true :=
      ours_of_command (show commandOf _ = some command from rfl) htarget
    have hlist : upserted canonical command l = l ++ [.obj [("command", .str command)]] := by rw [upserted, hfirst]; rfl
    rw [hlist, upserted, rewriteFirst_append (rewriteFirst_none.mp hfirst) hnew]
    rfl
  | some l' =>
    obtain ⟨front, x, back, rfl, hfront, -, rfl⟩ := rewriteFirst_some hfirst
    have hx : ours canonical (setCommand command x) = true :=
      ours_of_command (commandOf_setCommand (hl x (List.mem_append_right _ List.mem_cons_self))) htarget
    have hlist : upserted canonical command (front ++ x :: back) = front ++ setCommand command x :: back := by
      rw [upserted, hfirst]
      rfl
    rw [hlist, upserted, rewriteFirst_append hfront hx, setCommand_setCommand]
    rfl

theorem listIn_withList : listIn (hookMembers (withList m event l)) event = l := by
  rw [withList, hookMembers_set, listIn, Entries.get_set, if_pos rfl]

theorem hookLists_withList (hs : HookLists .cursor events (.obj m)) (hl : ∀ h ∈ l, Entry h) :
    HookLists .cursor events (withList m event l) := by
  obtain ⟨m₀, heq, -, hlists⟩ := hs
  cases heq
  refine hookLists_set fun other hother => ?_
  rw [Entries.get_set]
  by_cases heq : other = event
  · rw [if_pos heq]
    exact .inr ⟨l, rfl, hl⟩
  · rw [if_neg heq]
    exact hlists other hother

end

/-! ## Written and read again -/

/-- The version, where there is one, is no infinite number. -/
def FiniteVersion (settings : Json) : Prop :=
  ∀ m, settings = .obj m → ∀ negative, Entries.get m "version" ≠ some (.infinity negative)

section
variable {canonical command event : String} {h g settings : Json} {l : List Json} {m m' hm : List (String × Json)}
  {events : List String} {shape : Shape} {v : Option Json}

theorem nullish_reparsed (hv : nullish v = true) : nullish (v.map reparsed) = true := by
  rcases v with - | v
  · rfl
  · cases v <;> first | rfl | cases hv

theorem commandOf_reparsed (h : Json) : commandOf h.reparsed = commandOf h := by
  cases h with
  | obj m =>
    rw [reparsed_obj, commandOf, commandOf, get_reparsed]
    rcases Entries.get m "command" with - | v
    · rfl
    · cases v <;> rfl
  | _ => rfl

theorem ours_reparsed (canonical : String) (h : Json) : ours canonical h.reparsed = ours canonical h := by
  rw [ours, commandOf_reparsed, ours]

theorem groupEntries_reparsed (g : Json) : groupEntries g.reparsed = (groupEntries g).map reparsed := by
  cases g with
  | obj m =>
    rw [reparsed_obj, groupEntries, groupEntries, get_reparsed]
    rcases Entries.get m "hooks" with - | v
    · rfl
    · cases v with
      | arr l => simp only [Option.map_some, reparsed_arr]
      | _ => rfl
  | _ => rfl

theorem hookMembers_reparsed (settings : Json) :
    hookMembers settings.reparsed = reparsedMembers (hookMembers settings) := by
  cases settings with
  | obj m =>
    rw [reparsed_obj, hookMembers, hookMembers, get_reparsed]
    rcases Entries.get m "hooks" with - | v
    · rfl
    · cases v with
      | obj hm => simp only [Option.map_some, reparsed_obj]
      | _ => rfl
  | _ => rfl

theorem listIn_reparsed (hm : List (String × Json)) (event : String) :
    listIn (reparsedMembers hm) event = (listIn hm event).map reparsed := by
  rw [listIn, listIn, get_reparsed]
  rcases Entries.get hm event with - | v
  · rfl
  · cases v with
    | arr l => simp only [Option.map_some, reparsed_arr]
    | _ => rfl

theorem entriesOf_reparsed (shape : Shape) (l : List Json) :
    entriesOf shape (l.map reparsed) = (entriesOf shape l).map reparsed := by
  cases shape with
  | cursor => rfl
  | claude =>
    rw [entriesOf, entriesOf, List.flatMap_map, List.map_flatMap]
    exact congrArg (List.flatMap · l) (funext groupEntries_reparsed)

theorem entriesAt_reparsed (shape : Shape) (settings : Json) (event : String) :
    entriesAt shape settings.reparsed event = (entriesAt shape settings event).map reparsed := by
  rw [entriesAt, hookMembers_reparsed, listIn_reparsed, entriesOf_reparsed, entriesAt]

theorem entry_reparsed (hh : Entry h) : Entry h.reparsed := by
  obtain ⟨m, rfl, hcommand⟩ := hh
  refine ⟨_, reparsed_obj m, ?_⟩
  rw [get_reparsed]
  rcases hcommand with hnone | ⟨command, hsome⟩
  · exact .inl (by rw [hnone]; rfl)
  · exact .inr ⟨command, by rw [hsome]; rfl⟩

theorem element_reparsed (hg : Element shape g) : Element shape g.reparsed := by
  cases shape with
  | cursor => exact entry_reparsed hg
  | claude =>
    obtain ⟨m, rfl, hhooks⟩ := hg
    refine ⟨_, reparsed_obj m, ?_⟩
    rw [get_reparsed]
    rcases hhooks with hnull | ⟨entries, hentries, hall⟩
    · exact .inl (nullish_reparsed hnull)
    · refine .inr ⟨entries.map reparsed, by rw [hentries, Option.map_some, reparsed_arr], ?_⟩
      exact List.forall_mem_map.mpr fun h hh => entry_reparsed (hall h hh)

theorem hookLists_reparsed (hs : HookLists shape events settings) : HookLists shape events settings.reparsed := by
  obtain ⟨m, rfl, hhooks, hlists⟩ := hs
  rw [HookLists, hookMembers_reparsed]
  refine ⟨_, reparsed_obj m, ?_, ?_⟩
  · rw [get_reparsed]
    rcases hhooks with hnull | ⟨hm, hhm⟩
    · exact .inl (nullish_reparsed hnull)
    · exact .inr ⟨_, by rw [hhm, Option.map_some, reparsed_obj]⟩
  · intro event he
    rw [get_reparsed]
    rcases hlists event he with hnull | ⟨l, hl, hall⟩
    · exact .inl (nullish_reparsed hnull)
    · refine .inr ⟨l.map reparsed, by rw [hl, Option.map_some, reparsed_arr], ?_⟩
      exact List.forall_mem_map.mpr fun x hx => element_reparsed (hall x hx)

theorem keyedSettings_reparsed (hk : KeyedSettings settings) : KeyedSettings settings.reparsed := by
  intro m' hobj
  rw [← hobj, hookMembers_reparsed]
  cases settings with
  | obj m =>
    rw [reparsed_obj] at hobj
    obtain rfl := Json.obj.inj hobj
    exact ⟨keyed_reparsed (hk m rfl).1, keyed_reparsed (hk m rfl).2⟩
  | _ => cases hobj

theorem setCommand_reparsed (command : String) (h : Json) :
    (setCommand command h).reparsed = setCommand command h.reparsed := by
  cases h with
  | obj m =>
    rw [setCommand, reparsed_obj, reparsed_obj, setCommand, set_reparsed]
    rfl
  | _ => rfl

theorem rewriteFirst_reparsed (canonical command : String) (l : List Json) :
    rewriteFirst canonical command (l.map reparsed) = (rewriteFirst canonical command l).map (·.map reparsed) := by
  induction l with
  | nil => rfl
  | cons h l ih =>
    rw [List.map_cons, rewriteFirst, rewriteFirst, ours_reparsed, ih]
    by_cases hours : ours canonical h = true
    · rw [if_pos hours, if_pos hours, Option.map_some, List.map_cons, setCommand_reparsed]
    · rw [if_neg hours, if_neg hours, Option.map_map, Option.map_map]
      rfl

theorem upserted_reparsed (canonical command : String) (l : List Json) :
    (upserted canonical command l).map reparsed = upserted canonical command (l.map reparsed) := by
  rw [upserted, upserted, rewriteFirst_reparsed]
  cases rewriteFirst canonical command l with
  | some l' => rfl
  | none =>
    rw [Option.getD_none, List.map_append]
    rfl

theorem searchable_reparsed (hsearch : Searchable canonical l) : Searchable canonical (l.map reparsed) := by
  intro front x back hl hfront
  obtain ⟨front, rest, rfl, rfl, hrest⟩ := List.map_eq_append_iff.mp hl
  obtain ⟨x, back, rfl, rfl, -⟩ := List.map_eq_cons_iff.mp hrest
  rw [commandOf_reparsed]
  refine hsearch front x back rfl fun y hy => ?_
  rw [← ours_reparsed]
  exact hfront _ (List.mem_map_of_mem hy)

/-- Settings that are written with a list stay so when it is put there again, unless their version is lost. -/
theorem withList_again_iff (hm : (withList m event l).reparsed = .obj m') :
    (withList m' event (l.map reparsed)).reparsed = .obj m' ↔ FiniteVersion (.obj m) := by
  have hround : (Json.obj m').reparsed = .obj m' := by rw [← hm, reparsed_reparsed]
  have hmembers : hookMembers (.obj m') =
      Entries.set (reparsedMembers (hookMembers (.obj m))) event (.arr (l.map reparsed)) := by
    rw [← hm, hookMembers_reparsed, withList, hookMembers_set, set_reparsed, reparsed_arr]
  have hversion : Entries.get m' "version" = (Entries.get (versioned m) "version").map reparsed := by
    rw [withList, reparsed_obj, Json.obj.injEq] at hm
    rw [← hm, get_reparsed, Entries.get_set, if_neg (show ¬"version" = "hooks" by decide)]
  have hhooks : Entries.get m' "hooks" = some (.obj (hookMembers (.obj m'))) := by
    rw [hmembers]
    rw [withList, reparsed_obj, Json.obj.injEq] at hm
    rw [← hm, get_reparsed, Entries.get_set, if_pos rfl, Option.map_some, reparsed_obj, set_reparsed, reparsed_arr]
  have hput : withList m' event (l.map reparsed) =
      .obj (Entries.set (versioned m') "hooks" (.obj (hookMembers (.obj m')))) := by
    rw [withList, hmembers, Entries.set_set]
  rw [hput]
  by_cases hnull : nullish (Entries.get m "version") = true
  · have hone : Entries.get m' "version" = some (.num 1) := by
      rw [hversion, versioned, if_pos hnull, Entries.get_set, if_pos rfl]
      rfl
    have hsame : versioned m' = m' := by rw [versioned, hone, if_neg (by decide)]
    rw [hsame, Entries.set_of_get hhooks]
    refine ⟨fun _ m₀ heq negative hget => ?_, fun _ => hround⟩
    obtain rfl := Json.obj.inj heq
    rw [hget] at hnull
    cases hnull
  · rw [versioned, if_neg hnull] at hversion
    constructor
    · rintro hagain m₀ heq negative hget
      obtain rfl := Json.obj.inj heq
      rw [hget] at hversion
      have hlost : nullish (Entries.get m' "version") = true := by rw [hversion]; rfl
      have hone := congrArg (fun v => Entries.get v "version") (Json.obj.inj ((reparsed_obj _).symm.trans hagain))
      simp only [get_reparsed, Entries.get_set, versioned, hlost, if_true] at hone
      rw [hversion, if_neg (show ¬"version" = "hooks" by decide)] at hone
      cases hone
    · intro hfinite
      have hkept : nullish (Entries.get m' "version") = false := by
        rw [hversion]
        cases hget : Entries.get m "version" with
        | none =>
          rw [hget] at hnull
          exact absurd rfl hnull
        | some v =>
          cases v with
          | null =>
            rw [hget] at hnull
            exact absurd rfl hnull
          | infinity negative => exact absurd hget (hfinite m rfl negative)
          | _ => rfl
      rw [versioned, hkept, if_neg Bool.false_ne_true, Entries.set_of_get hhooks]
      exact hround

end

end Cyberlegion.Init
