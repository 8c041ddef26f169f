import Cyberlegion.InstallHarmless

/-!
# The permission rule

`permission.ts`: the rule that lets every `cyberlegion` subcommand run, added to the user's
settings. With `install`, these are the files of the user that init writes.
-/

namespace Cyberlegion.Init

open Json

def CLI_RULE : String := "Bash(cyberlegion *)"

/-- `/^Bash(?:\((?:\*|cyberlegion(?: \*|:\*|\*))\))?$/` -/
def COVERING (rule : String) : Bool :=
  rule ∈ ["Bash", "Bash(*)", "Bash(cyberlegion *)", "Bash(cyberlegion:*)", "Bash(cyberlegion*)"]

/-- `(permissions as { allow?: unknown } | undefined)?.allow ?? []`. -/
def allowOf (permissions : Option Json) : Json :=
  match permissions with
  | some (.obj pm) => if nullish (Entries.get pm "allow") then .arr [] else (Entries.get pm "allow").getD .null
  | _ => .arr []

/-- `typeof permissions !== 'object' || permissions === null`, of what is not missing. -/
def notObject : Option Json → Bool
  | none | some (.obj _) | some (.arr _) => false
  | _ => true

/-- The settings and their allow list. -/
def readSettings (name : String) (file : Option Content) : JsM (List (String × Json) × List Json) :=
  match file with
  | none => return ([], [])
  | some content =>
    match content.value with
    | none => throw (.cannotParse name)
    | some (.obj settings) =>
      let permissions := Entries.get settings "permissions"
      match allowOf permissions with
      | .arr allow => if notObject permissions then throw (.malformedAllow name) else return (settings, allow)
      | _ => throw (.malformedAllow name)
    | some _ => throw (.notObject name)

def covers (allow : List Json) : Bool :=
  allow.any fun rule =>
    match rule with
    | .str rule => COVERING rule
    | _ => false

inductive PermissionRuleState
  | present | missing | unreadable | added

def permissionRuleState (name : String) (file : Option Content) : PermissionRuleState :=
  match readSettings name file with
  | .ok (_, allow) => if covers allow then .present else .missing
  | .error _ => .unreadable

/-- The members that `{ ...v }` has. -/
def spread : Option Json → List (String × Json)
  | some (.obj m) => m
  | some (.arr items) => items.mapIdx fun i item => (toString i, item)
  | _ => []

/-- The file before and after. -/
def addPermissionRule (stringify : Json → String) (name : String) (file : Option Content) :
    Except InitError PermissionRuleState × Option Content :=
  match readSettings name file with
  | .error e => (.error e, file)
  | .ok (settings, allow) =>
    if covers allow then (.ok .present, file)
    else
      let permissions :=
        Entries.set (spread (Entries.get settings "permissions")) "allow" (.arr (allow ++ [.str CLI_RULE]))
      (.ok .added, some (writeJson stringify (.obj (Entries.set settings "permissions" (.obj permissions)))))

/-! ## What it keeps -/

/-- The rule comes after every rule there is. -/
def AllowEdited (k : String) (old new : Option Json) : Prop :=
  k = "allow" ∧ ∃ l, (nullish old = true ∧ l = [] ∨ old = some (.arr l)) ∧ new = some (.arr (l ++ [.str CLI_RULE]))

def RuleEdited (k : String) (old new : Option Json) : Prop :=
  k = "permissions" ∧ ∃ pm pm', (old = none ∧ pm = [] ∨ old = some (.obj pm)) ∧ new = some (.obj pm') ∧
    EditedMembers AllowEdited pm pm'

def RuleKept (v v' : Json) : Prop := v = v' ∨ ∃ m m', v = .obj m ∧ v' = .obj m' ∧ EditedMembers RuleEdited m m'

/-- The permissions are no list. -/
def Unlisted (file : Option Content) : Prop :=
  ∀ m, settingsOf file = some (.obj m) → ∀ items, Entries.get m "permissions" ≠ some (.arr items)

/-- Settings that the rule is missing from hold no infinite number. -/
def Rewritable (name : String) (file : Option Content) : Prop :=
  permissionRuleState name file = .missing → ∀ m, settingsOf file = some (.obj m) → RoundTrips (.obj m)

section
variable {stringify : Json → String} {name : String} {file : Option Content} {m : List (String × Json)}
  {allow : List Json}

theorem readSettings_ok (h : readSettings name file = .ok (m, allow)) : settingsOf file = some (.obj m) ∧
    allowOf (Entries.get m "permissions") = .arr allow ∧ notObject (Entries.get m "permissions") = false := by
  cases file with
  | none =>
    cases h
    exact ⟨rfl, rfl, rfl⟩
  | some content =>
    rw [readSettings] at h
    split at h
    · cases h
    · next settings hvalue =>
      simp only at h
      split at h
      · next allow' hallow =>
        by_cases hobj : notObject (Entries.get settings "permissions") = true
        · rw [if_pos hobj] at h
          cases h
        · rw [if_neg hobj] at h
          cases h
          exact ⟨hvalue, hallow, by simpa using hobj⟩
      · cases h
    · cases h

theorem readSettings_list (hv : settingsOf file = some (.obj m)) {items : List Json}
    (hget : Entries.get m "permissions" = some (.arr items)) : readSettings name file = .ok (m, []) := by
  cases file with
  | none =>
    cases hv
    cases hget
  | some content =>
    have hvalue : content.value = some (.obj m) := hv
    simp only [readSettings, hvalue, hget, allowOf, notObject, Bool.false_eq_true, if_false, pure, Except.pure]

theorem allow_cases {pm : List (String × Json)} (hallow : allowOf (some (.obj pm)) = .arr allow) :
    nullish (Entries.get pm "allow") = true ∧ allow = [] ∨ Entries.get pm "allow" = some (.arr allow) := by
  rw [allowOf] at hallow
  by_cases hnull : nullish (Entries.get pm "allow") = true
  · rw [if_pos hnull] at hallow
    cases hallow
    exact .inl ⟨hnull, rfl⟩
  · rw [if_neg hnull] at hallow
    cases hget : Entries.get pm "allow" with
    | none =>
      rw [hget] at hnull
      exact absurd rfl hnull
    | some v =>
      rw [hget, Option.getD_some] at hallow
      rw [hallow]
      exact .inr rfl

def allowed (permissions : Option Json) (allow : List Json) : List (String × Json) :=
  Entries.set (spread permissions) "allow" (.arr (allow ++ [.str CLI_RULE]))

theorem allowed_edited (hallow : allowOf (Entries.get m "permissions") = .arr allow)
    (hobj : notObject (Entries.get m "permissions") = false)
    (hunlisted : ∀ items, Entries.get m "permissions" ≠ some (.arr items)) :
    RuleEdited "permissions" (Entries.get m "permissions") (some (.obj (allowed (Entries.get m "permissions") allow))) ∧
      (RoundTrips (.obj m) → RoundTrips (.obj (allowed (Entries.get m "permissions") allow))) := by
  cases hget : Entries.get m "permissions" with
  | none =>
    rw [hget] at hallow
    cases hallow
    exact ⟨⟨rfl, [], _, .inl ⟨rfl, rfl⟩, rfl, EditedMembers.set_get ⟨rfl, [], .inl ⟨rfl, rfl⟩, rfl⟩⟩,
      fun _ => rfl⟩
  | some permissions =>
    rw [hget] at hallow hobj
    cases permissions with
    | obj pm =>
      refine ⟨⟨rfl, pm, _, .inr rfl, rfl, EditedMembers.set_get ⟨rfl, allow, allow_cases hallow, rfl⟩⟩,
        fun hround => ?_⟩
      have hpm := roundTrips_get hround hget
      refine roundTrips_put hpm (roundTrips_arr.mpr ?_)
      rw [List.forall_mem_append]
      refine ⟨?_, fun x hx => by rw [List.mem_singleton.mp hx]; rfl⟩
      rcases allow_cases hallow with ⟨-, rfl⟩ | hlist
      · exact fun x hx => (by cases hx)
      · exact roundTrips_arr.mp (roundTrips_get hpm hlist)
    | arr items => exact absurd hget (hunlisted items)
    | _ => cases hobj

theorem roundTrips_of_ruleEdited {m' : List (String × Json)} (hround : RoundTrips (.obj m'))
    (h : EditedMembers RuleEdited m m') : RoundTrips (.obj m) := by
  have hnull : ∀ {v : Json}, nullish (some v) = true → RoundTrips v := by
    intro v hv
    cases v with
    | null => rfl
    | _ => cases hv
  refine roundTrips_obj.mpr fun e he => ?_
  rcases Edited.mem h he with ⟨-, _, _, -, hnone, -⟩ | ⟨e', he', -, heq | ⟨-, pm, pm', hold, hnew, hmembers⟩⟩
  · cases hnone
  · exact heq ▸ roundTrips_obj.mp hround e' he'
  · have hpm' : RoundTrips (.obj pm') := Option.some_inj.mp hnew ▸ roundTrips_obj.mp hround e' he'
    rcases hold with ⟨hnone, -⟩ | hold
    · cases hnone
    · rw [Option.some_inj.mp hold]
      refine roundTrips_obj.mpr fun a ha => ?_
      rcases Edited.mem hmembers ha with ⟨-, _, -, hnone⟩ | ⟨b, hb, -, heq | ⟨-, l, hold, hnew⟩⟩
      · cases hnone
      · exact heq ▸ roundTrips_obj.mp hpm' b hb
      · rcases hold with ⟨hmissing, -⟩ | hold
        · exact hnull hmissing
        · have hrules : RoundTrips (.arr (l ++ [.str CLI_RULE])) :=
            Option.some_inj.mp hnew ▸ roundTrips_obj.mp hpm' b hb
          rw [Option.some_inj.mp hold]
          exact roundTrips_arr.mpr fun x hx => roundTrips_arr.mp hrules x (List.mem_append_left _ hx)

theorem ruleKept_iff (hk : Entries.Keyed m) (hallow : allowOf (Entries.get m "permissions") = .arr allow)
    (hobj : notObject (Entries.get m "permissions") = false) :
    RuleKept (.obj m) (Json.obj
      (Entries.set m "permissions" (.obj (allowed (Entries.get m "permissions") allow)))).reparsed ↔
      (∀ items, Entries.get m "permissions" ≠ some (.arr items)) ∧ RoundTrips (.obj m) := by
  constructor
  · intro hkept
    obtain ⟨m', hm'⟩ : ∃ m', (Json.obj (Entries.set m "permissions"
        (.obj (allowed (Entries.get m "permissions") allow)))).reparsed = .obj m' := ⟨_, reparsed_obj _⟩
    have hround : RoundTrips (.obj m') := hm' ▸ roundTrips_reparsed _
    have hobject : ∃ pm, Entries.get m' "permissions" = some (.obj pm) := by
      rw [reparsed_obj, Json.obj.injEq] at hm'
      rw [← hm', get_reparsed, Entries.get_set, if_pos rfl]
      exact ⟨_, congrArg some (reparsed_obj _)⟩
    have hkeyed : Entries.Keyed m' := by
      rw [reparsed_obj, Json.obj.injEq] at hm'
      exact hm' ▸ keyed_reparsed (Entries.keyed_set hk)
    obtain ⟨pm, hpm⟩ := hobject
    rw [hm'] at hkept
    rcases hkept with heq | ⟨m₁, m₂, hobj₁, hobj₂, hmembers⟩
    · obtain rfl := Json.obj.inj heq
      refine ⟨fun items hget => ?_, hround⟩
      rw [hpm] at hget
      cases hget
    · cases hobj₁
      cases hobj₂
      refine ⟨fun items hget => ?_, roundTrips_of_ruleEdited hround hmembers⟩
      rcases hmembers.get hk hkeyed hget with ⟨w, hw, rfl | ⟨-, pm, pm', hold, -⟩⟩ | ⟨-, pm, pm', hold, -⟩
      · rw [hpm] at hw
        cases hw
      · rcases hold with ⟨hnone, -⟩ | hobj
        · cases hnone
        · cases hobj
      · rcases hold with ⟨hnone, -⟩ | hobj
        · cases hnone
        · cases hobj
  · rintro ⟨hunlisted, hround⟩
    obtain ⟨hedited, hrounds⟩ := allowed_edited hallow hobj hunlisted
    rw [roundTrips_put hround (hrounds hround)]
    exact .inr ⟨m, _, rfl, rfl, EditedMembers.set_get hedited⟩

theorem rule_kept_iff (hkeyed : ∀ m, settingsOf file = some (.obj m) → Entries.Keyed m) :
    FileKept RuleKept file (addPermissionRule stringify name file).2 ↔ Unlisted file ∧ Rewritable name file := by
  have hleft : (∀ m, readSettings name file ≠ .ok (m, [])) → permissionRuleState name file ≠ .missing →
      Unlisted file ∧ Rewritable name file := by
    intro hread hstate
    exact ⟨fun m hv items hget => hread m (readSettings_list hv hget), fun h => absurd h hstate⟩
  rw [addPermissionRule]
  cases hread : readSettings name file with
  | error e =>
    refine ⟨fun _ => hleft (fun m h => ?_) ?_, fun _ => .inl rfl⟩
    · rw [hread] at h
      cases h
    · rw [permissionRuleState, hread]
      exact fun h => by cases h
  | ok read =>
    obtain ⟨m, allow⟩ := read
    obtain ⟨hv, hallow, hobj⟩ := readSettings_ok hread
    by_cases hcovers : covers allow = true
    · simp only [hcovers, if_true]
      refine ⟨fun _ => hleft (fun m h => ?_) ?_, fun _ => .inl rfl⟩
      · rw [hread] at h
        cases h
        cases hcovers
      · rw [permissionRuleState, hread]
        simp only [hcovers, if_true]
        exact fun h => by cases h
    · have hstate : permissionRuleState name file = .missing := by
        simp only [permissionRuleState, hread, hcovers, Bool.false_eq_true, if_false]
      have hone : ∀ {P : List (String × Json) → Prop}, (∀ m', settingsOf file = some (.obj m') → P m') ↔ P m := by
        intro P
        refine ⟨fun h => h m hv, fun h m' hm' => ?_⟩
        rw [hv] at hm'
        cases hm'
        exact h
      simp only [hcovers, Bool.false_eq_true, if_false]
      rw [Unlisted, Rewritable, hone, forall_prop_of_true hstate, hone]
      exact (fileKept_written_iff (fun _ => .inl rfl) hv).trans (ruleKept_iff (hkeyed m hv) hallow hobj)

theorem addPermissionRule_error {e : InitError} (h : (addPermissionRule stringify name file).1 = .error e) :
    (addPermissionRule stringify name file).2 = file := by
  rw [addPermissionRule] at h ⊢
  split at h
  · rfl
  · next settings allow hread =>
    by_cases hcovers : covers allow = true
    · simp only [hcovers, if_true] at h
      cases h
    · simp only [hcovers, Bool.false_eq_true, if_false] at h
      cases h

end

/-- `init` keeps the user's settings where it finds them unharmed by it: in the project's hook file,
and in the user's own settings where the permissions are no list and nothing is lost in writing. -/
theorem init_harmless_iff (stringify : Json → String) :
    (∀ {harness dir pin file}, Prior harness file →
      (Harmless (SettingsKept (VENDORS harness).shape (watched (VENDORS harness))) file
        (install stringify harness dir pin file) ↔ ((∀ p ∈ pin, PIN_TOKEN p = true) → Unharmed harness file))) ∧
    ∀ {name file}, (∀ m, settingsOf file = some (.obj m) → Entries.Keyed m) →
      (Harmless RuleKept file (addPermissionRule stringify name file) ↔ Unlisted file ∧ Rewritable name file) := by
  constructor
  · intro harness dir pin file hprior
    rw [Harmless, install_kept_iff hprior]
    exact ⟨And.right, fun h => ⟨fun e he => install_error he, h⟩⟩
  · intro name file hkeyed
    rw [Harmless, rule_kept_iff hkeyed]
    exact ⟨And.right, fun h => ⟨fun e he => addPermissionRule_error he, h⟩⟩

theorem init_harmless_older : Harmless (SettingsKept .cursor (watched (VENDORS .cursor)))
      (some ⟨"", some (cursorHooks ["npx cyberlegion@0.1.0 mail hook --event SessionStart", "echo other"])⟩)
      (install (fun _ => "") .cursor "/repo" none
        (some ⟨"", some (cursorHooks ["npx cyberlegion@0.1.0 mail hook --event SessionStart", "echo other"])⟩)) ∧
    Harmless RuleKept (some ⟨"", some (.obj [("model", .str "opus")])⟩)
      (addPermissionRule (fun _ => "") "settings.json" (some ⟨"", some (.obj [("model", .str "opus")])⟩)) := by
  constructor
  · refine ((init_harmless_iff _).1 ?_).mpr fun _ => ⟨Option.some_ne_none _, fun items hitems => (by cases hitems), ?_⟩
    · intro m hm
      cases hm
      refine ⟨fun m' hm' => ?_, hookLists_cursorHooks⟩
      cases hm'
      exact ⟨show List.Nodup _ by decide, show List.Nodup _ by decide⟩
    · intro m hm _
      cases hm
      refine ⟨fun front x back hl _ hx => ?_, .inl rfl⟩
      have hmem : x ∈ entriesAt .cursor (cursorHooks _) "sessionStart" :=
        hl ▸ List.mem_append_right front List.mem_cons_self
      obtain ⟨command, hcommand, hshaped⟩ := hx
      obtain ⟨c, hc, rfl⟩ := mem_cursorHooks hmem
      obtain rfl : c = command := Option.some_inj.mp hcommand
      exact ⟨c, hcommand, older_written c hc hshaped⟩
  · refine (init_harmless_iff _).2 ?_ |>.mpr ⟨?_, ?_⟩
    · intro m hm
      cases hm
      exact show List.Nodup _ by decide
    · intro m hm items hget
      cases hm
      cases hget
    · intro _ m hm
      cases hm
      rfl

/-- A hook file that does not parse is written anew. -/
theorem install_rewrites_unparsed : ¬Harmless (SettingsKept .cursor (watched (VENDORS .cursor)))
    (some ⟨"\x7b not json", none⟩)
    (install (fun _ => "\x7b\x7d") .cursor "/repo" none (some ⟨"\x7b not json", none⟩)) := by
  intro hharmless
  have hprior : Prior .cursor (some ⟨"\x7b not json", none⟩) := fun m hm => (by cases hm)
  exact ((install_kept_iff hprior).mp hharmless.2 fun p hp => (by cases hp)).1 rfl

end Cyberlegion.Init
