import Cyberlegion.Identity
import Cyberlegion.Lib.Entries

/-!
# The surfacing hook in a settings file

`install.ts`. The file is read, its parsed value changed in place, and all of it written
back. A file is its text and what `JSON.parse` makes of the text; an object's members are
in order.
-/

namespace Cyberlegion

namespace Init

/-! ## JSON values as the program sees them -/

inductive Json
  | null
  | bool (b : Bool)
  | num (n : Rat)
  /-- A number too large for the host, such as `1e999`. -/
  | infinity (negative : Bool)
  | str (s : String)
  | arr (items : List Json)
  | obj (members : List (String × Json))

structure Content where
  text : String
  /-- `none` when `JSON.parse` throws. -/
  value : Option Json

inductive InitError
  | invalidPin (pin : String)
  | cannotParse (file : String)
  | notObject (file : String)
  | malformedAllow (file : String)
  | typeError

def InitError.message : InitError → Option String
  | invalidPin pin => some ("invalid --pin \"" ++ pin ++
      "\" — expected a version or dist-tag token like 0.2.0 or latest (no spaces, ranges, or shell metacharacters)")
  | cannotParse file => some ("cannot parse Claude Code settings " ++ file ++ " — fix it by hand, then re-run")
  | notObject file => some ("Claude Code settings " ++ file ++ " is not a JSON object — fix it by hand, then re-run")
  | malformedAllow file => some ("Claude Code settings " ++ file ++
      " has a malformed permissions.allow — fix it by hand, then re-run")
  | typeError => none

abbrev JsM := Except InitError

namespace Json

/-- `v[k]`; no `k` used here is a property of a string, a list, a number or a truth value. -/
def prop (v : Json) (k : String) : JsM (Option Json) :=
  match v with
  | null => throw .typeError
  | obj m => return Entries.get m k
  | _ => return none

/-- `v[k] = x`. On a list the property is set, but not written as JSON. -/
def setProp (v : Json) (k : String) (x : Json) : JsM Json :=
  match v with
  | obj m => return obj (Entries.set m k x)
  | arr items => return arr items
  | _ => throw .typeError

def nullish : Option Json → Bool
  | none | some null => true
  | _ => false

def falsy : Option Json → Bool
  | none | some null | some (bool false) => true
  | some (num n) => n = 0
  | some (str s) => s = ""
  | _ => false

/-- What `for … of` goes through. -/
def iterate : Json → JsM (List Json)
  | arr items => return items
  | str s => return s.toList.map fun c => str (String.singleton c)
  | _ => throw .typeError

/-- A value that `filter` or `push` is called on. -/
def asArray : Json → JsM (List Json)
  | arr items => return items
  | _ => throw .typeError

mutual

/-- What `JSON.parse` makes of `JSON.stringify`'s text, where a number that is not finite is `null`. -/
def reparsed : Json → Json
  | infinity _ => null
  | arr items => arr (reparsedItems items)
  | obj members => obj (reparsedMembers members)
  | v => v

def reparsedItems : List Json → List Json
  | [] => []
  | v :: items => reparsed v :: reparsedItems items

def reparsedMembers : List (String × Json) → List (String × Json)
  | [] => []
  | (k, v) :: members => (k, reparsed v) :: reparsedMembers members

end

end Json

open Json

/-! ## The hook command -/

def stripStart (p : String) (l : List Char) : Option (List Char) :=
  if p.toList.isPrefixOf l then some (l.drop p.length) else none

/-- `\w`. -/
def wordChar (c : Char) : Bool := c.isAlphanum || c = '_'

/-- `(?:@\S+)?`, before a blank. -/
def stripPin : List Char → Option (List Char)
  | '@' :: l => if (l.takeWhile fun c => !jsSpace c) = [] then none else some (l.dropWhile fun c => !jsSpace c)
  | l => some l

/-- `(?:npx (?:-y )?cyberlegion(?:@\S+)?|cyberlegion)`, before a blank. -/
def stripCall (l : List Char) : Option (List Char) :=
  match stripStart "npx " l with
  | some l => (stripStart "cyberlegion" ((stripStart "-y " l).getD l)).bind stripPin
  | none => stripStart "cyberlegion" l

/-- The bare command and the `npx` one. -/
def firstGeneration (command : String) : Option String := do
  let l ← stripCall command.toList
  let event ← stripStart " mail hook --event " l
  if event ≠ [] ∧ event.all wordChar then some (String.ofList event) else none

/-- The PATH-first form. -/
def secondGeneration (command : String) : Option String := do
  let l ← stripStart "if command -v cyberlegion >/dev/null 2>&1; then cyberlegion mail hook --event " command.toList
  let event := String.ofList (l.takeWhile wordChar)
  let l ← stripStart "; else npx -y cyberlegion" (l.dropWhile wordChar)
  let l ← stripPin l
  let l ← stripStart " mail hook --event " l
  let l ← stripStart event l
  if event ≠ "" ∧ l = "; fi".toList then some event else none

def hookTarget (command : String) : Option String := (firstGeneration command).or (secondGeneration command)

/-- `${pin ? `@${pin}` : ''}`. -/
def pinned : Option String → String
  | some pin => if pin = "" then "" else "@" ++ pin
  | none => ""

def hookCommand (event : String) (pin : Option String) : String :=
  "if command -v cyberlegion >/dev/null 2>&1; then cyberlegion mail hook --event " ++ event ++
    "; else npx -y cyberlegion" ++ pinned pin ++ " mail hook --event " ++ event ++ "; fi"

def PIN_TOKEN (pin : String) : Bool :=
  match pin.toList with
  | [] => false
  | c :: l => c.isAlphanum && l.all fun c => c.isAlphanum || c ∈ ['.', '_', '+', '-']

/-! ## One harness -/

inductive Shape
  | claude | cursor
deriving DecidableEq

structure VendorSpec where
  file : String
  shape : Shape
  /-- The canonical event, and the vendor's own key for it. -/
  events : List (String × String)
  pluginHook : Bool

def VENDORS : Harness → VendorSpec
  | .claude => ⟨".claude/settings.json", .claude, [("SessionStart", "SessionStart")], true⟩
  | .cursor => ⟨".cursor/hooks.json", .cursor, [("SessionStart", "sessionStart")], false⟩
  | .codex => ⟨".codex/hooks.json", .cursor, [("SessionStart", "SessionStart")], true⟩

def RETIRED_EVENTS : List String := ["PostToolUse"]

inductive InstallStatus
  | registered | alreadyPresent | providedByPlugin | removedProjectHook
deriving DecidableEq

structure InstallResult where
  harness : Harness
  event : String
  vendorEvent : String
  file : String
  status : InstallStatus

/-- `hookTarget` of a command that may be no text. -/
def targetOf : Option Json → JsM (Option String)
  | some (.str s) => return hookTarget s
  | _ => throw .typeError

def isOurs (command : Option Json) (event : String) : JsM Bool :=
  match command with
  | none => return false
  | some _ => return (← targetOf command) = some event

/-- The entries that are not ours. -/
def filterOurs (canonical : String) : List Json → JsM (List Json)
  | [] => return []
  | h :: l => do
    let ours ← isOurs (← h.prop "command") canonical
    let kept ← filterOurs canonical l
    return if ours then kept else h :: kept

/-- `(v ?? []).filter`. -/
def orEmpty (v : Option Json) : JsM (List Json) := if nullish v then return [] else asArray (v.getD .null)

/-- One round of `removeClaude`'s loop: whether something was removed, and the group when it is kept. -/
def keepGroup (canonical : String) (g : Json) : JsM (Bool × List Json) := do
  let all ← orEmpty (← g.prop "hooks")
  let entries ← filterOurs canonical all
  let removed := entries.length ≠ all.length
  if entries = [] then return (removed, [])
  else return (removed, [← g.setProp "hooks" (.arr entries)])

def keptGroups (canonical : String) : List Json → JsM (Bool × List Json)
  | [] => return (false, [])
  | g :: groups => do
    let (removed, kept) ← keepGroup canonical g
    let (removed', kept') ← keptGroups canonical groups
    return (removed || removed', kept ++ kept')

/-- What the removals do with what is left of an event's list. -/
def putKept (settings : Json) (hooks : Json) (event : String) (kept : List Json) : JsM Json :=
  match hooks with
  | .obj m =>
    settings.setProp "hooks"
      (.obj (if kept = [] then Entries.delete m event else Entries.set m event (.arr kept)))
  | _ => return settings

def hooksOf (settings : Json) (event : String) : JsM (Option Json × Option Json) := do
  let hooks ← settings.prop "hooks"
  if nullish hooks then return (hooks, none)
  else return (hooks, ← (hooks.getD .null).prop event)

def removeClaude (settings : Json) (event canonical : String) : JsM (Bool × Json) := do
  let (hooks, groups) ← hooksOf settings event
  if falsy hooks || falsy groups then return (false, settings)
  let (removed, kept) ← keptGroups canonical (← iterate (groups.getD .null))
  if !removed then return (false, settings)
  return (true, ← putKept settings (hooks.getD .null) event kept)

def removeCursor (settings : Json) (event canonical : String) : JsM (Bool × Json) := do
  let (hooks, list) ← hooksOf settings event
  if falsy hooks || falsy list then return (false, settings)
  let list ← asArray (list.getD .null)
  let kept ← filterOurs canonical list
  if kept.length = list.length then return (false, settings)
  return (true, ← putKept settings (hooks.getD .null) event kept)

def isText (v : Option Json) (s : String) : Bool :=
  match v with
  | some (.str t) => t = s
  | _ => false

/-- The loop of an upsert over one list of entries: the list with the hook in it, or `none` when no entry is it. -/
def presentIn (command : String) : List Json → JsM (Option (List Json))
  | [] => return none
  | h :: l => do
    let given ← h.prop "command"
    if isText given command then return some (h :: l)
    let target := hookTarget command
    if target.isSome then
      if (← targetOf given) = target then return some ((← h.setProp "command" (.str command)) :: l)
    return (← presentIn command l).map (h :: ·)

/-- The loop of `upsertClaude` over the groups. -/
def presentInGroups (command : String) : List Json → JsM (Option (List Json))
  | [] => return none
  | g :: groups => do
    let hooks ← g.prop "hooks"
    match ← presentIn command (← iterate (if nullish hooks then .arr [] else hooks.getD .null)) with
    | some entries => return some ((← g.setProp "hooks" (.arr entries)) :: groups)
    | none => return (← presentInGroups command groups).map (g :: ·)

/-- `v[k] ??= x`. -/
def assign (v : Json) (k : String) (x : Json) : JsM (Json × Json) := do
  let old ← v.prop k
  if nullish old then return (x, ← v.setProp k x)
  else return (old.getD .null, v)

def putList (settings hooks : Json) (event : String) (list : Json) : JsM Json := do
  settings.setProp "hooks" (← hooks.setProp event list)

def upsertClaude (settings : Json) (event command : String) : JsM (InstallStatus × Json) := do
  let (hooks, settings) ← assign settings "hooks" (.obj [])
  let (groups, hooks) ← assign hooks event (.arr [])
  match ← presentInGroups command (← iterate groups) with
  | some groups => return (.alreadyPresent, ← putList settings hooks event (.arr groups))
  | none =>
    let group := obj [("hooks", .arr [obj [("type", str "command"), ("command", str command)]])]
    return (.registered, ← putList settings hooks event (.arr ((← asArray groups) ++ [group])))

/-- `if (settings.version == null) settings.version = 1`. -/
def defaultVersion (settings : Json) : JsM Json := do
  if nullish (← settings.prop "version") then settings.setProp "version" (num 1) else return settings

def upsertCursor (settings : Json) (event command : String) : JsM (InstallStatus × Json) := do
  let settings ← defaultVersion settings
  let (hooks, settings) ← assign settings "hooks" (.obj [])
  let (list, hooks) ← assign hooks event (.arr [])
  match ← presentIn command (← iterate list) with
  | some list => return (.alreadyPresent, ← putList settings hooks event (.arr list))
  | none =>
    return (.registered,
      ← putList settings hooks event (.arr ((← asArray list) ++ [obj [("command", str command)]])))

/-! ## The settings file -/

/-- `path.join`. -/
def join (dir file : String) : String :=
  let s := if dir = "" then file else dir ++ "/" ++ file
  let segs := (path.segments s).foldl (fun acc seg =>
    if seg = ['.'] then acc
    else if seg = ['.', '.'] then
      if acc = [] ∨ acc.getLast? = some ['.', '.'] then (if path.isAbsolute s then acc else acc ++ [seg])
      else acc.dropLast
    else acc ++ [seg]) []
  String.ofList ((if path.isAbsolute s then ['/'] else []) ++ ['/'].intercalate segs)

def readJson (file : Option Content) : Json :=
  match file with
  | none => obj []
  | some content => content.value.getD (obj [])

/-- What `writeJson` leaves in the file; `stringify` is `JSON.stringify` with two blanks of indentation. -/
def writeJson (stringify : Json → String) (data : Json) : Content := ⟨stringify data ++ "\n", some data.reparsed⟩

def validatePin (pin : String) : JsM Unit := if PIN_TOKEN pin then return () else throw (.invalidPin pin)

def remove (shape : Shape) (settings : Json) (event canonical : String) : JsM (Bool × Json) :=
  match shape with
  | .claude => removeClaude settings event canonical
  | .cursor => removeCursor settings event canonical

def upsert (shape : Shape) (settings : Json) (event command : String) : JsM (InstallStatus × Json) :=
  match shape with
  | .claude => upsertClaude settings event command
  | .cursor => upsertCursor settings event command

/-- The loop over a vendor's events: the results, whether the settings changed, and the settings. -/
def installEvents (spec : VendorSpec) (pin : Option String) :
    List (String × String) → Json → JsM (List (String × String × InstallStatus) × Bool × Json)
  | [], settings => return ([], false, settings)
  | (canonical, vendorEvent) :: events, settings => do
    let (status, changed, settings) ←
      if spec.pluginHook then do
        let (removed, settings) ← remove spec.shape settings vendorEvent canonical
        pure (if removed then InstallStatus.removedProjectHook else .providedByPlugin, removed, settings)
      else do
        let (status, settings) ← upsert spec.shape settings vendorEvent (hookCommand canonical pin)
        pure (status, true, settings)
    let (results, changed', settings) ← installEvents spec pin events settings
    return ((canonical, vendorEvent, status) :: results, changed || changed', settings)

/-- The loop over the retired events. -/
def removeRetired (shape : Shape) : List String → Json → JsM (List (String × String × InstallStatus) × Bool × Json)
  | [], settings => return ([], false, settings)
  | event :: events, settings => do
    let (removed, settings) ← remove shape settings event event
    let (results, changed, settings) ← removeRetired shape events settings
    return ((if removed then [(event, event, .removedProjectHook)] else []) ++ results, removed || changed, settings)

def installSettings (spec : VendorSpec) (pin : Option String) (settings : Json) :
    JsM (List (String × String × InstallStatus) × Bool × Json) := do
  let (results, changed, settings) ← installEvents spec pin spec.events settings
  let (removed, changed', settings) ← if spec.pluginHook then removeRetired spec.shape RETIRED_EVENTS settings
    else pure ([], false, settings)
  return (results ++ removed, changed || changed', settings)

/-- The vendor's file in the project directory, before and after. Nothing is thrown once it is written. -/
def install (stringify : Json → String) (harness : Harness) (projectDir : String) (pin : Option String)
    (file : Option Content) : Except InitError (List InstallResult) × Option Content :=
  let spec := VENDORS harness
  let outcome : JsM (List (String × String × InstallStatus) × Bool × Json) := do
    pin.forM validatePin
    installSettings spec pin (readJson file)
  match outcome with
  | .error e => (.error e, file)
  | .ok (results, changed, settings) =>
    (.ok (results.map fun (event, vendorEvent, status) =>
        { harness, event, vendorEvent, file := join projectDir spec.file, status }),
      if changed then some (writeJson stringify settings) else file)

end Init

end Cyberlegion
