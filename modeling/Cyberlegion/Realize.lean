import Cyberlegion.AgentDef

/-!
# Launch commands

`agentdef/realize.ts`: the command line that launches a harness with a definition's
model, effort and instructions.
-/

namespace Cyberlegion.Definition

structure RealizeLaunchOptions where
  model : Option String := none
  effort : Option String := none
  harness : Option Harness := none
  /-- The ids that `cursor-agent models` lists. -/
  listCursorModels : List String := []

structure RealizedLaunch where
  harness : Harness
  command : String
  model : Option String := none
  effort : Option String := none
  effortNotApplied : Option String := none
  briefInstructions : Option String := none

structure CursorModel where
  model : Option String
  effortApplied : Bool

def cursorModel (model effort : Option String) (listed : List String) : CursorModel :=
  match given model, given effort with
  | some m, some e =>
    let suffix := "-" ++ e
    if m.endsWith suffix ∧ m ∈ listed then ⟨some m, true⟩
    else if m ++ suffix ∈ listed then ⟨some (m ++ suffix), true⟩
    else ⟨some m, false⟩
  | _, effort => ⟨model, effort.isNone⟩

def modelAndEffortArgs (harness : Harness) (model effort : Option String) : List String :=
  let args := (match given model with
    | some model => ["--model", shellQuote model]
    | none => [])
  match given effort, harness with
  | none, _ | _, .cursor => args
  | some effort, .codex => args ++ ["-c", shellQuote ("model_reasoning_effort=\"" ++ effort ++ "\"")]
  | some effort, .claude => args ++ ["--effort", shellQuote effort]

/-- The escape that `JSON.stringify` writes for a character. -/
def jsonEscape (c : Char) : List Char :=
  if c = '"' then ['\\', '"']
  else if c = '\\' then ['\\', '\\']
  else if c = '\x08' then ['\\', 'b']
  else if c = '\t' then ['\\', 't']
  else if c = '\n' then ['\\', 'n']
  else if c = '\x0c' then ['\\', 'f']
  else if c = '\r' then ['\\', 'r']
  else if c.toNat < 32 then ['\\', 'u', '0', '0', Nat.digitChar (c.toNat / 16), Nat.digitChar (c.toNat % 16)]
  else [c]

/-- `JSON.stringify` of a text. -/
def jsonString (value : String) : String := String.ofList ('"' :: value.toList.flatMap jsonEscape ++ ['"'])

/-- `.replace(/\x7f/g, '\\u007f')` -/
def escapeDelete (c : Char) : List Char := if c = '\x7f' then "\\u007f".toList else [c]

def tomlBasicString (value : String) : String := String.ofList ((jsonString value).toList.flatMap escapeDelete)

def instructionArgs (harness : Harness) (instructions : String) : List String :=
  match given (some instructions), harness with
  | none, _ | _, .cursor => []
  | some instructions, .claude => ["--append-system-prompt", shellQuote instructions]
  | some instructions, .codex => ["-c", shellQuote ("developer_instructions=" ++ tomlBasicString instructions)]

def binary (harness : Harness) : String := (LAUNCH_MAP.lookup harness.name).getD ""

def realizeLaunch (d : AgentDef) (opts : RealizeLaunchOptions) : RealizedLaunch :=
  let harness := (opts.harness.or d.harness).getD .claude
  let effort := opts.effort.or d.effort
  let asked := opts.model.or d.model
  let cursor := if harness = .cursor then some (cursorModel asked effort opts.listCursorModels) else none
  let model := (match cursor with
    | some cursor => cursor.model
    | none => asked)
  let parts := [binary harness] ++ modelAndEffortArgs harness model effort ++ instructionArgs harness d.instructions
  let notApplied := if cursor.any (¬ ·.effortApplied) then given effort else none
  { harness
    command := " ".intercalate parts
    model
    effort := if notApplied.isSome then none else effort
    effortNotApplied := notApplied
    briefInstructions := if harness = .cursor then given (some d.instructions) else none }

end Cyberlegion.Definition
