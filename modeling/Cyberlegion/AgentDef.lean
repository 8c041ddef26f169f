import Cyberlegion.Session
import Cyberlegion.Lib.Text

/-!
# Agent definitions

`agentdef/resolve.ts`: a definition is a text with a frontmatter between two fences,
a small subset of YAML, and a body.
-/

namespace Cyberlegion.Definition

open Text

abbrev Line := List Char

abbrev strip : Line → Line := trim jsSpace

/-! ## The frontmatter -/

abbrev Fields := List (String × String)

/-- `fm[key] = value`; a text assigned to `__proto__` is dropped. -/
def Fields.set (fm : Fields) (key value : String) : Fields :=
  if key = "__proto__" then fm
  else if fm.any (·.1 = key) then fm.map fun f => if f.1 = key then (key, value) else f
  else fm ++ [(key, value)]

def Fields.get (fm : Fields) (key : String) : Option String := fm.lookup key

/-- `line.replace(/\r$/, '')` -/
def chomp (line : Line) : Line := if line.getLast? = some '\r' then line.dropLast else line

/-- The width of the white space a line begins with. -/
def indent (line : Line) : Nat := line.length - (line.dropWhile jsSpace).length

def isQuoted (v : Line) : Bool :=
  2 ≤ v.length ∧ ((v.head? = some '"' ∧ v.getLast? = some '"') ∨ (v.head? = some '\'' ∧ v.getLast? = some '\''))

def unquote (v : Line) : Line := if isQuoted v then v.tail.dropLast else v

/-- `>`, `>-`, `|`, `|-`: a block of lines follows. -/
def opensBlock (value : Line) : Bool := value ∈ [['>'], ['>', '-'], ['|'], ['|', '-']]

/-- The lines of a block, and those after it: it ends at the first line that is not indented. -/
def blockLines : List Line → List Line × List Line
  | [] => ([], [])
  | line :: lines =>
    let l := chomp line
    if strip l = [] then blockLines lines
    else if indent l = 0 then ([], line :: lines)
    else (strip l :: (blockLines lines).1, (blockLines lines).2)

theorem blockLines_length (lines : List Line) : (blockLines lines).2.length ≤ lines.length := by
  induction lines with
  | nil => exact Nat.le_refl _
  | cons line lines ih =>
    simp only [blockLines]
    split
    · exact Nat.le_succ_of_le ih
    · split
      · exact Nat.le_refl _
      · exact Nat.le_succ_of_le ih

def blockJoin (marker : Line) : Line := if marker.head? = some '|' then ['\n'] else [' ']

def parseFields : List Line → Fields → Fields
  | [], fm => fm
  | line :: lines, fm =>
    let line := chomp line
    if strip line = [] ∨ (strip line).head? = some '#' then parseFields lines fm
    else if 0 < indent line then parseFields lines fm
    else if ':' ∉ line then parseFields lines fm
    else
      let key := String.ofList (strip (line.takeWhile (· ≠ ':')))
      let value := strip ((line.dropWhile (· ≠ ':')).drop 1)
      if opensBlock value then
        have := blockLines_length lines
        parseFields (blockLines lines).2
          (fm.set key (String.ofList (unquote ((blockJoin value).intercalate (blockLines lines).1))))
      else parseFields lines (fm.set key (String.ofList (unquote value)))
termination_by lines => lines.length

/-! ## The file -/

def eatPrefix : Line → Line → Option Line
  | [], s => some s
  | c :: cs, d :: s => if c = d then eatPrefix cs s else none
  | _ :: _, [] => none

/-- `---\r?\n`: what follows the opening fence. -/
def opening (s : Line) : Option Line := (eatPrefix "---\r\n".toList s).or (eatPrefix "---\n".toList s)

/-- `\r?\n---`: what follows the closing fence. -/
def closing (s : Line) : Option Line := (eatPrefix "\r\n---".toList s).or (eatPrefix "\n---".toList s)

/-- `([\s\S]*?)\r?\n---`: the shortest front that a closing fence follows, and the rest. -/
def splitFence : Line → Option (Line × Line)
  | [] => none
  | c :: s =>
    match closing (c :: s) with
    | some rest => some ([], rest)
    | none => (splitFence s).map fun (block, rest) => (c :: block, rest)

/-- `parseAgentDefFile`; `\s*` after the closing fence eats all the white space there is. -/
def parseAgentDefFile (text : String) : Fields × String :=
  match (opening text.toList).bind splitFence with
  | none => ([], jsTrim text)
  | some (block, rest) =>
    (parseFields (block.splitOn '\n') [], jsTrim (String.ofList (rest.dropWhile jsSpace)))

/-! ## The definition -/

structure AgentDef where
  name : String
  description : Option String := none
  model : Option String := none
  effort : Option String := none
  harness : Option Harness := none
  warm : Option Bool := none
  interactive : Option Bool := none
  instructions : String
  path : String

def toBool : Option String → Option Bool
  | some "true" => some true
  | some "false" => some false
  | _ => none

/-- `Object.keys(LAUNCH_MAP) as Harness[]` -/
def HARNESSES : List Harness := LAUNCH_MAP.filterMap fun e => [Harness.claude, .cursor, .codex].find? (·.name = e.1)

def toHarness (value : Option String) (path : String) : Except String (Option Harness) :=
  match value with
  | none => .ok none
  | some value =>
    match HARNESSES.find? (·.name = value) with
    | some harness => .ok (some harness)
    | none => .error ("agent def \"" ++ path ++ "\" has unknown harness \"" ++ value ++ "\" — expected one of " ++
        ", ".intercalate (HARNESSES.map (·.name)))

def toAgentDef (path text fallbackName : String) : Except String AgentDef := do
  let (fm, instructions) := parseAgentDefFile text
  return {
    name := (fm.get "name").getD fallbackName
    description := fm.get "description"
    model := fm.get "model"
    effort := fm.get "effort"
    harness := ← toHarness (fm.get "harness") path
    warm := toBool (fm.get "warm")
    interactive := toBool (fm.get "interactive")
    instructions, path }

structure ResolveAgentDefInput where
  name : Option String := none
  file : Option String := none
  searchRoots : List String := []

/-- `resolveAgentDef` over the files that exist; `agentsDir` is the project's own directory. -/
def resolveAgentDef (files : String → Option String) (cwd agentsDir : String) (input : ResolveAgentDefInput) :
    Except String AgentDef :=
  match given input.file with
  | some file =>
    let full := path.resolve cwd file
    match files full with
    | none => .error ("agent def file \"" ++ file ++ "\" does not exist")
    | some text => toAgentDef full text (stem (path.basename full))
  | none =>
    match given input.name with
    | none => .error "resolveAgentDef needs a --agent <name> or --agent-file <path>"
    | some name =>
      match (input.searchRoots ++ [agentsDir]).findSome? fun root =>
          let candidate := root ++ "/" ++ name ++ ".md"
          (files candidate).map fun text => (candidate, text) with
      | some (candidate, text) => toAgentDef candidate text name
      | none => .error ("no agent definition named \"" ++ name ++ "\" found under .agents/agents/")
where
  /-- `.replace(/\.md$/, '')` -/
  stem (base : String) : String := if base.endsWith ".md" then slice base (base.length - 3) else base

end Cyberlegion.Definition
