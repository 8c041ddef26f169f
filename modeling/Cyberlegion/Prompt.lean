import Cyberlegion.Paths
import Cyberlegion.Pane

/-!
# The input box and its guard

`prompt-guard.ts`. A screen is its rows; a row is the list of its characters. `head`
is the regular expression `^glyph(?:[seps](.*))?$` of a shape.
-/

namespace Cyberlegion

namespace Console

open Effects

abbrev Row := List Char

inductive PromptState
  | empty
  | draft (text : Row) (rows : Nat)
  | unknown
deriving DecidableEq

def blank (row : Row) : Bool := row.all jsSpace

def trimEnd (row : Row) : Row := row.rdropWhile jsSpace

/-- What `.` of a regular expression does not match. -/
def lineTerminator (c : Char) : Bool := c.toNat ∈ [0x0A, 0x0D, 0x2028, 0x2029]

structure PromptShape where
  glyph : Row
  seps : Row
  indent : Row
  ruled : Bool
  placeholder : Row → Bool

/-- Group 1 of the match of a box's first row; the empty row where nothing follows the glyph. -/
def PromptShape.head (shape : PromptShape) (row : Row) : Option Row :=
  match shape.glyph.isPrefixOf? row with
  | none => none
  | some [] => some []
  | some (c :: typed) => if c ∈ shape.seps ∧ ¬ typed.any lineTerminator then some typed else none

def CODEX_PLACEHOLDERS : List String :=
  ["Ask Codex to do anything", "Explain this codebase", "Summarize recent commits", "Implement \x7bfeature\x7d",
    "Find and fix a bug in @filename", "Write tests for @filename", "Improve documentation in @filename",
    "Run /review on my current changes", "Use /skills to list available skills"]

/-- `/^Try ".*"$/`. -/
def tryPlaceholder (text : Row) : Bool :=
  match "Try \"".toList.isPrefixOf? text with
  | none => false
  | some rest => rest.getLast? = some '"' ∧ ¬ rest.dropLast.any lineTerminator

namespace SHAPES

def claude : PromptShape where
  glyph := ['❯']
  seps := [' ', '\u00a0']
  indent := [' ', ' ']
  ruled := true
  placeholder := tryPlaceholder

def codex : PromptShape where
  glyph := ['›']
  seps := [' ']
  indent := [' ', ' ']
  ruled := false
  placeholder := fun text => String.ofList text ∈ CODEX_PLACEHOLDERS

def cursor : PromptShape where
  glyph := [' ', ' ', '→']
  seps := [' ']
  indent := [' ', ' ', ' ', ' ']
  ruled := false
  placeholder := fun text => String.ofList text = "Plan, search, build anything"

end SHAPES

inductive Harness
  | claude
  | codex
  | cursor
deriving DecidableEq

def SHAPES : Harness → PromptShape
  | .claude => SHAPES.claude
  | .codex => SHAPES.codex
  | .cursor => SHAPES.cursor

def Harness.name : Harness → String
  | .claude => "claude"
  | .codex => "codex"
  | .cursor => "cursor"

def MAX_ROWS_BELOW : Nat := 6

/-- `/^─{3,}/`. -/
def isRule (row : Row) : Bool := ['─', '─', '─'].isPrefixOf row

def joinRows (lines : List Row) : Row := ['\n'].intercalate lines

section
variable (shape : PromptShape) (rows : List Row)

/-- A row that goes on with the box above it. -/
def PromptShape.continues (row : Row) : Bool := shape.indent.isPrefixOf row ∧ ¬ blank row

def PromptShape.state (lines : List Row) : PromptState :=
  if joinRows lines = [] ∨ (lines.length = 1 ∧ shape.placeholder (joinRows lines) = true) then .empty
  else .draft (joinRows lines) lines.length

/-- `rows[pos - 1] ?? ''`. -/
def rowAbove (pos : Nat) : Row := if pos = 0 then [] else rows.getD (pos - 1) []

/-- The rows under the box close it: a rule, or a blank row and a short footer. -/
def PromptShape.closes (rest : List Row) : Bool :=
  if shape.ruled = true then isRule (rest.headD [])
  else blank (rest.headD []) ∧ (rest.filter fun row => !blank row).length ≤ MAX_ROWS_BELOW

/-- One turn of the scan: the state of the box whose first row is at `pos`, `none` where it goes on. -/
def PromptShape.readAt (pos : Nat) : Option PromptState :=
  match shape.head (rows.getD pos []) with
  | none => none
  | some first =>
    if shape.ruled = true ∧ isRule (rowAbove rows pos) = false then none
    else
      let more := (rows.drop (pos + 1)).takeWhile shape.continues
      let lines := trimEnd first :: more.map fun row => trimEnd (row.drop shape.indent.length)
      if shape.closes (rows.drop (pos + 1 + more.length)) = true then some (shape.state lines) else none

def PromptShape.scan : Nat → PromptState
  | 0 => .unknown
  | pos + 1 => (shape.readAt rows pos).getD (PromptShape.scan pos)

def readShape : PromptState := shape.scan rows rows.length

end

/-- The names that `SHAPES[harness]` finds on the prototype of `SHAPES`: no shape, but not nothing. -/
def prototypeNames : List String :=
  ["constructor", "__proto__", "hasOwnProperty", "isPrototypeOf", "propertyIsEnumerable", "toLocaleString", "toString",
    "valueOf", "__defineGetter__", "__defineSetter__", "__lookupGetter__", "__lookupSetter__"]

def rowsOf (screen : String) : List Row := screen.toList.splitOn '\n'

def firstKnown : List PromptState → PromptState
  | [] => .unknown
  | .unknown :: states => firstKnown states
  | state :: _ => state

/-- `none` stands for the `TypeError` of a harness that names a property of the prototype. -/
def readPrompt (screen : String) (harness : Option String) : Option PromptState :=
  let read (shape : PromptShape) := readShape shape (rowsOf screen)
  match harness with
  | some "claude" => some (read SHAPES.claude)
  | some "codex" => some (read SHAPES.codex)
  | some "cursor" => some (read SHAPES.cursor)
  | other =>
    if other.any (· ∈ prototypeNames) then none
    else some (firstKnown [read SHAPES.claude, read SHAPES.codex, read SHAPES.cursor])

end Console

end Cyberlegion
