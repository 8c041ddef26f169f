import Mathlib.Data.List.Infix
import Cyberlegion.RingSound

/-!
# A first turn that is posted

The harness takes the first submission and posts the message, wrapped at the width of the
pane. `copiesOn` looks for the needle in one row, so the turn is seen exactly where some
row of the posted copy holds the needle whole.
-/

namespace Cyberlegion

namespace Console

open Effects

/-! ## Collapsed texts -/

section
variable {text : Units}

end

section
variable {message : String}

/-- The message has something in it besides blanks. -/
def NonBlank (message : String) : Prop := ∃ u ∈ unitsOf message, unitSpace u = false

/-- The rows show the message at the width of the pane: its characters in order, blanks apart. -/
def Wrapped (width : Nat) (message : String) (rows : List Units) : Prop :=
  (∀ row ∈ rows, row.length ≤ width) ∧
    (rows.flatten.filter fun u => !unitSpace u) = (unitsOf message).filter fun u => !unitSpace u

/-- The screen shows the posted rows, among rows that carry the copies that were there before; the
input box is empty. -/
def PostedOn (isStaged : Option String → String → Bool) (message : String) (before : Nat) (posted : List Units)
    (screen : Option String) : Prop :=
  isStaged screen message = false ∧ ∃ text above below, screen = some text ∧ rowsOn text = above ++ posted ++ below ∧
    ((above ++ below).filter (carries message)).length = before

/-- The adapter does what it is asked. -/
def Works {ε τ : Type} : PaneCall → Reply ε τ → Prop
  | _, .present r => r = .ok true
  | _, .screen r => ∃ screen, r = .ok screen
  | _, .typed r => r = .ok ()
  | _, _ => True

/-- Every screen read once the message was typed shows it posted. -/
def Posts {ε τ : Type} (isStaged : Option String → String → Bool) (message : String) (posted : List Units)
    (l : Log ε τ) : Prop :=
  ∀ front x since, l = front ++ (.submit (some message), x) :: since →
    ∀ r ∈ screens since, ∃ screen, r = .ok screen ∧ PostedOn isStaged message (copiesBefore message l) posted screen

end

/-! ## The first check -/

section
variable {ε τ : Type} {isStaged : Option String → String → Bool} {target message : String} {opts : RingOptions}

def doorbell : String := "You have unread mail — check your inbox."

theorem posts_of {ε τ : Type} {isStaged : Option String → String → Bool} {message : String} {posted : List Units}
    {c : Reply ε τ} {r : Except ε (Option String)} {rest : Log ε τ}
    (h : ∀ r' ∈ screens rest, ∃ screen, r' = .ok screen ∧
      PostedOn isStaged message (copiesBefore message ((.paneExists, c) :: (.read, .screen r) :: rest)) posted screen) :
    Posts isStaged message posted ((.paneExists, c) :: (.read, .screen r) :: rest) := by
  intro front x since hl r' hr'
  cases front with
  | nil => cases (List.cons.inj hl).1
  | cons e front =>
    obtain ⟨-, hl⟩ := List.cons.inj hl
    cases front with
    | nil => cases (List.cons.inj hl).1
    | cons e front =>
      obtain ⟨-, hl⟩ := List.cons.inj hl
      refine h r' ?_
      rw [hl, List.append_eq, screens_append]
      exact List.mem_append_right _ hr'

def neverStaged : Option String → String → Bool := fun _ _ => false

def doorbellOptions : RingOptions where
  attempts := some 3
  requirePosted := true

def takenReplies (screen : String) : List (Reply Unit Unit) :=
  [.present (.ok true), .screen (.ok (some "")), .typed (.ok ()), .time, .screen (.ok (some screen))]

def lostReplies (screen : String) : List (Reply Unit Unit) :=
  takenReplies screen ++
  [.time, .screen (.ok (some screen)), .typed (.ok ()), .time, .screen (.ok (some screen)), .time,
    .screen (.ok (some screen))]

theorem doorbell_nonBlank : NonBlank doorbell := ⟨0x59, by decide, by decide⟩

def postedLog (screen : String) (rest : Log Unit Unit) : Log Unit Unit :=
  [(.paneExists, .present (.ok true)), (.read, .screen (.ok (some ""))), (.submit (some doorbell), .typed (.ok ())),
    (.sleep 400, .time), (.read, .screen (.ok (some screen)))] ++ rest

def narrowScreen : String := "You have unread mail\n— check your inbox."

def narrowRows : List Units := [unitsOf "You have unread mail", unitsOf "— check your inbox."]

theorem narrow_run : run (pane Unit Unit) (ringTurn neverStaged "%1" doorbell doorbellOptions)
    (lostReplies narrowScreen) 0 =
    some (.error (.neverTaken "%1" .lost 3), 1600) := rfl

theorem narrow_trace : trace (pane Unit Unit) (ringTurn neverStaged "%1" doorbell doorbellOptions)
    (lostReplies narrowScreen) 0 =
    postedLog narrowScreen [(.sleep 400, .time), (.read, .screen (.ok (some narrowScreen))),
      (.submit (some doorbell), .typed (.ok ())), (.sleep 400, .time), (.read, .screen (.ok (some narrowScreen))),
      (.sleep 400, .time), (.read, .screen (.ok (some narrowScreen)))] := rfl

theorem narrow_wrapped : Wrapped 20 doorbell narrowRows := ⟨by decide, by decide⟩

theorem narrow_posted : PostedOn neverStaged doorbell 0 narrowRows (some narrowScreen) :=
  ⟨rfl, narrowScreen, [], [], rfl, by decide, rfl⟩

/-- In a pane of twenty columns no row carries the needle: the turn that was taken is typed again. -/
theorem ringTurn_posted_narrow : ∃ (isStaged : Option String → String → Bool) (target message : String)
    (opts : RingOptions) (width : Nat) (posted : List Units) (cs : List (Reply Unit Unit)) (clock clock' : Int)
    (r : Except (RingError Unit) NudgeResult), opts.requirePosted = true ∧ NonBlank message ∧
      Wrapped width message posted ∧
      run (pane Unit Unit) (ringTurn isStaged target message opts) cs clock = some (r, clock') ∧
      (∀ e ∈ trace (pane Unit Unit) (ringTurn isStaged target message opts) cs clock, Works e.1 e.2) ∧
      Posts isStaged message posted (trace (pane Unit Unit) (ringTurn isStaged target message opts) cs clock) ∧
      (∀ resubmits, r ≠ .ok ⟨true, resubmits⟩) ∧
      (trace (pane Unit Unit) (ringTurn isStaged target message opts) cs clock).countP (types message) = 2 := by
  refine ⟨neverStaged, "%1", doorbell, doorbellOptions, 20, narrowRows, lostReplies narrowScreen, 0, 1600,
    .error (.neverTaken "%1" .lost 3), rfl, doorbell_nonBlank, narrow_wrapped, narrow_run, ?_, ?_, nofun, ?_⟩
  · rw [narrow_trace]
    simp [postedLog, Works]
  · rw [narrow_trace]
    refine posts_of fun r hr => ⟨some narrowScreen, ?_, narrow_posted⟩
    simpa [screens, screenOf, eq_comm] using hr
  · rw [narrow_trace]
    simp [postedLog, types]

end

end Console

end Cyberlegion
