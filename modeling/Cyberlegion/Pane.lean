import Cyberlegion.Lib.Prog
import Mathlib.Algebra.Ring.Int.Defs

/-!
# Panes

What the console functions call on a pane, and what a run of them shows. The adapter of
the multiplexer may fail on any call; the clock moves by what a sleep asks for.
-/

namespace Cyberlegion

namespace Console

open Effects

inductive PaneCall
  | paneExists
  | read
  | sendText (text : String)
  | sendKeys (keys : List String)
  | submit (text : Option String)
  | sleep (ms : Int)
  | now
  | send
deriving DecidableEq

section
variable (ε τ : Type)

abbrev PaneCall.Res : PaneCall → Type
  | .paneExists => Except ε Bool
  | .read => Except ε (Option String)
  | .sendText _ | .sendKeys _ | .submit _ => Except ε Unit
  | .sleep _ => Unit
  | .now => Int
  | .send => Except ε τ

inductive Reply
  | present (r : Except ε Bool)
  | screen (r : Except ε (Option String))
  | typed (r : Except ε Unit)
  | sent (r : Except ε τ)
  | time

abbrev Log := List (PaneCall × Reply ε τ)

def pane : (op : PaneCall) → Reply ε τ → Int → Option (op.Res ε τ × Int)
  | .paneExists, .present r, clock => some (r, clock)
  | .read, .screen r, clock => some (r, clock)
  | .sendText _, .typed r, clock => some (r, clock)
  | .sendKeys _, .typed r, clock => some (r, clock)
  | .submit _, .typed r, clock => some (r, clock)
  | .sleep ms, .time, clock => some ((), clock + ms)
  | .now, .time, clock => some (clock, clock)
  | .send, .sent r, clock => some (r, clock)
  | _, _, _ => none

end

section
variable {ε τ ε' α : Type}

/-- Use a call's answer, or throw what it threw. -/
def orThrow (wrap : ε → ε') : Except ε α → Prog PaneCall (PaneCall.Res ε τ) ε' α
  | .ok a => .ret a
  | .error e => .throw (wrap e)

/-! ## What a log shows -/

def screenOf : PaneCall × Reply ε τ → Option (Except ε (Option String))
  | (.read, .screen r) => some r
  | _ => none

def typedBy : PaneCall × Reply ε τ → Option String
  | (.sendText text, _) => some text
  | _ => none

def pressedBy : PaneCall × Reply ε τ → Option (List String)
  | (.sendKeys keys, _) => some keys
  | _ => none

def submittedBy : PaneCall × Reply ε τ → Option (Option String)
  | (.submit text, _) => some text
  | _ => none

def sleptBy : PaneCall × Reply ε τ → Int
  | (.sleep ms, _) => ms
  | _ => 0

def sends : PaneCall × Reply ε τ → Bool
  | (.send, _) => true
  | _ => false

def quiet : PaneCall × Reply ε τ → Bool
  | (.paneExists, _) | (.read, _) | (.sleep _, _) | (.now, _) => true
  | _ => false

def screens (l : Log ε τ) : List (Except ε (Option String)) := l.filterMap screenOf

def typed (l : Log ε τ) : List String := l.filterMap typedBy

def pressed (l : Log ε τ) : List (List String) := l.filterMap pressedBy

def submitted (l : Log ε τ) : List (Option String) := l.filterMap submittedBy

def elapsed (l : Log ε τ) : Int := (l.map sleptBy).sum

section
variable (l m : Log ε τ)

@[simp] theorem screens_append : screens (l ++ m) = screens l ++ screens m := List.filterMap_append

@[simp] theorem typed_append : typed (l ++ m) = typed l ++ typed m := List.filterMap_append

@[simp] theorem pressed_append : pressed (l ++ m) = pressed l ++ pressed m := List.filterMap_append

@[simp] theorem submitted_append : submitted (l ++ m) = submitted l ++ submitted m := List.filterMap_append

@[simp] theorem elapsed_append : elapsed (l ++ m) = elapsed l + elapsed m := by
  rw [elapsed, elapsed, elapsed, List.map_append, List.sum_append]

end

section
variable {w : Log ε τ} {e : PaneCall × Reply ε τ}

theorem quiet_calls (he : quiet e = true) :
    typedBy e = none ∧ pressedBy e = none ∧ submittedBy e = none ∧ sends e = false := by
  obtain ⟨op, reply⟩ := e
  cases op <;> first | exact ⟨rfl, rfl, rfl, rfl⟩ | cases he

theorem typed_quiet (hw : ∀ e ∈ w, quiet e = true) : typed w = [] :=
  List.filterMap_eq_nil_iff.mpr fun e he => (quiet_calls (hw e he)).1

theorem pressed_quiet (hw : ∀ e ∈ w, quiet e = true) : pressed w = [] :=
  List.filterMap_eq_nil_iff.mpr fun e he => (quiet_calls (hw e he)).2.1

theorem submitted_quiet (hw : ∀ e ∈ w, quiet e = true) : submitted w = [] :=
  List.filterMap_eq_nil_iff.mpr fun e he => (quiet_calls (hw e he)).2.2.1

theorem sends_quiet (hw : ∀ e ∈ w, quiet e = true) : w.countP sends = 0 := by
  rw [List.countP_eq_zero]
  intro e he hsends
  rw [(quiet_calls (hw e he)).2.2.2] at hsends
  cases hsends

end

/-! ## The calls, one by one -/

section
variable {α β : Type} {A : PaneCall → Reply ε τ → Prop} {Φ : PaneCall → Int × Log ε τ → Prop}
  {clock : Int} {l : Log ε τ}
variable {Q : Except ε' β → Int × Log ε τ → Prop}

theorem wp_read {f : Except ε (Option String) → Prog PaneCall (PaneCall.Res ε τ) ε' β} (hΦ : Φ .read (clock, l))
    (hf : ∀ r, A .read (.screen r) →
      wp (logged (pane ε τ)) A Φ (f r) Q (clock, l ++ [(.read, .screen r)])) :
    wp (logged (pane ε τ)) A Φ (Prog.perform .read >>= f) Q (clock, l) := by
  refine wp_logged_call hΦ fun c r t hc hop => ?_
  cases c <;> cases hop
  exact hf _ hc

theorem wp_sendText {text : String} {f : Except ε Unit → Prog PaneCall (PaneCall.Res ε τ) ε' β}
    (hΦ : Φ (.sendText text) (clock, l))
    (hf : ∀ r, A (.sendText text) (.typed r) →
      wp (logged (pane ε τ)) A Φ (f r) Q (clock, l ++ [(.sendText text, .typed r)])) :
    wp (logged (pane ε τ)) A Φ (Prog.perform (.sendText text) >>= f) Q (clock, l) := by
  refine wp_logged_call hΦ fun c r t hc hop => ?_
  cases c <;> cases hop
  exact hf _ hc

theorem wp_sendKeys {keys : List String} {f : Except ε Unit → Prog PaneCall (PaneCall.Res ε τ) ε' β}
    (hΦ : Φ (.sendKeys keys) (clock, l))
    (hf : ∀ r, A (.sendKeys keys) (.typed r) →
      wp (logged (pane ε τ)) A Φ (f r) Q (clock, l ++ [(.sendKeys keys, .typed r)])) :
    wp (logged (pane ε τ)) A Φ (Prog.perform (.sendKeys keys) >>= f) Q (clock, l) := by
  refine wp_logged_call hΦ fun c r t hc hop => ?_
  cases c <;> cases hop
  exact hf _ hc

theorem wp_send {f : Except ε τ → Prog PaneCall (PaneCall.Res ε τ) ε' β} (hΦ : Φ .send (clock, l))
    (hf : ∀ r, A .send (.sent r) →
      wp (logged (pane ε τ)) A Φ (f r) Q (clock, l ++ [(.send, .sent r)])) :
    wp (logged (pane ε τ)) A Φ (Prog.perform .send >>= f) Q (clock, l) := by
  refine wp_logged_call hΦ fun c r t hc hop => ?_
  cases c <;> cases hop
  exact hf _ hc

theorem wp_sleep {ms : Int} {f : Unit → Prog PaneCall (PaneCall.Res ε τ) ε' β} (hΦ : Φ (.sleep ms) (clock, l))
    (hf : wp (logged (pane ε τ)) A Φ (f ()) Q (clock + ms, l ++ [(.sleep ms, .time)])) :
    wp (logged (pane ε τ)) A Φ (Prog.perform (.sleep ms) >>= f) Q (clock, l) := by
  refine wp_logged_call hΦ fun c r t _ hop => ?_
  cases c <;> cases hop
  exact hf

theorem wp_now {f : Int → Prog PaneCall (PaneCall.Res ε τ) ε' β} (hΦ : Φ .now (clock, l))
    (hf : wp (logged (pane ε τ)) A Φ (f clock) Q (clock, l ++ [(.now, .time)])) :
    wp (logged (pane ε τ)) A Φ (Prog.perform .now >>= f) Q (clock, l) := by
  refine wp_logged_call hΦ fun c r t _ hop => ?_
  cases c <;> cases hop
  exact hf

theorem wp_orThrow {wrap : ε → ε'} {a : Except ε α} {f : α → Prog PaneCall (PaneCall.Res ε τ) ε' β}
    {s : Int × Log ε τ} (herr : ∀ e, a = .error e → Q (.error (wrap e)) s)
    (hok : ∀ b, a = .ok b → wp (logged (pane ε τ)) A Φ (f b) Q s) :
    wp (logged (pane ε τ)) A Φ (orThrow wrap a >>= f) Q s := by
  cases a with
  | ok b => exact hok b rfl
  | error e => exact herr e rfl

end

end

end Console

end Cyberlegion
