import Mathlib.Logic.Function.Basic
import Mathlib.Logic.Relation
import Mathlib.Order.Defs.PartialOrder

/-!
# Runs of a partial step function

A system is a function `step : σ → α → Option σ`: `none` where the event is not
enabled. `exec` runs a list of events; `AllSteps` says that every event of a run
meets a condition in the state it happens in. An invariant is proved for one
step and carried to whole runs by `exec_inv` and `exec_inv_of`.
-/

namespace Runs

variable {σ α : Type*} (step : σ → α → Option σ)

def exec : σ → List α → Option σ
  | s, [] => some s
  | s, a :: as => (step s a).bind fun s' => exec s' as

/-- Every event of the run meets `C` in the state it happens in. -/
def AllSteps (C : σ → α → Prop) : σ → List α → Prop
  | _, [] => True
  | s, a :: as => C s a ∧ ∀ s', step s a = some s' → AllSteps C s' as

@[simp] theorem exec_nil (s : σ) : exec step s [] = some s := rfl

theorem exec_cons (s : σ) (a : α) (as : List α) :
    exec step s (a :: as) = (step s a).bind fun s' => exec step s' as := rfl

theorem exec_cons_eq_some {s t : σ} {a : α} {as : List α} :
    exec step s (a :: as) = some t ↔ ∃ s', step s a = some s' ∧ exec step s' as = some t := by
  rw [exec_cons, Option.bind_eq_some_iff]

theorem exec_append (s : σ) (as bs : List α) :
    exec step s (as ++ bs) = (exec step s as).bind fun s' => exec step s' bs := by
  induction as generalizing s with
  | nil => rfl
  | cons a as ih =>
    rw [List.cons_append, exec_cons, exec_cons, Option.bind_assoc]
    exact congrArg _ (funext fun s' => ih s')

theorem exec_append_eq_some {s t : σ} {as bs : List α} :
    exec step s (as ++ bs) = some t ↔ ∃ u, exec step s as = some u ∧ exec step u bs = some t := by
  rw [exec_append, Option.bind_eq_some_iff]

theorem exec_snoc_eq_some {s t : σ} {as : List α} {a : α} :
    exec step s (as ++ [a]) = some t ↔ ∃ u, exec step s as = some u ∧ step u a = some t := by
  rw [exec_append_eq_some]
  simp only [exec_cons_eq_some, exec_nil, Option.some.injEq, exists_eq_right]

section
variable {step} {C : σ → α → Prop}

theorem AllSteps.append {s : σ} {as bs : List α} (ha : AllSteps step C s as)
    (hb : ∀ u, exec step s as = some u → AllSteps step C u bs) : AllSteps step C s (as ++ bs) := by
  induction as generalizing s with
  | nil => exact hb s rfl
  | cons a as ih =>
    refine ⟨ha.1, fun s' hs => ih (ha.2 s' hs) fun u hu => hb u ?_⟩
    exact (exec_cons_eq_some step).mpr ⟨s', hs, hu⟩

theorem AllSteps.split {s u : σ} {as bs : List α} (h : AllSteps step C s (as ++ bs)) (hu : exec step s as = some u) :
    AllSteps step C s as ∧ AllSteps step C u bs := by
  induction as generalizing s with
  | nil => cases hu; exact ⟨trivial, h⟩
  | cons a as ih =>
    obtain ⟨s', hs', hu⟩ := (exec_cons_eq_some step).mp hu
    refine ⟨⟨h.1, fun t ht => ?_⟩, (ih (h.2 s' hs') hu).2⟩
    obtain rfl : s' = t := Option.some.inj (hs'.symm.trans ht)
    exact (ih (h.2 s' hs') hu).1

def AllSteps.decide [∀ s a, Decidable (C s a)] : ∀ (s : σ) (as : List α), Decidable (AllSteps step C s as)
  | _, [] => isTrue trivial
  | s, a :: as =>
    match hs : step s a with
    | none => decidable_of_iff (C s a) ⟨fun h => ⟨h, fun _ h' => by simp [hs] at h'⟩, fun h => h.1⟩
    | some s' =>
      have : Decidable (AllSteps step C s' as) := AllSteps.decide s' as
      decidable_of_iff (C s a ∧ AllSteps step C s' as)
        ⟨fun h => ⟨h.1, fun t ht => by rw [hs] at ht; cases ht; exact h.2⟩, fun h => ⟨h.1, h.2 s' hs⟩⟩

instance [∀ s a, Decidable (C s a)] (s : σ) (as : List α) : Decidable (AllSteps step C s as) :=
  AllSteps.decide s as

theorem AllSteps.mono {C' : σ → α → Prop} (hC : ∀ s a, C s a → C' s a) {s : σ} {as : List α}
    (h : AllSteps step C s as) : AllSteps step C' s as := by
  induction as generalizing s with
  | nil => trivial
  | cons a as ih => exact ⟨hC _ _ h.1, fun s' hs => ih (h.2 s' hs)⟩

theorem allSteps_of_forall {P : α → Prop} {s : σ} {as : List α} (h : ∀ a ∈ as, P a) :
    AllSteps step (fun _ a => P a) s as := by
  induction as generalizing s with
  | nil => trivial
  | cons a as ih => exact ⟨h a List.mem_cons_self, fun _ _ => ih fun a' ha' => h a' (List.mem_cons_of_mem _ ha')⟩


theorem AllSteps.and {C' : σ → α → Prop} {s : σ} {as : List α} (h : AllSteps step C s as)
    (h' : AllSteps step C' s as) :
    AllSteps step (fun s a => C s a ∧ C' s a) s as := by
  induction as generalizing s with
  | nil => trivial
  | cons a as ih => exact ⟨⟨h.1, h'.1⟩, fun s' hs => ih (h.2 s' hs) (h'.2 s' hs)⟩

/-- What every step that meets `C` keeps, a run of such steps keeps. -/
theorem exec_inv_of {I : σ → Prop} (hI : ∀ s a s', I s → C s a → step s a = some s' → I s')
    {s t : σ} {as : List α} (hs : I s) (hC : AllSteps step C s as) (h : exec step s as = some t) : I t := by
  induction as generalizing s with
  | nil => cases h; exact hs
  | cons a as ih =>
    obtain ⟨s', hs', h⟩ := (exec_cons_eq_some step).mp h
    exact ih (hI s a s' hs hC.1 hs') (hC.2 s' hs') h

theorem exec_inv {I : σ → Prop} (hI : ∀ s a s', I s → step s a = some s' → I s')
    {s t : σ} {as : List α} (hs : I s) (h : exec step s as = some t) : I t := by
  induction as generalizing s with
  | nil => cases h; exact hs
  | cons a as ih =>
    obtain ⟨s', hs', h⟩ := (exec_cons_eq_some step).mp h
    exact ih (hI s a s' hs hs') h

end

/-! ## Logs -/

/-- Each entry of the log takes up where the entry before it left off. -/
def Linked {ε π : Type*} (before after : ε → π) : π → List ε → π → Prop
  | p, [], q => p = q
  | p, e :: es, q => before e = p ∧ Linked before after (after e) es q

section
variable {ε π ο : Type*} {before after : ε → π} {p q r : π} {log log' : List ε} {e : ε}

theorem linked_append :
    Linked before after p (log ++ log') r ↔ ∃ q, Linked before after p log q ∧ Linked before after q log' r := by
  induction log generalizing p with
  | nil => simp [Linked]
  | cons e es ih => simp only [List.cons_append, Linked, ih, and_assoc, exists_and_left]

theorem Linked.snoc (h : Linked before after p log (before e)) : Linked before after p (log ++ [e]) (after e) :=
  linked_append.mpr ⟨_, h, rfl, rfl⟩

/-- Along a log whose entries only go up, every entry starts above the start. -/
theorem Linked.le [Preorder ο] {f : π → ο} (h : Linked before after p log q)
    (hup : ∀ e ∈ log, f (before e) ≤ f (after e)) : ∀ e ∈ log, f p ≤ f (before e) := by
  induction log generalizing p with
  | nil => intro e he; cases he
  | cons e es ih =>
    obtain ⟨rfl, h⟩ := h
    intro e' he'
    rcases List.mem_cons.mp he' with rfl | he'
    · exact le_refl _
    · have hle := ih h (fun e he => hup e (List.mem_cons_of_mem _ he)) e' he'
      exact le_trans (hup e List.mem_cons_self) hle

theorem Linked.pairwise [Preorder ο] {f : π → ο} (h : Linked before after p log q)
    (hup : ∀ e ∈ log, f (before e) ≤ f (after e)) : log.Pairwise fun e e' => f (after e) ≤ f (before e') := by
  induction log generalizing p with
  | nil => exact .nil
  | cons e es ih =>
    have hup' : ∀ e ∈ es, f (before e) ≤ f (after e) := fun e he => hup e (List.mem_cons_of_mem _ he)
    exact .cons (h.2.le hup') (ih h.2 hup')

/-- Where the entries only go up, the ends of any two entries are comparable. -/
theorem Linked.total [Preorder ο] {f : π → ο} (h : Linked before after p log q)
    (hup : ∀ e ∈ log, f (before e) ≤ f (after e)) {e e' : ε} (he : e ∈ log) (he' : e' ∈ log) :
    f (after e) ≤ f (after e') ∨ f (after e') ≤ f (after e) := by
  induction log generalizing p with
  | nil => cases he
  | cons d es ih =>
    have hup' : ∀ e ∈ es, f (before e) ≤ f (after e) := fun e he => hup e (List.mem_cons_of_mem _ he)
    have hle : ∀ e ∈ es, f (after d) ≤ f (after e) := fun e he => le_trans (h.2.le hup' e he) (hup' e he)
    rcases List.mem_cons.mp he with heq | hmem <;> rcases List.mem_cons.mp he' with heq' | hmem'
    · rw [heq, heq']; exact .inl (le_refl _)
    · rw [heq]; exact .inl (hle _ hmem')
    · rw [heq']; exact .inr (hle _ hmem)
    · exact ih h.2 hup' hmem hmem'

end

def Reachable (init s : σ) : Prop := ∃ as, exec step init as = some s

theorem Reachable.refl (s : σ) : Reachable step s s := ⟨[], rfl⟩

variable {step} in
theorem Reachable.inv {I : σ → Prop} {init s : σ} (h : Reachable step init s) (h0 : I init)
    (hI : ∀ s a s', I s → step s a = some s' → I s') : I s := by
  obtain ⟨as, has⟩ := h
  exact exec_inv hI h0 has

theorem star_inv {α : Type*} {r : α → α → Prop} {P : α → Prop} {a b : α} (h : Relation.ReflTransGen r a b)
    (hstep : ∀ a b, r a b → P a → P b) (ha : P a) : P b := by
  induction h with
  | refl => exact ha
  | tail _ hbc ih => exact hstep _ _ hbc ih

end Runs
