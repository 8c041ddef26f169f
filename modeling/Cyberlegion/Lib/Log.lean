import Cyberlegion.Lib.Prog
import Mathlib.Order.Defs.PartialOrder

/-!
# Calls that run one at a time, and their log

Clients call the programs of a family `prog`, each call alone; between two calls the
surroundings change the state as `other` lets them. The log keeps of each call its
answer, what the outside answered it, and the state before and after it.
-/

namespace Effects

structure Entry (κ Op C ρ σ : Type) where
  call : κ
  trace : List (Op × C)
  result : ρ
  before : σ
  after : σ

def Entry.answered {κ Op C ρ σ : Type} (e : Entry κ Op C ρ σ) (op : Op) (c : C) : Prop := (op, c) ∈ e.trace

structure Logged (κ Op C ρ σ : Type) where
  state : σ
  log : List (Entry κ Op C ρ σ) := []

inductive LogEvent (κ C ω : Type)
  | call (k : κ) (cs : List C)
  | other (x : ω)

section
variable {κ Op C ε α σ ω : Type} {Res : Op → Type}

def logStep (h : (op : Op) → C → σ → Option (Res op × σ)) (prog : κ → Prog Op Res ε α)
    (other : ω → σ → Option σ)
    (s : Logged κ Op C (Except ε α) σ) : LogEvent κ C ω → Option (Logged κ Op C (Except ε α) σ)
  | .call k cs => (run h (prog k) cs s.state).map fun p =>
    { state := p.2, log := s.log ++ [⟨k, trace h (prog k) cs s.state, p.1, s.state, p.2⟩] }
  | .other x => (other x s.state).map fun t => { s with state := t }

/-- Every call of the run is made in a state, and answered, as `D` allows. -/
def CallsMeet (D : σ → κ → List (Op × C) → Prop) (h : (op : Op) → C → σ → Option (Res op × σ))
    (prog : κ → Prog Op Res ε α) (s : Logged κ Op C (Except ε α) σ) : LogEvent κ C ω → Prop
  | .call k cs => D s.state k (trace h (prog k) cs s.state)
  | .other _ => True

instance (D : σ → κ → List (Op × C) → Prop) [∀ u k t, Decidable (D u k t)]
    (h : (op : Op) → C → σ → Option (Res op × σ)) (prog : κ → Prog Op Res ε α)
    (s : Logged κ Op C (Except ε α) σ)
    (ev : LogEvent κ C ω) : Decidable (CallsMeet D h prog s ev) := by
  cases ev <;> unfold CallsMeet <;> infer_instance

variable {h : (op : Op) → C → σ → Option (Res op × σ)} {prog : κ → Prog Op Res ε α}
  {other : ω → σ → Option σ}
variable {s t : Logged κ Op C (Except ε α) σ} {es : List (LogEvent κ C ω)}

/-- What every call and every change from outside keeps, a run keeps; and what every
call shows, every entry of its log shows. -/
theorem log_run {I : σ → Prop} {E : Entry κ Op C (Except ε α) σ → Prop} {D : σ → κ → List (Op × C) → Prop}
    (hcall : ∀ k cs u r u', I u → D u k (trace h (prog k) cs u) → run h (prog k) cs u = some (r, u') →
      I u' ∧ E ⟨k, trace h (prog k) cs u, r, u, u'⟩)
    (hother : ∀ x u u', I u → other x u = some u' → I u') (hI : I s.state) (hE : ∀ e ∈ s.log, E e)
    (hD : Runs.AllSteps (logStep h prog other) (CallsMeet D h prog) s es)
    (hrun : Runs.exec (logStep h prog other) s es = some t) : I t.state ∧ ∀ e ∈ t.log, E e := by
  refine Runs.exec_inv_of (I := fun s => I s.state ∧ ∀ e ∈ s.log, E e) ?_ ⟨hI, hE⟩ hD hrun
  intro s ev s' hs hmeet hstep
  cases ev with
  | call k cs =>
    obtain ⟨⟨r, u'⟩, hr, rfl⟩ := Option.map_eq_some_iff.mp hstep
    obtain ⟨hI', hE'⟩ := hcall k cs s.state r u' hs.1 hmeet hr
    refine ⟨hI', fun e he => ?_⟩
    rcases List.mem_append.mp he with he | he
    · exact hs.2 e he
    · rw [List.mem_singleton.mp he]; exact hE'
  | other x =>
    obtain ⟨u', hu, rfl⟩ := Option.map_eq_some_iff.mp hstep
    exact ⟨hother x _ _ hs.1 hu, hs.2⟩

theorem allSteps_true : Runs.AllSteps (logStep h prog other) (CallsMeet (fun _ _ _ => True) h prog) s es := by
  induction es generalizing s with
  | nil => trivial
  | cons ev es ih =>
    refine ⟨?_, fun s' _ => ih⟩
    cases ev <;> trivial

/-- Where only calls move a part of the state, the log links its values. -/
theorem linked_run {π : Type} {f : σ → π} (hother : ∀ x u u', other x u = some u' → f u' = f u)
    {p : π} (hs : Runs.Linked (fun e => f e.before) (fun e => f e.after) p s.log (f s.state))
    (hrun : Runs.exec (logStep h prog other) s es = some t) :
    Runs.Linked (fun e => f e.before) (fun e => f e.after) p t.log (f t.state) := by
  refine Runs.exec_inv (I := fun s => Runs.Linked (fun e => f e.before) (fun e => f e.after) p s.log (f s.state))
    ?_ hs hrun
  intro s ev s' hs hstep
  cases ev with
  | call k cs =>
    obtain ⟨⟨r, u'⟩, -, rfl⟩ := Option.map_eq_some_iff.mp hstep
    exact Runs.linked_append.mpr ⟨_, hs, rfl, rfl⟩
  | other x =>
    obtain ⟨u', hu, rfl⟩ := Option.map_eq_some_iff.mp hstep
    show Runs.Linked _ _ p s.log (f u')
    rw [hother x _ _ hu]; exact hs

end

end Effects
