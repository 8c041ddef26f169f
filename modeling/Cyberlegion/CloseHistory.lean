import Cyberlegion.CloseSafety
import Cyberlegion.RegistrySpec

/-!
# What a close may remove, over a unit's history

A close removes the worktree that the unit's record names. A spawn records the one it
made, and a registration the checkout it is run in, whoever made that.
-/

namespace Cyberlegion

open Effects Runs

def HubEntry.spawns (e : HubEntry) (id : String) : Prop :=
  ∃ ctx input rec, e.call = ⟨ctx, .spawn input⟩ ∧ e.result = .ok (some rec) ∧ rec.id = id

/-- The entry is the unit's spawn at a named path, and made a worktree there. -/
def HubEntry.creates (e : HubEntry) (id root : String) : Prop :=
  ∃ ctx input rec dir, e.call = ⟨ctx, .spawn input⟩ ∧ e.result = .ok (some rec) ∧ rec.id = id ∧
    given input.cwd = none ∧ given input.worktreePath = some dir ∧ Creates e.answered dir ∧
    root = path.resolve ctx.cwd dir

/-- The last spawn of the unit made a worktree at the root. -/
def CreatedBy (log : List HubEntry) (id root : String) : Prop :=
  ∃ earlier e later, log = earlier ++ e :: later ∧ e.creates id root ∧ ∀ other ∈ later, ¬other.spawns id

def World.unleased (w : World) (id root : String) : Prop :=
  ∃ rec worktree, w.agents.get id = some rec ∧ rec.worktree = some worktree ∧ worktree.root = root ∧
    worktree.lease = none

/-- Git calls each of the primary checkouts its own primary checkout. -/
def Knows (primary : String → Prop) (tr : List (Call × Choice)) : Prop :=
  ∀ root c, (Call.primaryRoot (some root), c) ∈ tr → primary root → c.text = some root

/-- A close of the unit asks for the removal of a worktree that the unit's own spawn made
only, and of none under a lease. -/
def RemovesOwn (primary : String → Prop) (id : String) (s : HubRun) : Prop :=
  ∀ ctx input cs root primaryRoot c, input.id = id → Knows primary (trace handle (decommission ctx input) cs s.state) →
    (Call.removeWorktree root primaryRoot, c) ∈ trace handle (decommission ctx input) cs s.state →
    CreatedBy s.log id root ∧ s.state.unleased id root

/-- A worktree on the unit's record is leased, made by the unit's own spawn, or a primary checkout. -/
def Accounted (primary : String → Prop) (id : String) (s : HubRun) : Prop :=
  ∀ root, s.state.unleased id root → CreatedBy s.log id root ∨ root ≠ "" ∧ primary root

def Inherits (primary : String → Prop) (id : String) (w w' : World) : Prop :=
  ∀ root, w'.unleased id root → w.unleased id root ∨ root ≠ "" ∧ primary root

section
variable {log : List HubEntry} {e : HubEntry} {id root : String}

theorem CreatedBy.snoc (h : CreatedBy log id root) (he : ¬e.spawns id) : CreatedBy (log ++ [e]) id root := by
  obtain ⟨earlier, made, later, rfl, hmade, hlater⟩ := h
  refine ⟨earlier, made, later ++ [e], by rw [List.append_assoc, List.cons_append], hmade, fun other hother => ?_⟩
  rcases List.mem_append.mp hother with hother | hother
  · exact hlater other hother
  · rw [List.mem_singleton.mp hother]
    exact he

end

/-! ## One verb -/

section
variable {primary : String → Prop} {id other : String} {A : Call → Choice → Prop} {w w' w'' : World} {ctx : Ctx}
variable {rec : AgentRecord} {written : Option AgentRecord} {unbinds binds : Option String} {c : Command}
variable {tr : List (Call × Choice)}

theorem Inherits.trans (h : Inherits primary id w w') (h' : Inherits primary id w' w'') :
    Inherits primary id w w'' := by
  intro root hroot
  rcases h' root hroot with hroot | hprimary
  · exact h root hroot
  · exact .inr hprimary

end

/-! ## Every run -/

section
variable {primary : String → Prop} {id : String} {s s' : HubRun} {ev : HubEvent}

theorem Accounted.removes (hs : Accounted primary id s) : RemovesOwn primary id s := by
  rintro ctx input cs root primaryRoot c rfl hknows hop
  have hremoval := removal_of_trace hop
  obtain ⟨-, -, rec, worktree, hget, -, hworktree, hroot, hlease⟩ := hremoval.unit
  have hunleased : s.state.unleased input.id root := ⟨rec, worktree, hget, hworktree, hroot, hlease⟩
  refine ⟨(hs root hunleased).resolve_right fun ⟨hne, hprimary⟩ => ?_, hunleased⟩
  -- the close has asked git for the primary checkout, and refuses it
  obtain ⟨ch, checkout, hch, htext, hdistinct⟩ := hremoval.primary
  rw [hknows root ch hch hprimary] at htext
  cases htext
  exact hdistinct hne hne rfl

end

end Cyberlegion
