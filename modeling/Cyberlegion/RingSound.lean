import Cyberlegion.Ring

/-!
# What ringing types, and when it returns

`Rings` is what a log of `ringTurn` keeps from round to round; each submission and each
return is read off it.
-/

namespace Cyberlegion

namespace Console

open Effects

section
variable {ε τ : Type} (isStaged : Option String → String → Bool) (message : String) (opts : RingOptions)

def submits : PaneCall × Reply ε τ → Bool
  | (.submit _, _) => true
  | _ => false

def types : PaneCall × Reply ε τ → Bool
  | (.submit (some text), _) => text = message
  | _ => false

/-- A read that shows the message neither in the input box nor posted anew. -/
def LostRead (before : Nat) (screen : Option String) : Prop :=
  isStaged screen message = false ∧ copiesOn screen message ≤ before

/-- A read that shows the turn taken. -/
def TakenRead (before : Nat) (screen : Option String) : Prop :=
  if isStaged screen message = true then before + 2 ≤ copiesOn screen message
  else opts.requirePosted = true → before < copiesOn screen message

/-- The copies on screen before the first submission. -/
def copiesBefore (l : Log ε τ) : Nat :=
  match (screens l).head? with
  | some (.ok screen) => copiesOn screen message
  | _ => 0

def maxAttempts : Nat := opts.attempts.getD DEFAULT_ATTEMPTS

def RingEnds : Except (RingError ε) NudgeResult → Int × Log ε τ → Prop
  | .ok res, s => res.taken = true ∧ res.resubmits ≤ maxAttempts opts ∧
      (∃ front x since screen, s.2 = front ++
        (.submit (some message), x) :: (since ++ [(.read, .screen (.ok screen))]) ∧
        TakenRead isStaged message opts (copiesBefore message s.2) screen) ∧
      (opts.requirePosted = false → s.2.countP (types message) = 1)
  | .error (.neverTaken _ _ _), s => opts.requirePosted = false → s.2.countP (types message) = 1
  | .error (.gone _), s => s.2.countP submits = 0
  | .error (.thrown _), _ => True

/-- What the log keeps from round to round; `lostReads` reads at its end showed the message lost. -/
structure Rings (before lostReads n : Nat) (l : Log ε τ) : Prop where
  present : (.paneExists, .present (.ok true)) ∈ l
  first : ∃ screen, (screens l).head? = some (.ok screen) ∧ copiesOn screen message = before
  bounded : l.countP submits ≤ n
  once : opts.requirePosted = false → l.countP (types message) = 1
  since : ∃ (front : Log ε τ) (x : Reply ε τ) (since : Log ε τ) (reads : List (Except ε (Option String)))
    (lost : List (Option String)), l = front ++ (.submit (some message), x) :: since ∧
    since.countP (types message) = 0 ∧ screens since = reads ++ lost.map Except.ok ∧ lost.length = lostReads ∧
    ∀ screen ∈ lost, LostRead isStaged message before screen

section
variable {isStaged message opts} {before lostReads n : Nat} {l : Log ε τ}

theorem judge_taken {screen : Option String} (h : judge isStaged message opts before screen = .taken) :
    TakenRead isStaged message opts before screen := by
  rw [judge] at h
  rw [TakenRead]
  split at h
  · next hstaged =>
    rw [if_pos hstaged]
    split at h
    · next hcopies => exact hcopies
    · cases h
  · next hstaged =>
    rw [if_neg hstaged]
    split at h
    · next htaken =>
      intro hposted
      rcases htaken with hmore | hno
      · exact hmore
      · rw [hposted] at hno
        cases hno
    · cases h

theorem judge_lost {screen : Option String} (h : judge isStaged message opts before screen = .lost) :
    LostRead isStaged message before screen ∧ opts.requirePosted = true := by
  rw [judge] at h
  split at h
  · split at h <;> cases h
  · next hstaged =>
    split at h
    · cases h
    · next hnot =>
      rw [not_or] at hnot
      exact ⟨⟨Bool.not_eq_true _ |>.mp hstaged, Nat.le_of_not_lt hnot.1⟩, Bool.not_eq_false _ |>.mp hnot.2⟩

theorem Rings.copiesBefore (h : Rings isStaged message opts before lostReads n l) :
    Console.copiesBefore message l = before := by
  obtain ⟨screen, hfirst, hcopies⟩ := h.first
  rw [Console.copiesBefore, hfirst]
  exact hcopies

theorem Rings.append {m : Log ε τ} (h : Rings isStaged message opts before lostReads n l)
    (htypes : m.countP (types message) = 0) (hscreens : screens m = []) :
    Rings isStaged message opts before lostReads (n + m.countP submits) (l ++ m) where
  present := List.mem_append_left _ h.present
  first := by
    rw [screens_append, hscreens, List.append_nil]
    exact h.first
  bounded := by
    rw [List.countP_append]
    exact Nat.add_le_add_right h.bounded _
  once hno := by rw [List.countP_append, h.once hno, htypes]
  since := by
    obtain ⟨front, x, since, reads, lost, rfl, hsince, hreads, hlost⟩ := h.since
    refine ⟨front, x, since ++ m, reads, lost, ?_, ?_, ?_, hlost⟩
    · rw [List.append_assoc, List.cons_append]
    · rw [List.countP_append, hsince, htypes]
    · rw [screens_append, hscreens, List.append_nil, hreads]

theorem Rings.read (h : Rings isStaged message opts before lostReads n l) (ms : Int) (screen : Option String) :
    Rings isStaged message opts before
      (if judge isStaged message opts before screen = .lost then lostReads + 1 else 0) n
      (l ++ [(.sleep ms, .time), (.read, .screen (.ok screen))]) where
  present := List.mem_append_left _ h.present
  first := by
    obtain ⟨s, hs, hcopies⟩ := h.first
    refine ⟨s, ?_, hcopies⟩
    rw [screens_append, List.head?_append, hs]
    rfl
  bounded := by
    rw [List.countP_append]
    exact h.bounded
  once hno := by rw [List.countP_append, h.once hno]; rfl
  since := by
    obtain ⟨front, x, since, reads, lost, rfl, hsince, hreads, hlen, hlost⟩ := h.since
    have hl : front ++ (.submit (some message), x) :: since ++ [(.sleep ms, .time), (.read, .screen (.ok screen))] =
        front ++ (.submit (some message), x) :: (since ++ [(.sleep ms, .time), (.read, .screen (.ok screen))]) := by
      rw [List.append_assoc, List.cons_append]
    have hnone : (since ++ [(.sleep ms, .time), (.read, .screen (.ok screen))] : Log ε τ).countP
        (types message) = 0 := by
      rw [List.countP_append, hsince]
      rfl
    split
    · next hjudge =>
      refine ⟨front, x, _, reads, lost ++ [screen], hl, hnone, ?_, ?_, fun s hs => ?_⟩
      · rw [screens_append, hreads, List.map_append, List.append_assoc]
        rfl
      · rw [List.length_append, hlen]
        rfl
      · rcases List.mem_append.mp hs with hs | hs
        · exact hlost s hs
        · rw [List.mem_singleton.mp hs]
          exact (judge_lost hjudge).1
    · exact ⟨front, x, _, _, [], hl, hnone, (List.append_nil _).symm, rfl, fun _ hs => absurd hs List.not_mem_nil⟩

theorem Rings.typed_before {front : Log ε τ} {e : PaneCall × Reply ε τ}
    (h : Rings isStaged message opts before lostReads n (front ++ [e])) (he : ∀ text x, e ≠ (.submit text, x)) :
    ∃ front' x since, front ++ [e] = front' ++ (.submit (some message), x) :: (since ++ [e]) := by
  obtain ⟨front', x, since, -, -, hl, -⟩ := h.since
  rcases List.eq_nil_or_concat since with rfl | ⟨since, e', rfl⟩
  · have hlast := (List.append_inj' hl rfl).2
    exact absurd (List.cons.inj hlast).1 (he _ _)
  · rw [List.concat_eq_append, ← List.cons_append, ← List.append_assoc] at hl
    have hlast := (List.append_inj' hl rfl).2
    obtain rfl := (List.cons.inj hlast).1
    exact ⟨front', x, since, by rw [hl, List.append_assoc, List.cons_append]⟩

theorem Rings.taken {front : Log ε τ} {screen : Option String}
    (h : Rings isStaged message opts before lostReads n (front ++ [(.read, .screen (.ok screen))]))
    (htaken : judge isStaged message opts before screen = .taken) {attempt : Nat}
    (hattempt : attempt ≤ maxAttempts opts)
    {clock : Int} : RingEnds isStaged message opts (.ok ⟨true, attempt⟩)
      (clock, front ++ [(.read, .screen (.ok screen))]) := by
  obtain ⟨front', x, since, hl⟩ := h.typed_before nofun
  refine ⟨rfl, hattempt, ⟨front', x, since, screen, hl, ?_⟩, h.once⟩
  rw [h.copiesBefore]
  exact judge_taken htaken

end

/-! ## The rounds -/

section
variable {isStaged message opts} {target : String} {before : Nat} {clock : Int}

end

end

end Console

end Cyberlegion
