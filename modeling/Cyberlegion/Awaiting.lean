import Cyberlegion.Consuming

/-!
# Awaits that re-arm

A chain of `awaitReply` calls with the same arguments, each made when the one before it
came back waiting, and no message matches. Every call reads the clock when it starts and
twice in each poll.
-/

namespace Cyberlegion

namespace Await

open Effects FileStore

structure Turn where
  start : Int
  clock : List (Int × Int)

def Turn.readings (turn : Turn) : List Int := turn.start :: turn.clock.flatMap fun p => [p.1, p.2]

def timesOut (input : AwaitInput) (start : Int) (p : Int × Int) : Prop :=
  input.timeoutMs ≠ 0 ∧ p.1 - start ≥ input.timeoutMs

def cycleOver (input : AwaitInput) (start : Int) (p : Int × Int) : Prop := p.2 ≥ start + input.maxWaitS * 1000

instance {input : AwaitInput} {start : Int} {p : Int × Int} : Decidable (timesOut input start p) :=
  inferInstanceAs (Decidable (_ ∧ _))

instance {input : AwaitInput} {start : Int} {p : Int × Int} : Decidable (cycleOver input start p) :=
  inferInstanceAs (Decidable (_ ≥ _))

/-- The polls that a call makes when nothing matches. -/
def polls (input : AwaitInput) (start : Int) : List (Int × Int) → List (Int × Int)
  | [] => []
  | p :: clock => if timesOut input start p ∨ cycleOver input start p then [p] else p :: polls input start clock

def idle (input : AwaitInput) (start : Int) : List (Int × Int) → Option AwaitOutcome
  | [] => none
  | p :: clock =>
    if timesOut input start p then some .timedOut
    else if cycleOver input start p then some .waiting
    else idle input start clock

def Turn.polls (input : AwaitInput) (turn : Turn) : List (Int × Int) := Await.polls input turn.start turn.clock

section
variable {σ C : Type} (h : (op : FsCall) → C → σ → Option (op.Res × σ)) (before : String → String → Bool)
  (input : AwaitInput)

/-- The calls of a chain with what each came to; between two of them anything may happen to the mailbox. -/
inductive Chain : List (Turn × Option AwaitOutcome) → Prop
  | last {turn : Turn} {o : Option AwaitOutcome} {cs : List C} {s t : σ}
      (hrun : run h (awaitReply before input turn.start turn.clock) cs s = some (.ok o, t))
      (hnone : ∀ m, o ≠ some (.matched m)) : Chain [(turn, o)]
  | rearm {turn : Turn} {cs : List C} {s t : σ} {calls : List (Turn × Option AwaitOutcome)}
      (hrun : run h (awaitReply before input turn.start turn.clock) cs s = some (.ok (some .waiting), t))
      (hrest : Chain calls) : Chain ((turn, some .waiting) :: calls)

end

def Forward (calls : List (Turn × Option AwaitOutcome)) : Prop := (calls.flatMap (·.1.readings)).Pairwise (· ≤ ·)

/-- Once the timeout has passed since `first`, the call that polls ends with that poll, timed
out; a call that ends waiting does so before. -/
structure GivesUp (input : AwaitInput) (first : Int) (turn : Turn) (o : Option AwaitOutcome) : Prop where
  timedOut : ∀ p ∈ turn.polls input, first + input.timeoutMs ≤ p.1 →
    o = some .timedOut ∧ (turn.polls input).getLast? = some p
  waiting : o = some .waiting → ∀ p ∈ turn.polls input, p.1 < first + input.timeoutMs ∧ p.2 < first + input.timeoutMs

/-- The timeout holds across the chain. -/
def Overall (input : AwaitInput) (calls : List (Turn × Option AwaitOutcome)) : Prop :=
  ∀ first ∈ calls.head?, ∀ call ∈ calls, GivesUp input first.1.start call.1 call.2

/-- The poll does not fall between the timeout of the chain and the call's own. -/
def InTime (input : AwaitInput) (first start : Int) (p : Int × Int) : Prop :=
  (p.1 < first + input.timeoutMs ∨ start + input.timeoutMs ≤ p.1) ∧
    (p.2 < first + input.timeoutMs ∨ p.2 < start + input.maxWaitS * 1000 ∨ start + input.timeoutMs ≤ p.1)

def Punctual (input : AwaitInput) (calls : List (Turn × Option AwaitOutcome)) : Prop :=
  ∀ first ∈ calls.head?, ∀ call ∈ calls, ∀ p ∈ call.1.polls input, InTime input first.1.start call.1.start p

section
variable {σ C : Type} {h : (op : FsCall) → C → σ → Option (op.Res × σ)} {before : String → String → Bool}
  {input : AwaitInput}
variable {start first : Int} {clock : List (Int × Int)} {o : Option AwaitOutcome} {cs : List C} {s t : σ} {turn : Turn}
variable {calls : List (Turn × Option AwaitOutcome)} {p : Int × Int}

/-! ## One call -/

theorem awaitLoop_idle (hrun : run h (awaitLoop before input start clock) cs s = some (.ok o, t))
    (hnone : ∀ m, o ≠ some (.matched m)) : o = idle input start clock := by
  induction clock generalizing cs s with
  | nil =>
    unfold awaitLoop at hrun
    cases cs with
    | nil => cases hrun; rfl
    | cons _ _ => cases hrun
  | cons p clock ih =>
    unfold awaitLoop at hrun
    rcases run_bind_cases hrun with ⟨e, he, -⟩ | ⟨cs₁, cs₂, items, u, rfl, -, hrun⟩
    · cases he
    cases items with
    | cons message _ =>
      rcases run_bind_cases hrun with ⟨e, he, -⟩ | ⟨_, cs₃, _, v, rfl, -, hrun⟩
      · cases he
      · cases cs₃ with
        | nil => cases hrun; exact absurd rfl (hnone message)
        | cons _ _ => cases hrun
    | nil =>
      unfold idle
      by_cases htimeout : timesOut input start p
      · have hcond : input.timeoutMs ≠ 0 ∧ p.1 - start ≥ input.timeoutMs := htimeout
        simp only [if_pos hcond] at hrun
        rw [if_pos htimeout]
        cases cs₂ with
        | nil => cases hrun; rfl
        | cons _ _ => cases hrun
      · have hcond : ¬(input.timeoutMs ≠ 0 ∧ p.1 - start ≥ input.timeoutMs) := htimeout
        simp only [if_neg hcond] at hrun
        rw [if_neg htimeout]
        by_cases hcycle : cycleOver input start p
        · have hcond : p.2 ≥ start + input.maxWaitS * 1000 := hcycle
          simp only [if_pos hcond] at hrun
          rw [if_pos hcycle]
          cases cs₂ with
          | nil => cases hrun; rfl
          | cons _ _ => cases hrun
        · have hcond : ¬p.2 ≥ start + input.maxWaitS * 1000 := hcycle
          simp only [if_neg hcond] at hrun
          rw [if_neg hcycle]
          exact ih hrun

theorem polls_initial : polls input start clock <+: clock := by
  induction clock with
  | nil => exact List.prefix_rfl
  | cons p clock ih =>
    unfold polls
    split
    · exact ⟨clock, rfl⟩
    · exact (List.prefix_cons_inj p).mpr ih

theorem idle_timedOut (hp : p ∈ polls input start clock) (htimeout : timesOut input start p) :
    idle input start clock = some .timedOut ∧ (polls input start clock).getLast? = some p := by
  induction clock with
  | nil => exact absurd hp List.not_mem_nil
  | cons q clock ih =>
    unfold polls at hp ⊢
    unfold idle
    by_cases hq : timesOut input start q ∨ cycleOver input start q
    · rw [if_pos hq] at hp ⊢
      obtain rfl := List.mem_singleton.mp hp
      rw [if_pos htimeout]
      exact ⟨rfl, rfl⟩
    · rw [if_neg hq] at hp ⊢
      obtain ⟨hq₁, hq₂⟩ := not_or.mp hq
      rw [if_neg hq₁, if_neg hq₂]
      have hp := (List.mem_cons.mp hp).resolve_left fun h => hq₁ (h ▸ htimeout)
      obtain ⟨hidle, hlast⟩ := ih hp
      refine ⟨hidle, ?_⟩
      rw [List.getLast?_cons, hlast]
      rfl

theorem idle_waiting (hp : p ∈ polls input start clock) (htimeout : ¬timesOut input start p)
    (hcycle : cycleOver input start p) :
    idle input start clock = some .waiting := by
  induction clock with
  | nil => exact absurd hp List.not_mem_nil
  | cons q clock ih =>
    unfold polls at hp
    unfold idle
    by_cases hq : timesOut input start q ∨ cycleOver input start q
    · rw [if_pos hq] at hp
      obtain rfl := List.mem_singleton.mp hp
      rw [if_neg htimeout, if_pos hcycle]
    · rw [if_neg hq] at hp
      obtain ⟨hq₁, hq₂⟩ := not_or.mp hq
      rw [if_neg hq₁, if_neg hq₂]
      exact ih ((List.mem_cons.mp hp).resolve_left fun h => hq₂ (h ▸ hcycle))

theorem waiting_last (hidle : idle input start clock = some .waiting) :
    ∃ pre q, polls input start clock = pre ++ [q] ∧ ¬timesOut input start q ∧ cycleOver input start q := by
  induction clock with
  | nil => cases hidle
  | cons q clock ih =>
    unfold idle at hidle
    unfold polls
    by_cases htimeout : timesOut input start q
    · rw [if_pos htimeout] at hidle; cases hidle
    · rw [if_neg htimeout] at hidle
      by_cases hcycle : cycleOver input start q
      · rw [if_pos (.inr hcycle)]
        exact ⟨[], q, rfl, htimeout, hcycle⟩
      · rw [if_neg hcycle] at hidle
        obtain ⟨pre, last, hpolls, hlast⟩ := ih hidle
        rw [if_neg (not_or.mpr ⟨htimeout, hcycle⟩), hpolls]
        exact ⟨q :: pre, last, rfl, hlast⟩

theorem timedOut_last (hidle : idle input start clock = some .timedOut) :
    ∃ pre q, polls input start clock = pre ++ [q] ∧ timesOut input start q := by
  induction clock with
  | nil => cases hidle
  | cons q clock ih =>
    unfold idle at hidle
    unfold polls
    by_cases htimeout : timesOut input start q
    · rw [if_pos (.inl htimeout)]
      exact ⟨[], q, rfl, htimeout⟩
    · rw [if_neg htimeout] at hidle
      by_cases hcycle : cycleOver input start q
      · rw [if_pos hcycle] at hidle; cases hidle
      · rw [if_neg hcycle] at hidle
        obtain ⟨pre, last, hpolls, hlast⟩ := ih hidle
        rw [if_neg (not_or.mpr ⟨htimeout, hcycle⟩), hpolls]
        exact ⟨q :: pre, last, rfl, hlast⟩

theorem idle_never (hzero : input.timeoutMs = 0) : idle input start clock ≠ some .timedOut := by
  induction clock with
  | nil => nofun
  | cons q clock ih =>
    unfold idle
    rw [if_neg fun h : timesOut input start q => h.1 hzero]
    split
    · nofun
    · exact ih

theorem polls_le_last (hforward : turn.readings.Pairwise (· ≤ ·)) {pre : List (Int × Int)} {q : Int × Int}
    (hpolls : turn.polls input = pre ++ [q]) (hp : p ∈ turn.polls input) : p.1 ≤ q.2 ∧ p.2 ≤ q.2 := by
  obtain ⟨hsame, happart⟩ := List.pairwise_flatMap.mp (List.pairwise_cons.mp hforward).2
  have hinit : turn.polls input <+: turn.clock := polls_initial
  have hpair : ∀ p ∈ turn.polls input, p.1 ≤ p.2 := fun p hp => by
    have := hsame p (hinit.subset hp)
    simpa using this
  have hlast : q ∈ turn.polls input := by rw [hpolls]; exact List.mem_append_right _ (List.mem_singleton_self q)
  have hmem := hp
  rw [hpolls] at hmem
  rcases List.mem_append.mp hmem with hpre | hq
  · have happart := happart.sublist hinit.sublist
    rw [hpolls] at happart
    have hle := (List.pairwise_append.mp happart).2.2 p hpre q (List.mem_singleton_self q)
    exact ⟨hle p.1 (by simp) q.2 (by simp), hle p.2 (by simp) q.2 (by simp)⟩
  · obtain rfl := List.mem_singleton.mp hq
    exact ⟨hpair p hlast, le_refl _⟩

/-- A call gives up with the chain exactly when none of its polls falls between the two timeouts. -/
theorem givesUp_iff (htimeout : 0 < input.timeoutMs) (hforward : turn.readings.Pairwise (· ≤ ·))
    (ho : o = idle input turn.start turn.clock) :
    GivesUp input first turn o ↔ ∀ p ∈ turn.polls input, InTime input first turn.start p := by
  have hout : ∀ p, timesOut input turn.start p ↔ turn.start + input.timeoutMs ≤ p.1 := by
    intro p
    unfold timesOut
    omega
  constructor
  · intro hgives p hp
    by_cases hown : timesOut input turn.start p
    · have := (hout p).mp hown
      exact ⟨.inr this, .inr (.inr this)⟩
    · refine ⟨.inl ?_, ?_⟩
      · by_contra hlate
        obtain ⟨hend, hlast⟩ := hgives.timedOut p hp (by omega)
        -- a call ends timed out only with a poll past its own timeout
        obtain ⟨pre, q, hpolls, hq⟩ := timedOut_last (ho.symm.trans hend)
        rw [Turn.polls, hpolls, List.getLast?_concat, Option.some.injEq] at hlast
        exact hown (hlast ▸ hq)
      · by_cases hcycle : cycleOver input turn.start p
        · have hwaits := ho.trans (idle_waiting hp hown hcycle)
          exact .inl (hgives.waiting hwaits p hp).2
        · unfold cycleOver at hcycle
          exact .inr (.inl (by omega))
  · intro hmeets
    refine ⟨fun p hp hlate => ?_, fun hwaits p hp => ?_⟩
    · have hown : timesOut input turn.start p := by
        rw [hout]
        exact (hmeets p hp).1.resolve_left (by omega)
      rw [ho]
      exact idle_timedOut hp hown
    · obtain ⟨pre, q, hpolls, hq, hcycle⟩ := waiting_last (ho.symm.trans hwaits)
      have hq' : q ∈ turn.polls input := by
        show q ∈ polls _ _ _
        rw [hpolls]; exact List.mem_append_right _ (List.mem_singleton_self q)
      have hown : ¬turn.start + input.timeoutMs ≤ q.1 := fun h => hq ((hout q).mpr h)
      have hlt : q.2 < first + input.timeoutMs := by
        unfold cycleOver at hcycle
        rcases (hmeets q hq').2 with h | h | h
        · exact h
        · omega
        · exact absurd h hown
      obtain ⟨hp₁, hp₂⟩ := polls_le_last hforward hpolls hp
      omega

/-! ## The chain -/

theorem Chain.idle (hchain : Chain h before input calls) :
    ∀ call ∈ calls, call.2 = idle input call.1.start call.1.clock := by
  induction hchain with
  | last hrun hnone =>
    intro call hcall
    obtain rfl := List.mem_singleton.mp hcall
    exact awaitLoop_idle hrun hnone
  | rearm hrun _ ih =>
    intro call hcall
    rcases List.mem_cons.mp hcall with rfl | hcall
    · exact awaitLoop_idle hrun nofun
    · exact ih call hcall

theorem Forward.of_turn (hforward : Forward calls) {call : Turn × Option AwaitOutcome} (hcall : call ∈ calls) :
    call.1.readings.Pairwise (· ≤ ·) :=
  (List.pairwise_flatMap.mp hforward).1 call hcall

/-- The timeout holds across the chain exactly when no poll falls between it and the timeout
that the call counts from its own start; without a timeout no call times out. -/
theorem await_overall_iff (hchain : Chain h before input calls) (hforward : Forward calls) :
    (0 < input.timeoutMs → (Overall input calls ↔ Punctual input calls)) ∧
      (input.timeoutMs = 0 → ∀ call ∈ calls, call.2 ≠ some .timedOut) := by
  refine ⟨fun htimeout => ?_, fun hzero call hcall => ?_⟩
  · have hiff : ∀ first, ∀ call ∈ calls, GivesUp input first call.1 call.2 ↔
        ∀ p ∈ call.1.polls input, InTime input first call.1.start p := fun first call hcall =>
      givesUp_iff htimeout (hforward.of_turn hcall) (hchain.idle call hcall)
    unfold Overall Punctual
    constructor
    · intro h first hfirst call hcall
      exact (hiff _ call hcall).mp (h first hfirst call hcall)
    · intro h first hfirst call hcall
      exact (hiff _ call hcall).mpr (h first hfirst call hcall)
  · rw [hchain.idle call hcall]
    exact idle_never hzero

end

/-! ## Chains over an empty mailbox -/

def noMail : Fs := ⟨∅, []⟩

def askBob : AwaitInput := { meId := "bob", thread := "cr-1", timeoutMs := 3000, maxWaitS := 2 }

def firstTurn : Turn := ⟨0, [(0, 0), (1000, 1000), (2000, 2000)]⟩

theorem chain_two {second : Turn} {o : Option AwaitOutcome} {polls : Nat} (hnone : ∀ m, o ≠ some (.matched m))
    (hsecond : run fsCall (awaitReply (fun a b => a ≤ b) askBob second.start second.clock)
      (List.replicate (2 * polls) ()) noMail =
      some (.ok o, noMail)) :
    Chain fsCall (fun a b => a ≤ b) askBob [(firstTurn, some .waiting), (second, o)] := by
  have hfirst : run fsCall (awaitReply (fun a b => a ≤ b) askBob firstTurn.start firstTurn.clock)
      (List.replicate 6 ()) noMail =
      some (.ok (some .waiting), noMail) := by rfl
  exact .rearm hfirst (.last hsecond hnone)

def lateTurn : Turn := ⟨2000, [(2500, 2500), (5000, 5000)]⟩

/-- The clock jumps past both timeouts: the second call times out. -/
theorem await_overall_late : Overall askBob [(firstTurn, some .waiting), (lateTurn, some .timedOut)] := by
  have hchain : Chain fsCall (fun a b => a ≤ b) askBob [(firstTurn, some .waiting), (lateTurn, some .timedOut)] :=
    @chain_two lateTurn _ 2 nofun (by rfl)
  refine ((await_overall_iff hchain ?_).1 (by decide)).mpr ?_
  · unfold Forward
    decide
  · intro first hfirst
    obtain rfl : (firstTurn, some .waiting) = first := Option.some.inj hfirst
    have hpunctual : ∀ turn ∈ [firstTurn, lateTurn], ∀ p ∈ turn.polls askBob,
        (p.1 < 0 + 3000 ∨ turn.start + 3000 ≤ p.1) ∧
        (p.2 < 0 + 3000 ∨ p.2 < turn.start + 2 * 1000 ∨ turn.start + 3000 ≤ p.1) := by
      decide
    intro call hcall p hp
    refine hpunctual call.1 ?_ p hp
    exact List.mem_map_of_mem (f := Prod.fst) hcall

def secondTurn : Turn := ⟨2000, [(2000, 2000), (3000, 3000), (4000, 4000)]⟩

/-- A second call still waits when the timeout has passed since the first. -/
theorem await_overall_fails : ∃ calls, Chain fsCall (fun a b => a ≤ b) askBob calls ∧ Forward calls ∧
    ¬Overall askBob calls := by
  refine ⟨[(firstTurn, some .waiting), (secondTurn, some .waiting)],
    @chain_two secondTurn _ 3 nofun (by rfl), ?_, fun h => ?_⟩
  · unfold Forward
    decide
  · have hgives := h _ rfl (secondTurn, some .waiting) (by simp)
    have hpoll : (3000, 3000) ∈ secondTurn.polls askBob := by decide
    have := (hgives.waiting rfl _ hpoll).1
    revert this
    decide

end Await

end Cyberlegion
