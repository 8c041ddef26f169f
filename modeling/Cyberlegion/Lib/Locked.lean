import Mathlib.Data.List.Induction
import Cyberlegion.Lib.Prog

/-!
# Programs that share a lock

Each program of a pool reads the state, takes a lock once, and is over when it gives the lock
back. Whatever the interleaving, the state is then what the locked parts make of it when each runs
alone, in the order in which the programs took the lock.
-/

namespace Effects

/-! ## Runs in parts -/

section
variable {Op : Type} {Res : Op → Type} {ε α σ C : Type} {h : (op : Op) → C → σ → Option (Res op × σ)}
variable {p q : Prog Op Res ε α} {s t u : σ} {cs : List C} {c : C}

theorem after_snoc {op : Op} {k : Res op → Prog Op Res ε α} {r : Res op}
    (hafter : after h p cs s = some (.call op k, t))
    (hop : h op c t = some (r, u)) : after h p (cs ++ [c]) s = some (k r, u) := by
  induction cs generalizing p s with
  | nil =>
    have hp : p = .call op k ∧ s = t := by
      cases p with
      | call op' k' => cases hafter; exact ⟨rfl, rfl⟩
      | _ => cases hafter
    obtain ⟨rfl, rfl⟩ := hp
    rw [List.nil_append, after, hop, Option.bind_some]
    cases k r <;> rfl
  | cons d cs ih =>
    cases p with
    | ret _ => cases hafter
    | throw _ => cases hafter
    | call op' k' =>
      obtain ⟨⟨r', s'⟩, hd, hrest⟩ := Option.bind_eq_some_iff.mp hafter
      rw [List.cons_append, after, hd]
      exact ih hrest

theorem run_of_after {r : Except ε α} (hafter : after h p cs s = some (Prog.ended r, t)) :
    run h p cs s = some (r, t) := by
  induction cs generalizing p s with
  | nil =>
    cases p with
    | call op k => cases r <;> cases hafter
    | ret a =>
      cases r with
      | ok b => cases hafter; rfl
      | error e => cases hafter
    | throw e =>
      cases r with
      | ok b => cases hafter
      | error e' => cases hafter; rfl
  | cons d cs ih =>
    cases p with
    | ret _ => cases hafter
    | throw _ => cases hafter
    | call op k =>
      obtain ⟨⟨r', s'⟩, hd, hrest⟩ := Option.bind_eq_some_iff.mp hafter
      rw [run, hd]
      exact ih hrest

theorem ended_of_done (hdone : p.done = true) : ∃ r, p = Prog.ended r := by
  cases p with
  | ret a => exact ⟨.ok a, rfl⟩
  | throw e => exact ⟨.error e, rfl⟩
  | call op k => cases hdone

end

theorem wp_left {A : Op → C → Prop} {Φ : Op → σ → Prop} {Q : Except ε α → σ → Prop} (hp : wp h A Φ p Q s)
    (hA : ∀ op c, A op c) (hafter : after h p cs s = some (q, t)) : wp h A Φ q Q t := by
  induction cs generalizing p s with
  | nil =>
    have hq : p = q ∧ s = t := by
      cases p <;> (cases hafter; exact ⟨rfl, rfl⟩)
    rw [← hq.1, ← hq.2]
    exact hp
  | cons d cs ih =>
    cases p with
    | ret _ => cases hafter
    | throw _ => cases hafter
    | call op k =>
      obtain ⟨⟨r', s'⟩, hd, hrest⟩ := Option.bind_eq_some_iff.mp hafter
      exact ih (hp.2 d r' s' (hA op d) hd) hrest

theorem wp_map {β : Type} {A : Op → C → Prop} {Φ : Op → σ → Prop} {f : α → β}
    {Q : Except ε β → σ → Prop}
    (hp : wp h A Φ p (fun r t => Q (r.map f) t) s) : wp h A Φ (f <$> p) Q s := by
  rw [← bind_pure_comp]
  exact wp_seq hp (fun _ _ hr => hr) fun _ _ hr => hr

/-! ## The lock -/

/-- A lock: the calls that take it and give it back, and whether it is held. -/
structure Latch (Op : Type) (Res : Op → Type) (σ : Type) where
  acquire : Op
  release : Op
  got : Res acquire → Bool
  held : σ → Prop

section
variable {Op : Type} {Res : Op → Type} {ε α σ C ι : Type}

/-- What the calls do to the lock; an attempt to take it that fails leaves everything alone. Taking it
and giving it back keep `I`. -/
structure Latch.Lawful (L : Latch Op Res σ) (h : (op : Op) → C → σ → Option (Res op × σ)) (I : σ → Prop) :
    Prop where
  takes : ∀ c s r t, h L.acquire c s = some (r, t) → L.got r = true → ¬L.held s ∧ L.held t ∧ (I s → I t)
  fails : ∀ c s r t, h L.acquire c s = some (r, t) → L.got r = false → t = s
  gives : ∀ c s r t, h L.release c s = some (r, t) → ¬L.held t ∧ (I s → I t)
  keeps : ∀ op c s r t, op ≠ L.acquire → op ≠ L.release → L.held s → h op c s = some (r, t) → L.held t

section
variable (L : Latch Op Res σ) (h : (op : Op) → C → σ → Option (Res op × σ)) (I : σ → Prop)
  (reads : Op → Prop) (seen : σ → Prop)

/-- The rest of a locked part: it keeps `I`, and the program is over when it gives the lock back. -/
inductive Inside : Prog Op Res ε α → Prop
  | release (k : Res L.release → Prog Op Res ε α) (hk : ∀ r, (k r).done = true) : Inside (.call L.release k)
  | call (op : Op) (k : Res op → Prog Op Res ε α) (hacquire : op ≠ L.acquire) (hrelease : op ≠ L.release)
      (hI : ∀ c s r t, I s → h op c s = some (r, t) → I t)
      (hk : ∀ c s r t, I s → h op c s = some (r, t) → Inside (k r)) :
      Inside (.call op k)

/-- A program that reads, from states that are `seen`, until it takes the lock, for a locked part in
`S`, or throws before. -/
inductive Outside (S : Prog Op Res ε α → Prop) : Prog Op Res ε α → Prop
  | throw (e : ε) : Outside S (.throw e)
  | read (op : Op) (k : Res op → Prog Op Res ε α) (hop : reads op)
      (hk : ∀ c s r t, I s → seen s → h op c s = some (r, t) → Outside S (k r)) : Outside S (.call op k)
  | acquire (k : Res L.acquire → Prog Op Res ε α) (hno : ∀ r, L.got r = false → Outside S (k r))
      (hyes : ∀ r, L.got r = true → S (k r) ∧ Inside L h I (k r)) : Outside S (.call L.acquire k)

/-- A locked part that ran: whose it is, where it started, what it was answered, and how it ended. -/
structure Turn (ι : Type) (Op : Type) (Res : Op → Type) (ε α σ C : Type) where
  who : ι
  part : Prog Op Res ε α
  start : σ
  choices : List C
  result : Except ε α
  finish : σ

def Latch.Taken (s t : σ) : Prop := ∃ c r, h L.acquire c s = some (r, t) ∧ L.got r = true

inductive Turns (S : ι → Prog Op Res ε α → Prop) : σ → List (Turn ι Op Res ε α σ C) → σ → Prop
  | nil (s : σ) : Turns S s [] s
  | snoc {s t : σ} {l : List (Turn ι Op Res ε α σ C)} (hl : Turns S s l t) (T : Turn ι Op Res ε α σ C)
      (htaken : L.Taken h t T.start)
      (hpart : S T.who T.part) (hrun : run h T.part T.choices T.start = some (T.result, T.finish)) :
      Turns S s (l ++ [T]) T.finish

/-! ## Pools of such programs -/

/-- Nobody is in the lock, or one program is: what has been done is what the turns so far did, and the
part of its turn that the program has run alone. -/
inductive Stage (S : ι → Prog Op Res ε α → Prop) (l : List (Turn ι Op Res ε α σ C)) (t : σ)
    (s : σ × (ι → Prog Op Res ε α)) : Prop
  | idle (hfree : ¬L.held s.1) (hstate : s.1 = t) (hout : ∀ i, i ∉ l.map (·.who) →
      Outside L h I reads seen (S i) (s.2 i))
  | busy (i : ι) (part : Prog Op Res ε α) (start : σ) (cs : List C) (htaken : L.Taken h t start) (hpart : S i part)
      (hafter : after h part cs start = some (s.2 i, s.1)) (hin : Inside L h I (s.2 i)) (hheld : L.held s.1)
      (hout : ∀ j, j ≠ i → j ∉ l.map (·.who) → Outside L h I reads seen (S j) (s.2 j))

/-- The turns account for the state of the pool. -/
structure Accounts (S : ι → Prog Op Res ε α → Prop) (s₀ : σ) (l : List (Turn ι Op Res ε α σ C)) (t : σ)
    (s : σ × (ι → Prog Op Res ε α)) : Prop where
  turns : Turns L h S s₀ l t
  once : (l.map (·.who)).Nodup
  ended : ∀ T ∈ l, s.2 T.who = Prog.ended T.result
  stage : Stage L h I reads seen S l t s
  inv : I s.1

variable {L h I reads seen} {S : ι → Prog Op Res ε α → Prop} {s₀ : σ}
  {s s' : σ × (ι → Prog Op Res ε α)} {e : ι × C}

theorem ended_ne_call {r : Except ε α} {op : Op} {k : Res op → Prog Op Res ε α} : Prog.ended r ≠ .call op k := by
  cases r <;> intro heq <;> cases heq

variable [DecidableEq ι] (hL : L.Lawful h I) (hreads : ∀ op c s r t, reads op → h op c s = some (r, t) → t = s)
include hL hreads

/-- A step outside the lock leaves the state alone, or takes the lock. -/
theorem outside_step {op : Op} {k : Res op → Prog Op Res ε α} {S : Prog Op Res ε α → Prop} {c : C}
    {s t : σ} {r : Res op}
    (hinv : I s) (hseen : seen s) (hout : Outside L h I reads seen S (.call op k)) (hop : h op c s = some (r, t)) :
    (t = s ∧ Outside L h I reads seen S (k r)) ∨
      (L.Taken h s t ∧ ¬L.held s ∧ L.held t ∧ I t ∧ S (k r) ∧ Inside L h I (k r)) := by
  cases hout with
  | read _ _ hread hk => exact .inl ⟨hreads op c s r t hread hop, hk c s r t hinv hseen hop⟩
  | acquire _ hno hyes =>
    cases hgot : L.got r with
    | false => exact .inl ⟨hL.fails c s r t hop hgot, hno r hgot⟩
    | true =>
      obtain ⟨hpart, hin⟩ := hyes r hgot
      obtain ⟨hfree, hheld, hkeeps⟩ := hL.takes c s r t hop hgot
      exact .inr ⟨⟨c, r, hop, hgot⟩, hfree, hheld, hkeeps hinv, hpart, hin⟩

theorem accounts_step {l : List (Turn ι Op Res ε α σ C)} {t : σ} (ha : Accounts L h I reads seen S s₀ l t s)
    (hseen : seen s.1) (hs : stepPool h s e = some s') : ∃ l' t', Accounts L h I reads seen S s₀ l' t' s' := by
  obtain ⟨op, k, r, hcall, hop, hprogs⟩ := stepPool_cases hs
  have hnew : e.1 ∉ l.map (·.who) := by
    intro hmem
    obtain ⟨T, hT, hwho⟩ := List.mem_map.mp hmem
    have hended := ha.ended T hT
    rw [hwho, hcall] at hended
    exact ended_ne_call hended.symm
  have hself : s'.2 e.1 = k r := by rw [hprogs, Function.update_self]
  have hother : ∀ j, j ≠ e.1 → s'.2 j = s.2 j := fun j hj => stepPool_other hs hj
  have hended : ∀ T ∈ l, s'.2 T.who = Prog.ended T.result := by
    intro T hT
    rw [hother T.who fun heq => hnew (heq ▸ List.mem_map_of_mem hT)]
    exact ha.ended T hT
  cases ha.stage with
  | idle hfree hstate hout =>
    have hme := hout e.1 hnew
    rw [hcall] at hme
    rcases outside_step hL hreads ha.inv hseen hme hop with ⟨hsame, hk⟩ | ⟨htaken, -, hheld, hinv, hpart, hin⟩
    · refine ⟨l, t, ha.turns, ha.once, hended, .idle (hsame ▸ hfree) (hsame.trans hstate) fun i hi => ?_,
        hsame ▸ ha.inv⟩
      by_cases hie : i = e.1
      · rw [hie, hself]
        exact hk
      · rw [hother i hie]
        exact hout i hi
    · refine ⟨l, t, ha.turns, ha.once, hended, .busy e.1 (k r) s'.1 [] (hstate ▸ htaken) hpart ?_ (hself ▸ hin) hheld
        fun j hj hjl => ?_, hinv⟩
      · rw [hself]
        cases k r <;> rfl
      · rw [hother j hj]
        exact hout j hjl
  | busy i part start cs htaken hpart hafter hin hheld hout =>
    by_cases hie : e.1 = i
    · subst hie
      rw [hcall] at hin hafter
      have hnext := after_snoc hafter hop
      cases hin with
      | release _ hdone =>
        obtain ⟨res, hres⟩ := ended_of_done (hdone r)
        rw [hres] at hnext
        obtain ⟨hfree, hinv⟩ := hL.gives _ _ _ _ hop
        refine ⟨l ++ [⟨e.1, part, start, cs ++ [e.2], res, s'.1⟩], s'.1, ?_, ?_, ?_, .idle hfree rfl ?_, hinv ha.inv⟩
        · exact .snoc ha.turns ⟨e.1, part, start, cs ++ [e.2], res, s'.1⟩ htaken hpart (run_of_after hnext)
        · rw [List.map_append, List.nodup_append]
          refine ⟨ha.once, List.pairwise_singleton _ _, fun a hmem b hb heq => hnew ?_⟩
          have hbe : b = e.1 := List.mem_singleton.mp hb
          rw [← hbe, ← heq]
          exact hmem
        · intro T hT
          rcases List.mem_append.mp hT with hT | hT
          · exact hended T hT
          · rw [List.mem_singleton.mp hT]
            exact hself.trans hres
        · intro j hj
          rw [List.map_append, List.mem_append, not_or] at hj
          have hje : j ≠ e.1 := fun heq => hj.2 (by rw [heq]; exact List.mem_singleton_self _)
          rw [hother j hje]
          exact hout j hje hj.1
      | call _ _ hacquire hrelease hI hk =>
        have hheld' := hL.keeps op e.2 s.1 r s'.1 hacquire hrelease hheld hop
        refine ⟨l, t, ha.turns, ha.once, hended,
          .busy e.1 part start (cs ++ [e.2]) htaken hpart ?_ ?_ hheld' fun j hj hjl => ?_,
          hI e.2 s.1 r s'.1 ha.inv hop⟩
        · rw [hself]
          exact hnext
        · rw [hself]
          exact hk e.2 s.1 r s'.1 ha.inv hop
        · rw [hother j hj]
          exact hout j hj hjl
    · have hme := hout e.1 hie hnew
      rw [hcall] at hme
      rcases outside_step hL hreads ha.inv hseen hme hop with ⟨hsame, hk⟩ | ⟨-, hfree, -⟩
      · refine ⟨l, t, ha.turns, ha.once, hended, .busy i part start cs htaken hpart ?_ ?_ (hsame ▸ hheld)
          fun j hj hjl => ?_,
          hsame ▸ ha.inv⟩
        · rw [hother i (Ne.symm hie), hsame]
          exact hafter
        · rw [hother i (Ne.symm hie)]
          exact hin
        · by_cases hje : j = e.1
          · rw [hje, hself]
            exact hk
          · rw [hother j hje]
            exact hout j hj hjl
      · exact absurd hheld hfree

/-- Every run of the pool, through states that are `seen`, is accounted for by turns in the lock. -/
theorem accounts_run {progs : ι → Prog Op Res ε α} {es : List (ι × C)} (hfree : ¬L.held s₀) (hinv : I s₀)
    (hprogs : ∀ i, Outside L h I reads seen (S i) (progs i))
    (hseen : ∀ es₁ es₂ u, es = es₁ ++ es₂ → Runs.exec (stepPool h) (s₀, progs) es₁ = some u → seen u.1)
    (hrun : Runs.exec (stepPool h) (s₀, progs) es = some s) : ∃ l t, Accounts L h I reads seen S s₀ l t s := by
  induction es using List.reverseRecOn generalizing s with
  | nil =>
    cases hrun
    exact ⟨[], s₀, .nil s₀, List.nodup_nil, fun T hT => absurd hT List.not_mem_nil, .idle hfree rfl
      fun i _ => hprogs i, hinv⟩
  | append_singleton es e ih =>
    obtain ⟨u, hu, hs⟩ := (Runs.exec_snoc_eq_some _).mp hrun
    obtain ⟨l, t, ha⟩ :=
      ih (fun es₁ es₂ v hes hv => hseen es₁ (es₂ ++ [e]) v (by rw [hes, List.append_assoc]) hv) hu
    exact accounts_step hL hreads ha (hseen es [e] u rfl hu) hs

end

/-! ## Programs that read, and programs that take no lock -/

section
variable {L : Latch Op Res σ} {h : (op : Op) → C → σ → Option (Res op × σ)} {I : σ → Prop}
  {reads : Op → Prop} {seen : σ → Prop}
variable {S : Prog Op Res ε α → Prop} {β : Type}

inductive Keeps (L : Latch Op Res σ) (h : (op : Op) → C → σ → Option (Res op × σ)) (I : σ → Prop)
    (P : β → Prop) :
    Prog Op Res ε β → Prop
  | ret (b : β) (hb : P b) : Keeps L h I P (.ret b)
  | throw (e : ε) : Keeps L h I P (.throw e)
  | call (op : Op) (k : Res op → Prog Op Res ε β) (hacquire : op ≠ L.acquire) (hrelease : op ≠ L.release)
      (hI : ∀ c s r t, I s → h op c s = some (r, t) → I t)
      (hk : ∀ c s r t, I s → h op c s = some (r, t) → Keeps L h I P (k r)) : Keeps L h I P (.call op k)

theorem Keeps.bind {γ : Type} {P : β → Prop} {Q : γ → Prop} {p : Prog Op Res ε β}
    {f : β → Prog Op Res ε γ} (hp : Keeps L h I P p)
    (hf : ∀ b, P b → Keeps L h I Q (f b)) : Keeps L h I Q (p >>= f) := by
  induction hp with
  | ret b hb => exact hf b hb
  | throw e => exact .throw e
  | call op k hacquire hrelease hI _ ih => exact .call op _ hacquire hrelease hI ih

theorem Keeps.mono {P Q : β → Prop} {p : Prog Op Res ε β} (hp : Keeps L h I P p) (hPQ : ∀ b, P b → Q b) :
    Keeps L h I Q p := by
  induction hp with
  | ret b hb => exact .ret b (hPQ b hb)
  | throw e => exact .throw e
  | call op k hacquire hrelease hI _ ih => exact .call op _ hacquire hrelease hI ih

theorem keeps_only {P : Op → Prop} {p : Prog Op Res ε β} (hp : p.Only P)
    (hP : ∀ op, P op → op ≠ L.acquire ∧ op ≠ L.release ∧ ∀ c s r t, I s → h op c s = some (r, t) → I t) :
    Keeps L h I (fun _ => True) p := by
  induction p with
  | ret b => exact .ret b trivial
  | throw e => exact .throw e
  | call op k ih =>
    obtain ⟨hacquire, hrelease, hI⟩ := hP op hp.1
    exact .call op k hacquire hrelease hI fun _ _ r _ _ _ => ih r (hp.2 r)

theorem Outside.bind {p : Prog Op Res ε β} {f : β → Prog Op Res ε α} (hp : p.Only reads)
    (hf : ∀ b, Outside L h I reads seen S (f b)) : Outside L h I reads seen S (p >>= f) := by
  induction p with
  | ret b => exact hf b
  | throw e => exact .throw e
  | call op k ih => exact .read op _ hp.1 fun _ _ r _ _ _ _ => ih r (hp.2 r)

end

end

end Effects
