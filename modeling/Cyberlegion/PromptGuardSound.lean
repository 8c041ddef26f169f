import Cyberlegion.PromptGuard
import Cyberlegion.PromptSound

/-!
# What a guarded send does to the pane

A run waits, with nothing but reads, and then types and sends in one of a few courses.
`Course` lists them; what holds of every run is read off it.
-/

namespace Cyberlegion

namespace Console

open Effects

section
variable {ε τ : Type}

/-! ## The two parts of a log -/

def waiting (l : Log ε τ) : Log ε τ := l.takeWhile quiet

def acting (l : Log ε τ) : Log ε τ := l.dropWhile quiet

section
variable {w m : Log ε τ} {e : PaneCall × Reply ε τ}

theorem waiting_quiet (hw : ∀ e ∈ w, quiet e = true) : waiting w = w := List.takeWhile_eq_self_iff.mpr hw

theorem waiting_append (hw : ∀ e ∈ w, quiet e = true) (he : quiet e = false) : waiting (w ++ e :: m) = w := by
  rw [waiting, List.takeWhile_append_of_pos hw, List.takeWhile_cons_of_neg (by rw [he]; exact Bool.false_ne_true),
    List.append_nil]

theorem acting_append (hw : ∀ e ∈ w, quiet e = true) (he : quiet e = false) : acting (w ++ e :: m) = e :: m := by
  rw [acting, List.dropWhile_append_of_pos hw, List.dropWhile_cons_of_neg (by rw [he]; exact Bool.false_ne_true)]

theorem acting_quiet (hw : ∀ e ∈ w, quiet e = true) : acting w = [] := List.dropWhile_eq_nil_iff.mpr hw

end

/-! ## Waiting -/

section
variable (o : DraftGuardOptions)

def shown (l : Log ε τ) : Option PromptState := (screens l).getLast?.map o.shows

/-- From one read on, every read showed the same draft, for `ms` at least. -/
def HeldFor (text : Row) (ms : Int) (l : Log ε τ) : Prop :=
  ∃ front r rest, l = front ++ (.read, .screen r) :: rest ∧
    (∀ s ∈ r :: screens rest, textOf (o.shows s) = some text) ∧
    ms ≤ elapsed rest

structure Waited (state : PromptState) (l : Log ε τ) : Prop where
  quiet : ∀ e ∈ l, quiet e = true
  shown : shown o l = some state
  bounded : elapsed l ≤ o.maxWait

/-- The box is free, holds the caller's own text, or a draft that was left alone long enough. -/
def Settled (l : Log ε τ) (state : PromptState) : Prop :=
  ∀ text, textOf state = some text → o.isOwn state = true ∨ HeldFor o text o.idle l

variable {o}

theorem shown_append {l m : Log ε τ} (hm : screens m = []) : shown o (l ++ m) = shown o l := by
  rw [shown, screens_append, hm, List.append_nil, shown]

theorem HeldFor.mono {text : Row} {ms ms' : Int} {l : Log ε τ} (h : HeldFor o text ms l) (hle : ms' ≤ ms) :
    HeldFor o text ms' l := by
  obtain ⟨front, r, rest, hl, hall, hms⟩ := h
  exact ⟨front, r, rest, hl, hall, Int.le_trans hle hms⟩

theorem HeldFor.poll {text : Row} {ms : Int} {l : Log ε τ} {r : Except ε (Option String)} (h : HeldFor o text ms l)
    (hr : textOf (o.shows r) = some text) :
    HeldFor o text (ms + o.poll) (l ++ [(.now, .time), (.now, .time), (.sleep o.poll, .time), (.read, .screen r)]) := by
  obtain ⟨front, s, rest, rfl, hall, hms⟩ := h
  refine ⟨front, s, rest ++ [(.now, .time), (.now, .time), (.sleep o.poll, .time), (.read, .screen r)], ?_, ?_, ?_⟩
  · rw [List.append_assoc, List.cons_append]
  · intro s' hs'
    rw [screens_append, ← List.cons_append] at hs'
    rcases List.mem_append.mp hs' with hs' | hs'
    · exact hall s' hs'
    · rw [List.mem_singleton.mp hs']
      exact hr
  · rw [elapsed_append]
    exact Int.add_le_add hms (by simp [elapsed, sleptBy])

theorem Waited.poll {state : PromptState} {l : Log ε τ} (h : Waited o state l) (r : Except ε (Option String))
    (hroom : elapsed l + o.poll ≤ o.maxWait) :
    Waited o (o.shows r) (l ++ [(.now, .time), (.now, .time), (.sleep o.poll, .time), (.read, .screen r)]) where
  quiet e he := by
    rcases List.mem_append.mp he with he | he
    · exact h.quiet e he
    · simp only [List.mem_cons, List.not_mem_nil, or_false] at he
      rcases he with rfl | rfl | rfl | rfl <;> rfl
  shown := by
    rw [Console.shown, screens_append]
    exact congrArg (Option.map o.shows) List.getLast?_concat
  bounded := by
    rw [elapsed_append]
    simpa [elapsed, sleptBy] using hroom

theorem Waited.now {state : PromptState} {l : Log ε τ} (h : Waited o state l) :
    Waited o state (l ++ [(.now, .time)]) where
  quiet e he := by
    rcases List.mem_append.mp he with he | he
    · exact h.quiet e he
    · rw [List.mem_singleton.mp he]
      rfl
  shown := (shown_append rfl).trans h.shown
  bounded := by
    rw [elapsed_append]
    simpa [elapsed, sleptBy] using h.bounded

theorem HeldFor.now {text : Row} {ms : Int} {l : Log ε τ} (h : HeldFor o text ms l) :
    HeldFor o text ms (l ++ [(.now, .time)]) := by
  obtain ⟨front, s, rest, rfl, hall, hms⟩ := h
  refine ⟨front, s, rest ++ [(.now, .time)], ?_, ?_, ?_⟩
  · rw [List.append_assoc, List.cons_append]
  · rw [screens_append]
    exact fun s' hs' => hall s' (by simpa [screens, screenOf] using hs')
  · rw [elapsed_append]
    simpa [elapsed, sleptBy] using hms

end

/-! ## The loop -/

section
variable {o : DraftGuardOptions} {target : String}

theorem wp_readState {α : Type} {f : PromptState → GuardM ε τ α}
    {Q : Except (GuardError ε) α → Int × Log ε τ → Prop} {clock : Int} {l : Log ε τ}
    (hk : ∀ r, wp (logged (pane ε τ)) (fun _ _ => True) (fun _ _ => True) (f (o.shows r)) Q
      (clock, l ++ [(.read, .screen r)])) :
    wp (logged (pane ε τ)) (fun _ _ => True) (fun _ _ => True) (readState o >>= f) Q (clock, l) :=
  wp_read trivial fun r _ => hk r

/-- How the wait ends: with a settled box, or by giving up on a human who is still editing. -/
def WaitEnds (o : DraftGuardOptions) (target : String) : Except (GuardError ε) PromptState → Int × Log ε τ → Prop
  | .ok state, s => Waited o state s.2 ∧ Settled o s.2 state
  | .error e, s => e = .stillEditing target o.maxWait ∧ ∃ state, Waited o state s.2

/-- The loop keeps: the clock is as far on as the sleeps, and the draft has been held since `changedAt`. -/
theorem waitIdle_ends (fuel : Nat) : ∀ {state : PromptState} {start clock changedAt : Int}
    {l : Log ε τ}, Waited o state l → clock = start + elapsed l →
      (∀ text, textOf state = some text → HeldFor o text (clock - changedAt) l) →
      o.maxWait < elapsed l + fuel * o.poll →
      wp (logged (pane ε τ)) (fun _ _ => True) (fun _ _ => True) (waitIdle o target start fuel state changedAt)
        (WaitEnds o target) (clock, l) := by
  induction fuel with
  | zero =>
    intro state start clock changedAt l hw hclock hheld hfuel
    have := hw.bounded
    omega
  | succ fuel ih =>
    intro state start clock changedAt l hw hclock hheld hfuel
    rw [waitIdle]
    split
    · next hfree =>
      refine ⟨hw, fun text htext => ?_⟩
      rcases hfree with hnone | hown
      · rw [hnone] at htext
        cases htext
      · exact .inl hown
    · next hdraft =>
      refine wp_now trivial ?_
      split
      · next hidle => exact ⟨hw.now, fun text htext => .inr ((hheld text htext).mono hidle).now⟩
      · refine wp_now trivial ?_
        split
        · exact ⟨rfl, state, hw.now.now⟩
        · next hroom =>
          refine wp_sleep trivial (wp_readState fun r => ?_)
          simp only [List.append_assoc, List.cons_append, List.nil_append]
          have hroom' : elapsed l + o.poll ≤ o.maxWait := by omega
          have hw' := hw.poll r hroom'
          have hpast : elapsed (l ++ [(.now, .time), (.now, .time), (.sleep o.poll, .time), (.read, .screen r)]) =
              elapsed l + o.poll := by
            rw [elapsed_append]
            simp [elapsed, sleptBy]
          have hnow : elapsed ([(.now, .time)] : Log ε τ) = 0 := rfl
          have hfuel' : o.maxWait < elapsed l + o.poll + fuel * o.poll := by
            have hsplit : ((fuel + 1 : Nat) : Int) * o.poll = fuel * o.poll + o.poll := by
              rw [Int.natCast_add, Int.add_mul, Int.natCast_one, Int.one_mul]
            omega
          split
          · refine wp_now trivial (ih hw'.now ?_ ?_ ?_)
            · rw [elapsed_append, hpast, hnow]
              omega
            · intro text htext
              refine ⟨l ++ [(.now, .time), (.now, .time), (.sleep o.poll, .time)], r, [(.now, .time)], ?_, ?_, ?_⟩
              · simp only [List.append_assoc, List.cons_append, List.nil_append]
              · intro s hs
                rw [List.mem_singleton.mp hs]
                exact htext
              · simp [elapsed, sleptBy]
            · rw [elapsed_append, hpast, hnow]
              omega
          · next hsame =>
            rw [not_or, not_not] at hsame
            refine ih hw' ?_ ?_ ?_
            · omega
            · intro text htext
              have htext' : textOf state = some text := hsame.2.symm.trans htext
              refine ((hheld text htext').poll htext).mono ?_
              omega
            · rw [hpast]
              exact hfuel'

/-! ## The courses a run may take -/

/-- The keys that empty the box, all of them taken. -/
def cleared : Log ε τ :=
  [(.sendText END_OF_LINE, .typed (.ok ())), (.sleep KEY_SETTLE_MS, .time), (.sendText KILL_LINE, .typed (.ok ())),
    (.sleep KEY_SETTLE_MS, .time)]

/-- The keys up to one that the adapter would not type. -/
def brokenOff (first : Bool) (e : ε) : Log ε τ :=
  if first = true then [(.sendText END_OF_LINE, .typed (.error e))]
  else [(.sendText END_OF_LINE, .typed (.ok ())), (.sleep KEY_SETTLE_MS, .time),
    (.sendText KILL_LINE, .typed (.error e))]

def outcome : Except ε τ → Except (GuardError ε) τ := Except.mapError .thrown

/-- What is left of `send`'s outcome once the `finally` block is done. -/
def afterwards (sent : Except ε τ) : Except ε Unit → Except (GuardError ε) τ
  | .ok _ => outcome sent
  | .error e => .error (.thrown e)

inductive Course (o : DraftGuardOptions) (target : String) : Log ε τ → Except (GuardError ε) τ → Prop
  | stillEditing {w : Log ε τ} {state : PromptState} (hw : Waited o state w) :
    Course o target w (.error (.stillEditing target o.maxWait))
  | spansRows {w : Log ε τ} {text : Row} {rows : Nat} (hw : Waited o (.draft text rows) w) :
    Course o target w (.error (.spansRows target rows))
  | free {w : Log ε τ} {state : PromptState} (hw : Waited o state w) (hstate : textOf state = none)
      (sent : Except ε τ) :
    Course o target (w ++ [(.send, .sent sent)]) (outcome sent)
  | broken {w : Log ε τ} {text : Row} {rows : Nat} (hw : Waited o (.draft text rows) w)
    (hsettled : Settled o w (.draft text rows)) (first : Bool) (e : ε) :
    Course o target (w ++ brokenOff first e) (.error (.thrown e))
  | own {w : Log ε τ} {text : Row} {rows : Nat} (hw : Waited o (.draft text rows) w)
    (hown : o.isOwn (.draft text rows) = true) (sent : Except ε τ) :
    Course o target (w ++ (cleared ++ [(.send, .sent sent)])) (outcome sent)
  | unremoved {w : Log ε τ} {text : Row} (hw : Waited o (.draft text 1) w) (hsettled : Settled o w (.draft text 1))
    (hforeign : o.isOwn (.draft text 1) = false) (r : Except ε (Option String)) (hr : textOf (o.shows r) = some text)
    (sent : Except ε τ) :
    Course o target (w ++ (cleared ++ [(.read, .screen r), (.send, .sent sent)])) (outcome sent)
  | restored {w : Log ε τ} {text : Row} (hw : Waited o (.draft text 1) w) (hsettled : Settled o w (.draft text 1))
    (hforeign : o.isOwn (.draft text 1) = false) (r : Except ε (Option String)) (hr : textOf (o.shows r) ≠ some text)
    (sent : Except ε τ) (back : Except ε Unit) :
    Course o target (w ++ (cleared ++ [(.read, .screen r), (.send, .sent sent), (.sleep KEY_SETTLE_MS, .time),
      (.sendText (String.ofList text), .typed back)])) (afterwards sent back)

section
variable {A : PaneCall → Reply ε τ → Prop} {Φ : PaneCall → Int × Log ε τ → Prop}

theorem wp_runSend {Q : Except (GuardError ε) τ → Int × Log ε τ → Prop} {clock : Int} {l : Log ε τ}
    (hQ : ∀ sent, Q (outcome sent) (clock, l ++ [(.send, .sent sent)])) :
    wp (logged (pane ε τ)) (fun _ _ => True) (fun _ _ => True) runSend Q (clock, l) := by
  refine wp_send trivial fun sent _ => ?_
  cases sent with
  | ok a => exact hQ (.ok a)
  | error e => exact hQ (.error e)

theorem wp_clearLine {α : Type} {f : Unit → GuardM ε τ α} {Q : Except (GuardError ε) α → Int × Log ε τ → Prop}
    {clock : Int} {l : Log ε τ}
    (hbroken : ∀ first e clock, Q (.error (.thrown e)) (clock, l ++ brokenOff first e))
    (hf : ∀ clock, wp (logged (pane ε τ)) (fun _ _ => True) (fun _ _ => True) (f ()) Q (clock, l ++ cleared)) :
    wp (logged (pane ε τ)) (fun _ _ => True) (fun _ _ => True) (clearLine >>= f) Q (clock, l) := by
  rw [clearLine]
  simp only [sendText, sleep, bind_assoc]
  refine wp_sendText trivial fun r _ => wp_orThrow ?_ ?_
  · rintro e rfl
    exact hbroken true e _
  · rintro b rfl
    refine wp_sleep trivial (wp_sendText trivial fun r _ => wp_orThrow ?_ ?_)
    · rintro e rfl
      rw [List.append_assoc, List.append_assoc]
      exact hbroken false e _
    · rintro b' rfl
      refine wp_sleep trivial ?_
      rw [List.append_assoc, List.append_assoc, List.append_assoc]
      exact hf _

end

theorem sendOver_course {w : Log ε τ} {text : Row} {clock : Int} (hw : Waited o (.draft text 1) w)
    (hsettled : Settled o w (.draft text 1)) (hforeign : o.isOwn (.draft text 1) = false) :
    wp (logged (pane ε τ)) (fun _ _ => True) (fun _ _ => True) (sendOver o text) (fun r s => Course o target s.2 r)
      (clock, w) := by
  rw [sendOver]
  refine wp_clearLine (fun first e _ => .broken hw hsettled first e) fun clock => wp_readState fun r => ?_
  split
  · next hr =>
    refine wp_runSend fun sent => ?_
    simp only [List.append_assoc, List.singleton_append]
    exact .unremoved hw hsettled hforeign r hr sent
  · next hr =>
    refine wp_send trivial fun sent _ => wp_sleep trivial ?_
    simp only [sendText, bind_assoc]
    refine wp_sendText trivial fun back _ => ?_
    simp only [List.append_assoc, List.cons_append, List.nil_append]
    have hcourse : Course o target _ _ := .restored hw hsettled hforeign r hr sent back
    cases back with
    | error e => exact hcourse
    | ok _ => cases sent <;> exact hcourse

theorem shows_draft {r : Except ε (Option String)} {text : Row} {rows : Nat} (hr : o.shows r = .draft text rows) :
    0 < rows ∧ (rows = 1 → ∀ c ∈ text, lineTerminator c = false) := by
  cases r with
  | error e => cases hr
  | ok screen =>
    cases screen with
    | none => cases hr
    | some screen =>
      cases hread : readPrompt screen o.harness with
      | none => rw [DraftGuardOptions.shows, hread] at hr; cases hr
      | some state =>
        rw [DraftGuardOptions.shows, hread, Option.getD_some] at hr
        rw [hr] at hread
        exact readPrompt_draft hread

theorem waited_draft {w : Log ε τ} {text : Row} {rows : Nat} (hw : Waited o (.draft text rows) w) :
    0 < rows ∧ (rows = 1 → ∀ c ∈ text, lineTerminator c = false) := by
  obtain ⟨r, -, hr⟩ := Option.map_eq_some_iff.mp hw.shown
  exact shows_draft hr

theorem polls_enough (hpoll : 0 < o.poll) : o.maxWait < o.polls * o.poll := by
  have hdiv : o.maxWait < (o.maxWait / o.poll + 1) * o.poll := Int.lt_ediv_add_one_mul_self o.maxWait hpoll
  have hle : o.maxWait / o.poll ≤ ((o.maxWait / o.poll).toNat : Int) := Int.self_le_toNat _
  have hmono : (o.maxWait / o.poll + 1) * o.poll ≤ (((o.maxWait / o.poll).toNat : Int) + 1) * o.poll :=
    Int.mul_le_mul_of_nonneg_right (Int.add_le_add_right hle 1) (Int.le_of_lt hpoll)
  exact Int.lt_of_lt_of_le hdiv hmono

theorem withDraftGuard_course (hpoll : 0 < o.poll) (hmax : 0 < o.maxWait) (clock : Int) :
    wp (logged (pane ε τ)) (fun _ _ => True) (fun _ _ => True) (withDraftGuard o target)
      (fun r s => Course o target s.2 r) (clock, []) := by
  rw [withDraftGuard]
  refine wp_readState fun r => wp_now trivial ?_
  have hw : Waited o (o.shows r) ([(.read, .screen r), (.now, .time)] : Log ε τ) :=
    { quiet := by simp [quiet]
      shown := rfl
      bounded := Int.le_of_lt hmax }
  refine wp_seq (waitIdle_ends o.polls hw (Int.add_zero clock).symm ?_ ?_) ?_ ?_
  · intro text htext
    refine ⟨[], r, [(.now, .time)], rfl, fun s hs => ?_, by simp [elapsed, sleptBy]⟩
    rw [List.mem_singleton.mp hs]
    exact htext
  · exact (Int.zero_add _).symm ▸ polls_enough hpoll
  · rintro state ⟨clock, l⟩ ⟨hw, hsettled⟩
    cases state with
    | empty => exact wp_runSend fun sent => .free hw rfl sent
    | unknown => exact wp_runSend fun sent => .free hw rfl sent
    | draft text rows =>
      simp only
      split
      · next hown =>
        refine wp_clearLine (fun first e _ => .broken hw hsettled first e) fun clock => wp_runSend fun sent => ?_
        rw [List.append_assoc]
        exact .own hw hown sent
      · next hforeign =>
        split
        · exact .spansRows hw
        · next hone =>
          obtain rfl : rows = 1 := Nat.le_antisymm (Nat.le_of_not_lt hone) (waited_draft hw).1
          exact sendOver_course hw hsettled (Bool.not_eq_true _ |>.mp hforeign)
  · rintro e ⟨clock, l⟩ ⟨rfl, state, hw⟩
    exact .stillEditing hw

/-! ## What every run keeps -/

/-- The draft is typed last, once `send` is over. -/
def TypedBack (text : Row) (l : Log ε τ) : Prop :=
  ∃ l' back, l = l' ++ [(.sendText (String.ofList text), back)] ∧ typed l' = [END_OF_LINE, KILL_LINE] ∧
    l'.countP sends = 1

/-- A human's draft was cleared, and the screen read next no longer showed its text. -/
def Displaced (o : DraftGuardOptions) (text : Row) (l : Log ε τ) : Prop :=
  shown o (waiting l) = some (.draft text 1) ∧ o.isOwn (.draft text 1) = false ∧
    ∃ s ∈ screens (acting l), textOf (o.shows s) ≠ some text

structure Guarded (o : DraftGuardOptions) (l : Log ε τ) (r : Except (GuardError ε) τ) : Prop where
  once : l.countP sends ≤ 1
  typing : typed l <+: [END_OF_LINE, KILL_LINE] ∨
    ∃ text, shown o (waiting l) = some (.draft text 1) ∧ typed l = [END_OF_LINE, KILL_LINE, String.ofList text]
  noEnter : (∀ text ∈ typed l, ∀ c ∈ text.toList, lineTerminator c = false) ∧ pressed l = [] ∧ submitted l = []
  patient : typed l ≠ [] → ∃ text rows, shown o (waiting l) = some (.draft text rows) ∧
    (o.isOwn (.draft text rows) = true ∨ HeldFor o text o.idle (waiting l))
  restored : ∀ text, TypedBack text l ↔ Displaced o text l
  untouched : (∀ e, r ≠ .error (.thrown e)) → (∀ a, r ≠ .ok a) → typed l = [] ∧ l.countP sends = 0
  stops : elapsed (waiting l) ≤ o.maxWait ∧ r ≠ .error .outOfFuel

section
variable {o : DraftGuardOptions} {target : String} {w : Log ε τ} {state : PromptState}

theorem keys_clean : ∀ text ∈ [END_OF_LINE, KILL_LINE], ∀ c ∈ text.toList, lineTerminator c = false := by
  intro text htext
  exact clean_of_all (by decide) _ (List.mem_map_of_mem (f := String.toList) htext)

theorem not_typedBack {text : Row} {l : Log ε τ} (hl : (typed l).length ≠ 3) : ¬TypedBack text l := by
  rintro ⟨l', back, rfl, htyped, -⟩
  rw [typed_append, htyped] at hl
  exact hl rfl

theorem guarded_quiet {r : Except (GuardError ε) τ} (hw : Waited o state w) (hr : r ≠ .error .outOfFuel) :
    Guarded o w r where
  once := by rw [sends_quiet hw.quiet]; exact Nat.zero_le 1
  typing := by rw [typed_quiet hw.quiet]; exact .inl (List.nil_prefix)
  noEnter := by
    rw [typed_quiet hw.quiet]
    exact ⟨fun _ htext => absurd htext List.not_mem_nil, pressed_quiet hw.quiet, submitted_quiet hw.quiet⟩
  patient htyped := absurd (typed_quiet hw.quiet) htyped
  restored text := by
    refine ⟨fun hback => absurd hback (not_typedBack ?_), fun hdisplaced => ?_⟩
    · rw [typed_quiet hw.quiet]; decide
    · obtain ⟨-, -, s, hs, -⟩ := hdisplaced
      rw [acting_quiet hw.quiet] at hs
      cases hs
  untouched _ _ := ⟨typed_quiet hw.quiet, sends_quiet hw.quiet⟩
  stops := ⟨(waiting_quiet hw.quiet).symm ▸ hw.bounded, hr⟩

/-- A run that goes on to keys or the send, and types nothing back: where it typed, the box held a draft that was
settled, and any screen read since showed that draft still. -/
theorem guarded_acting {r : Except (GuardError ε) τ} {e : PaneCall × Reply ε τ} {m : Log ε τ} (hw : Waited o state w)
    (he : quiet e = false) (hsends : (e :: m).countP sends ≤ 1) (hkeys : typed (e :: m) <+: [END_OF_LINE, KILL_LINE])
    (hpressed : pressed (e :: m) = []) (hsubmitted : submitted (e :: m) = [])
    (hdraft : typed (e :: m) ≠ [] → ∃ text rows, state = .draft text rows)
    (hsettled : typed (e :: m) ≠ [] → Settled o w state)
    (hstill : ∀ s ∈ screens (e :: m), textOf (o.shows s) = textOf state)
    (hr : (∃ a, r = .ok a) ∨ ∃ e, r = .error (.thrown e)) : Guarded o (w ++ e :: m) r where
  once := by rw [List.countP_append, sends_quiet hw.quiet, Nat.zero_add]; exact hsends
  typing := by rw [typed_append, typed_quiet hw.quiet]; exact .inl hkeys
  noEnter := by
    rw [typed_append, pressed_append, submitted_append, typed_quiet hw.quiet, pressed_quiet hw.quiet,
      submitted_quiet hw.quiet, hpressed, hsubmitted]
    exact ⟨fun text htext => keys_clean text (hkeys.subset htext), rfl, rfl⟩
  patient htyped := by
    rw [typed_append, typed_quiet hw.quiet] at htyped
    rw [waiting_append hw.quiet he, hw.shown]
    obtain ⟨text, rows, rfl⟩ := hdraft htyped
    exact ⟨text, rows, rfl, hsettled htyped text rfl⟩
  restored text := by
    refine ⟨fun hback => absurd hback (not_typedBack ?_), fun hdisplaced => ?_⟩
    · rw [typed_append, typed_quiet hw.quiet, List.nil_append]
      have hle : (typed (e :: m)).length ≤ 2 := hkeys.length_le
      omega
    · obtain ⟨hshown, -, s, hs, hother⟩ := hdisplaced
      rw [waiting_append hw.quiet he, hw.shown] at hshown
      rw [acting_append hw.quiet he] at hs
      rw [hstill s hs, Option.some.inj hshown] at hother
      exact absurd rfl hother
  untouched hthrown hok := by
    rcases hr with ⟨a, rfl⟩ | ⟨e, rfl⟩
    · exact absurd rfl (hok a)
    · exact absurd rfl (hthrown e)
  stops := by
    rw [waiting_append hw.quiet he]
    refine ⟨hw.bounded, fun hfuel => ?_⟩
    rcases hr with ⟨a, rfl⟩ | ⟨e, rfl⟩ <;> cases hfuel

theorem waiting_cleared {m : Log ε τ} (hw : ∀ e ∈ w, quiet e = true) : waiting (w ++ (cleared ++ m)) = w :=
  waiting_append hw rfl

theorem acting_cleared {m : Log ε τ} (hw : ∀ e ∈ w, quiet e = true) : acting (w ++ (cleared ++ m)) = cleared ++ m :=
  acting_append hw rfl

theorem guarded_restored {text : Row} {r : Except ε (Option String)} {sent : Except ε τ} {back : Except ε Unit}
    (hw : Waited o (.draft text 1) w) (hsettled : Settled o w (.draft text 1))
    (hforeign : o.isOwn (.draft text 1) = false) (hr : textOf (o.shows r) ≠ some text) :
    Guarded o (w ++ (cleared ++ [(.read, .screen r), (.send, .sent sent), (.sleep KEY_SETTLE_MS, .time),
      (.sendText (String.ofList text), .typed back)])) (afterwards sent back) where
  once := by rw [List.countP_append, sends_quiet hw.quiet]; exact Nat.le_refl 1
  typing := by
    rw [waiting_cleared hw.quiet, typed_append, typed_quiet hw.quiet]
    exact .inr ⟨text, hw.shown, rfl⟩
  noEnter := by
    rw [typed_append, pressed_append, submitted_append, typed_quiet hw.quiet, pressed_quiet hw.quiet,
      submitted_quiet hw.quiet]
    refine ⟨fun key hkey => ?_, rfl, rfl⟩
    rcases List.mem_append.mp (show key ∈ [END_OF_LINE, KILL_LINE] ++ [String.ofList text] from hkey) with hkey | hkey
    · exact keys_clean key hkey
    · rw [List.mem_singleton.mp hkey, String.toList_ofList]
      exact (waited_draft hw).2 rfl
  patient _ := by
    rw [waiting_cleared hw.quiet, hw.shown]
    exact ⟨text, 1, rfl, hsettled text rfl⟩
  restored text' := by
    constructor
    · rintro ⟨l', back', hl, -, -⟩
      have hlast : [(PaneCall.sendText (String.ofList text), Reply.typed back)] =
          [(PaneCall.sendText (String.ofList text'), back')] := by
        rw [← List.append_assoc, List.append_cons, List.append_cons, List.append_cons] at hl
        exact (List.append_inj' hl rfl).2
      simp only [List.cons.injEq, Prod.mk.injEq, PaneCall.sendText.injEq] at hlast
      obtain rfl : text = text' := String.ofList_injective hlast.1.1
      refine ⟨?_, hforeign, r, ?_, hr⟩
      · rw [waiting_cleared hw.quiet, hw.shown]
      · rw [acting_cleared hw.quiet]
        exact List.mem_singleton_self r
    · rintro ⟨hshown, -, -⟩
      rw [waiting_cleared hw.quiet, hw.shown] at hshown
      obtain rfl : text = text' := by injection Option.some.inj hshown
      refine ⟨w ++ (cleared ++ [(.read, .screen r), (.send, .sent sent), (.sleep KEY_SETTLE_MS, .time)]), .typed back,
        ?_, ?_, ?_⟩
      · simp only [List.append_assoc, List.cons_append, List.nil_append]
      · rw [typed_append, typed_quiet hw.quiet]
        rfl
      · rw [List.countP_append, sends_quiet hw.quiet]
        rfl
  untouched hthrown hok := by
    cases back with
    | error e => exact absurd rfl (hthrown e)
    | ok _ =>
      cases sent with
      | ok a => exact absurd rfl (hok a)
      | error e => exact absurd rfl (hthrown e)
  stops := by
    rw [waiting_cleared hw.quiet]
    refine ⟨hw.bounded, ?_⟩
    cases back with
    | error e => exact nofun
    | ok _ => cases sent <;> exact nofun

theorem Course.guarded {l : Log ε τ} {r : Except (GuardError ε) τ} (hc : Course o target l r) : Guarded o l r := by
  have houtcome : ∀ sent : Except ε τ, (∃ a, outcome sent = .ok a) ∨ ∃ e, outcome sent = .error (.thrown e) := by
    intro sent
    cases sent with
    | ok a => exact .inl ⟨a, rfl⟩
    | error e => exact .inr ⟨e, rfl⟩
  cases hc with
  | stillEditing hw => exact guarded_quiet hw nofun
  | spansRows hw => exact guarded_quiet hw nofun
  | free hw hstate sent =>
    exact guarded_acting hw rfl (Nat.le_refl 1) (List.nil_prefix) rfl rfl (fun h => absurd rfl h)
      (fun h => absurd rfl h)
      (fun _ hs => absurd hs List.not_mem_nil) (houtcome sent)
  | @broken w text rows hw hsettled first e =>
    cases first with
    | true =>
      exact guarded_acting hw rfl (Nat.zero_le 1) ⟨[KILL_LINE], rfl⟩ rfl rfl (fun _ => ⟨text, rows, rfl⟩)
        (fun _ => hsettled)
        (fun _ hs => absurd hs List.not_mem_nil) (.inr ⟨e, rfl⟩)
    | false =>
      exact guarded_acting hw rfl (Nat.zero_le 1) ⟨[], rfl⟩ rfl rfl (fun _ => ⟨text, rows, rfl⟩) (fun _ => hsettled)
        (fun _ hs => absurd hs List.not_mem_nil) (.inr ⟨e, rfl⟩)
  | @own w text rows hw hown sent =>
    exact guarded_acting hw rfl (Nat.le_refl 1) ⟨[], rfl⟩ rfl rfl (fun _ => ⟨text, rows, rfl⟩)
      (fun _ _ _ => .inl hown)
      (fun _ hs => absurd hs List.not_mem_nil) (houtcome sent)
  | @unremoved w text hw hsettled hforeign r hr sent =>
    refine guarded_acting hw rfl (Nat.le_refl 1) ⟨[], rfl⟩ rfl rfl (fun _ => ⟨text, 1, rfl⟩) (fun _ => hsettled) ?_
      (houtcome sent)
    intro s hs
    rw [List.mem_singleton.mp hs]
    exact hr
  | restored hw hsettled hforeign r hr sent back => exact guarded_restored hw hsettled hforeign hr

end

/-- The guard clears a draft only with patience, types back what it displaced and nothing else, sends at
most once, and gives up in time without a trace. -/
theorem withDraftGuard_guarded {o : DraftGuardOptions} {target : String} (hpoll : 0 < o.poll) (hmax : 0 < o.maxWait)
    {cs : List (Reply ε τ)} {clock clock' : Int} {r : Except (GuardError ε) τ}
    (hrun : run (pane ε τ) (withDraftGuard o target) cs clock = some (r, clock')) :
    Guarded o (trace (pane ε τ) (withDraftGuard o target) cs clock) r :=
  (wp_logged_run (withDraftGuard_course hpoll hmax clock) (fun _ _ => trivial) hrun).guarded

/-! A claude box with a draft left alone, and what it shows when it is read again. -/

def aloneOptions : DraftGuardOptions where
  harness := some "claude"
  idleMs := some 1
  maxWaitMs := some 5
  pollMs := some 1

def aloneReplies (after : String) : List (Reply Unit Unit) :=
  let draft := Reply.screen (.ok (some (fenced ["❯ half a thought"])))
  [draft, .time, .time, .time, .time, draft, .time, .typed (.ok ()), .time, .typed (.ok ()), .time,
    .screen (.ok (some (fenced [after]))), .sent (.error ()), .time, .typed (.ok ())]

theorem withDraftGuard_guarded_alone :
    Guarded aloneOptions (trace (pane Unit Unit) (withDraftGuard aloneOptions "%1") (aloneReplies "❯") 0)
      (.error (.thrown ())) := by
  have hrun : run (pane Unit Unit) (withDraftGuard aloneOptions "%1") (aloneReplies "❯") 0 =
      some (.error (.thrown ()), 451) := rfl
  exact withDraftGuard_guarded (by decide) (by decide) hrun

/-! ## What the screen showed when the send started -/

/-- The last screen showed no draft, the caller's own text, or the text that the clear just made left in place. -/
def Sighted (o : DraftGuardOptions) (before : Log ε τ) : Prop :=
  ∃ state, shown o before = some state ∧ (textOf state = none ∨ o.isOwn state = true ∨
    typed before = [END_OF_LINE, KILL_LINE] ∧ screens (acting before) ≠ [] ∧
      textOf state = (shown o (waiting before)).bind textOf)

def SendsSighted (o : DraftGuardOptions) (l : Log ε τ) : Prop :=
  ∀ before sent after, l = before ++ (.send, sent) :: after → Sighted o before

/-- The screen read once the box was cleared shows no draft, the caller's own text, or the text that
was there before. -/
def ClearHeld (o : DraftGuardOptions) (l : Log ε τ) : Prop :=
  ∀ s ∈ screens (acting l), textOf (o.shows s) = none ∨ o.isOwn (o.shows s) = true ∨
    textOf (o.shows s) = (shown o (waiting l)).bind textOf

section
variable {o : DraftGuardOptions} {target : String} {w m : Log ε τ} {state : PromptState} {sent : Reply ε τ}

theorem before_unique {before m' after : Log ε τ} {sent' : Reply ε τ} (hm : m.countP sends = 0)
    (hm' : m'.countP sends = 0)
    (hl : m ++ (.send, sent) :: m' = before ++ (.send, sent') :: after) : before = m := by
  rcases List.append_eq_append_iff.mp hl with ⟨front, rfl, hrest⟩ | ⟨front, rfl, hrest⟩
  · cases front with
    | nil => rw [List.append_nil]
    | cons e front =>
      obtain ⟨-, hrest⟩ := List.cons.inj hrest
      rw [hrest, List.append_eq, List.countP_append, List.countP_cons_of_pos rfl] at hm'
      omega
  · cases front with
    | nil => rw [List.append_nil]
    | cons e front =>
      obtain ⟨rfl, -⟩ := List.cons.inj hrest
      rw [List.countP_append, List.countP_cons_of_pos rfl] at hm
      omega

theorem sendsSighted_one {m' : Log ε τ} (hm : m.countP sends = 0) (hm' : m'.countP sends = 0) :
    SendsSighted o (m ++ (.send, sent) :: m') ↔ Sighted o m := by
  constructor
  · intro h
    exact h m sent m' rfl
  · intro h before sent' after hl
    rw [before_unique hm hm' hl]
    exact h

theorem sendsSighted_none (hm : m.countP sends = 0) : SendsSighted o m := by
  rintro before sent' after rfl
  rw [List.countP_append, List.countP_cons_of_pos rfl] at hm
  omega

theorem sighted_reread {text : Row} {rows : Nat} {r : Except ε (Option String)} (hw : Waited o (.draft text rows) w) :
    Sighted o (w ++ (cleared ++ [(.read, .screen r)])) ↔
      textOf (o.shows r) = none ∨ o.isOwn (o.shows r) = true ∨ textOf (o.shows r) = some text := by
  have hshown : shown o (w ++ (cleared ++ [(.read, .screen r)])) = some (o.shows r) := by
    rw [← List.append_assoc, shown, screens_append]
    exact congrArg (Option.map o.shows) List.getLast?_concat
  rw [Sighted, hshown, waiting_cleared hw.quiet, acting_cleared hw.quiet, hw.shown, typed_append, typed_quiet hw.quiet]
  constructor
  · rintro ⟨state, hstate, hpass⟩
    obtain rfl := Option.some.inj hstate
    rcases hpass with hnone | hown | ⟨-, -, hsame⟩
    · exact .inl hnone
    · exact .inr (.inl hown)
    · exact .inr (.inr hsame)
  · intro hpass
    refine ⟨_, rfl, ?_⟩
    rcases hpass with hnone | hown | hsame
    · exact .inl hnone
    · exact .inr (.inl hown)
    · exact .inr (.inr ⟨rfl, nofun, hsame⟩)

theorem clearHeld_reread {text : Row} {rows : Nat} {r : Except ε (Option String)} (hw : Waited o (.draft text rows) w)
    (hm : screens m = []) : ClearHeld o (w ++ (cleared ++ ((.read, .screen r) :: m))) ↔
      textOf (o.shows r) = none ∨ o.isOwn (o.shows r) = true ∨ textOf (o.shows r) = some text := by
  have hone : screens (cleared ++ ((.read, .screen r) :: m)) = [r] := by
    rw [screens_append]
    exact congrArg (r :: ·) hm
  rw [ClearHeld, acting_cleared hw.quiet, waiting_cleared hw.quiet, hw.shown, hone]
  constructor
  · intro h
    exact h r (List.mem_singleton_self r)
  · intro h s hs
    rw [List.mem_singleton.mp hs]
    exact h

theorem clearHeld_of {e : PaneCall × Reply ε τ} (hw : ∀ e ∈ w, quiet e = true) (he : quiet e = false)
    (hm : screens (e :: m) = []) : ClearHeld o (w ++ e :: m) := by
  intro s hs
  rw [acting_append hw he, hm] at hs
  cases hs

theorem sends_cleared (hw : ∀ e ∈ w, quiet e = true) (hm : m.countP sends = 0) :
    (w ++ (cleared ++ m)).countP sends = 0 := by
  rw [List.countP_append, List.countP_append, sends_quiet hw, hm]
  rfl

theorem Course.sighted_iff {l : Log ε τ} {r : Except (GuardError ε) τ} (hc : Course o target l r) :
    SendsSighted o l ↔ ClearHeld o l := by
  have hquit : ∀ {state : PromptState} {w : Log ε τ}, Waited o state w → (SendsSighted o w ↔ ClearHeld o w) := by
    intro state w hw
    refine iff_of_true (sendsSighted_none (sends_quiet hw.quiet)) fun s hs => ?_
    rw [acting_quiet hw.quiet] at hs
    cases hs
  cases hc with
  | stillEditing hw => exact hquit hw
  | spansRows hw => exact hquit hw
  | @free _ state hw hstate sent =>
    refine iff_of_true ((sendsSighted_one (sends_quiet hw.quiet) rfl).mpr ?_) (clearHeld_of hw.quiet rfl rfl)
    exact ⟨state, hw.shown, .inl hstate⟩
  | @broken w text rows hw hsettled first e =>
    have hnone : (w ++ brokenOff first e : Log ε τ).countP sends = 0 := by
      rw [List.countP_append, sends_quiet hw.quiet]
      cases first <;> rfl
    refine iff_of_true (sendsSighted_none hnone) ?_
    cases first <;> exact clearHeld_of hw.quiet rfl rfl
  | @own w text rows hw hown sent =>
    rw [← List.append_assoc]
    have hnone : (w ++ cleared : Log ε τ).countP sends = 0 := sends_cleared (m := []) hw.quiet rfl
    refine iff_of_true ((sendsSighted_one hnone rfl).mpr ?_) ?_
    · exact ⟨_, (shown_append rfl).trans hw.shown, .inr (.inl hown)⟩
    · rw [List.append_assoc]
      exact clearHeld_of hw.quiet rfl rfl
  | @unremoved w text hw hsettled hforeign r hr sent =>
    refine Iff.trans ?_ (clearHeld_reread hw rfl).symm
    have hnone : (w ++ (cleared ++ [(.read, .screen r)]) : Log ε τ).countP sends = 0 := sends_cleared hw.quiet rfl
    have hone : SendsSighted o (w ++ (cleared ++ [(.read, .screen r)]) ++ [(.send, .sent sent)]) ↔ _ :=
      sendsSighted_one hnone rfl
    simp only [List.append_assoc, List.cons_append, List.nil_append] at hone
    exact hone.trans (sighted_reread hw)
  | @restored w text hw hsettled hforeign r hr sent back =>
    refine Iff.trans ?_ (clearHeld_reread hw rfl).symm
    have hnone : (w ++ (cleared ++ [(.read, .screen r)]) : Log ε τ).countP sends = 0 := sends_cleared hw.quiet rfl
    have hone : SendsSighted o (w ++ (cleared ++ [(.read, .screen r)]) ++ (.send, .sent sent) ::
        [(.sleep KEY_SETTLE_MS, .time), (.sendText (String.ofList text), .typed back)]) ↔ _ :=
          sendsSighted_one hnone rfl
    simp only [List.append_assoc, List.cons_append, List.nil_append] at hone
    exact hone.trans (sighted_reread hw)

end

/-- Every send is sighted exactly where the screen read after a clear passes. -/
theorem sends_sighted_iff {o : DraftGuardOptions} {target : String} (hpoll : 0 < o.poll) (hmax : 0 < o.maxWait)
    {cs : List (Reply ε τ)} {clock clock' : Int} {r : Except (GuardError ε) τ}
    (hrun : run (pane ε τ) (withDraftGuard o target) cs clock = some (r, clock')) :
    SendsSighted o (trace (pane ε τ) (withDraftGuard o target) cs clock) ↔
      ClearHeld o (trace (pane ε τ) (withDraftGuard o target) cs clock) :=
  (wp_logged_run (withDraftGuard_course hpoll hmax clock) (fun _ _ => trivial) hrun).sighted_iff

theorem sends_sighted_alone : SendsSighted aloneOptions
    (trace (pane Unit Unit) (withDraftGuard aloneOptions "%1") (aloneReplies "❯") 0) := by
  have hrun : run (pane Unit Unit) (withDraftGuard aloneOptions "%1") (aloneReplies "❯") 0 =
      some (.error (.thrown ()), 451) := rfl
  refine (sends_sighted_iff (by decide) (by decide) hrun).mpr fun s hs => ?_
  obtain rfl : s = .ok (some (fenced ["❯"])) := List.mem_singleton.mp hs
  exact .inl (by decide)

/-- The human begins another draft while the box is cleared, and `send` types onto it. -/
theorem sends_over_draft : ∃ (o : DraftGuardOptions) (target : String) (cs : List (Reply Unit Unit)) (clock : Int),
    0 < o.poll ∧ 0 < o.idle ∧ 0 < o.maxWait ∧
    (run (pane Unit Unit) (withDraftGuard o target) cs clock).isSome = true ∧
      ¬SendsSighted o (trace (pane Unit Unit) (withDraftGuard o target) cs clock) := by
  refine ⟨aloneOptions, "%1", aloneReplies "❯ no wait", 0, by decide, by decide, by decide, rfl, fun hsighted => ?_⟩
  have hsend : trace (pane Unit Unit) (withDraftGuard aloneOptions "%1") (aloneReplies "❯ no wait") 0 =
      (trace (pane Unit Unit) (withDraftGuard aloneOptions "%1") (aloneReplies "❯ no wait") 0).take 12 ++
        (.send, .sent (.error ())) :: [(.sleep KEY_SETTLE_MS, .time),
          (.sendText "half a thought", .typed (.ok ()))] := rfl
  obtain ⟨state, hshown, hpass⟩ := hsighted _ _ _ hsend
  obtain rfl : PromptState.draft "no wait".toList 1 = state := Option.some.inj hshown
  rcases hpass with hnone | hown | ⟨-, -, hsame⟩
  · cases hnone
  · cases hown
  · revert hsame
    decide

end

end

end Console

end Cyberlegion
