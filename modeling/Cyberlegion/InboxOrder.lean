import Cyberlegion.Inbox
import Cyberlegion.Lib.Decimal
import Mathlib.Data.String.Basic

/-!
# The order of an inbox

Message ids are compared as texts, by the collation of the host's locale. In the order of
code points that is the order of their sending where the clock's readings have as many
digits and no two messages are sent in one millisecond.
-/

namespace Cyberlegion.Inbox

open Effects FileStore Mail Consume Listing

/-! ## The ids -/

def idChar (c : Char) : Bool := c.isDigit || c = '-' || ('a' ≤ c && c ≤ 'f')

/-- `randomBytes(3).toString('hex')`. -/
def hexTail (s : String) : Prop := s.length = 6 ∧ ∀ c ∈ s.toList, c.isDigit = true ∨ 'a' ≤ c ∧ c ≤ 'f'

/-- `a.localeCompare(b) <= 0` in some locale: an order on texts that tells any two ids apart. -/
structure Collates (before : String → String → Bool) : Prop where
  total : ∀ a b, before a b = true ∨ before b a = true
  trans : ∀ a b c, before a b = true → before b c = true → before a c = true
  distinct : ∀ box (a b : Letter), hexTail a.hex → hexTail b.hex →
    before (a.message box).id (b.message box).id = true →
    before (b.message box).id (a.message box).id = true → (a.message box).id = (b.message box).id

/-- On the characters of ids, the order of their code points; not so in a locale that sorts `aa` or
`ff` as one letter. -/
def Lexical (before : String → String → Bool) : Prop :=
  ∀ a b : String, (∀ c ∈ a.toList, idChar c = true) → (∀ c ∈ b.toList, idChar c = true) →
    (before a b = true ↔ a ≤ b)

/-- A later send has a later id: its reading is not below the earlier one where both have digits,
and its tail is above that of a send in the same millisecond. -/
def InOrder (a b : Letter) : Prop := a.ts ≤ b.ts / 10 ^ Decimal.longer a.ts b.ts ∧ (a.ts = b.ts → a.hex < b.hex)

/-- The inbox lists what was sent in the order of sending, and a poll of `awaitReply` takes the first
unread message that its filters let through. -/
structure Ordered (before : String → String → Bool) (box : String) (sent : List Message) (fs : Fs) : Prop where
  lists : ∀ q cs r fs', q.meId = box → run fsCall (inbox before q) cs fs = some (r, fs') →
    r = .ok (inSendOrder q fs sent)
  awaits : ∀ (input : AwaitInput) start now clock cs r fs', input.meId = box →
    run fsCall (awaitLoop before input start (now :: clock)) cs fs = some (r, fs') →
      ∀ item,
        (inSendOrder { meId := box, unread := true, thread := some input.thread, «from» := input.from } fs sent).head? =
          some item → r = .ok (some (.matched item))

section
variable {box : String} {a b : Letter}

theorem message_id (l : Letter) : (l.message box).id.toList = Nat.toDigits 10 l.ts ++ '-' :: l.hex.toList := by
  show (Nat.repr l.ts ++ "-" ++ l.hex).toList = _
  rw [String.toList_append, String.toList_append, Nat.toList_repr, List.append_assoc]
  rfl

theorem message_id_lt (h : a.ts ≤ b.ts) : (a.message box).id < (b.message box).id ↔ InOrder a b := by
  have hminus : ∀ d : Char, d.isDigit = true → '-' < d := by
    intro d hd
    have hzero : '0' ≤ d := by
      rw [Char.isDigit, Bool.and_eq_true] at hd
      exact of_decide_eq_true hd.1
    exact lt_of_lt_of_le (by decide) hzero
  rw [String.lt_iff_toList_lt, message_id, message_id, Decimal.text_lt_iff hminus h, ← String.lt_iff_toList_lt]
  rfl

theorem idChar_message {l : Letter} (h : hexTail l.hex) : ∀ c ∈ (l.message box).id.toList, idChar c = true := by
  intro c hc
  rw [message_id, List.mem_append, List.mem_cons] at hc
  rcases hc with hc | rfl | hc
  · rw [idChar, Nat.isDigit_of_mem_toDigits (by decide) (by decide) hc]
    rfl
  · rfl
  · rcases h.2 c hc with hdigit | ⟨ha, hf⟩
    · rw [idChar, hdigit]
      rfl
    · rw [idChar, decide_eq_true ha, decide_eq_true hf]
      simp

/-! ## The listing, sorted -/

section
variable {before : String → String → Bool} {fs : Fs} {sent : List Message} (hbefore : Collates before)
include hbefore

theorem inbox_sorted (q : InboxQuery) (hb : safeId q.meId) (h : Holds q.meId sent fs) (hids : (sent.map (·.id)).Nodup) :
    ∃ items, Answers fsCall (fun _ _ => True) (inbox before q) fs (.ok items) ∧ items.Perm (inSendOrder q fs sent) ∧
      items.Pairwise fun a b => before a.message.id b.message.id = true := by
  obtain ⟨items, hitems, hperm⟩ := inbox_answers before (Φ := fun _ _ => True) q hb h hids fun _ => trivial
  refine ⟨_, hitems, (List.perm_insertionSort _ _).trans hperm, ?_⟩
  have : Std.Total fun a b : InboxItem => before a.message.id b.message.id = true := ⟨fun a b => hbefore.total _ _⟩
  have : IsTrans InboxItem fun a b => before a.message.id b.message.id = true := ⟨fun a b c => hbefore.trans _ _ _⟩
  exact List.pairwise_insertionSort _ _

variable (hb : safeId box) (h : Holds box sent fs) (hids : (sent.map (·.id)).Nodup)
  (hdistinct : ∀ m ∈ sent, ∀ m' ∈ sent, before m.id m'.id = true → before m'.id m.id = true → m.id = m'.id)
include hb h hids hdistinct

theorem inbox_in_order (hsorted : sent.Pairwise fun a b => before a.id b.id = true) (q : InboxQuery)
    (hq : q.meId = box) :
    Answers fsCall (fun _ _ => True) (inbox before q) fs (.ok (inSendOrder q fs sent)) := by
  subst hq
  obtain ⟨items, hitems, hperm, hpair⟩ := inbox_sorted hbefore q hb h hids
  have hmem : ∀ item ∈ inSendOrder q fs sent, ∃ m ∈ sent, item = itemOf q.meId fs m := by
    intro item hitem
    obtain ⟨m, hm, rfl⟩ := List.mem_map.mp (List.mem_filter.mp hitem).1
    exact ⟨m, hm, rfl⟩
  have hlist : (inSendOrder q fs sent).Pairwise fun a b => before a.message.id b.message.id = true :=
    List.Pairwise.filter _ (List.pairwise_map.mpr hsorted)
  have heq : items = inSendOrder q fs sent := by
    refine List.Perm.eq_of_pairwise (fun a b ha hb' hab hba => ?_) hpair hlist hperm
    obtain ⟨m, hm, rfl⟩ := hmem a (hperm.mem_iff.mp ha)
    obtain ⟨m', hm', rfl⟩ := hmem b hb'
    rw [List.inj_on_of_nodup_map hids hm hm' (hdistinct m hm m' hm' hab hba)]
  rw [← heq]
  exact hitems

theorem ordered_iff_ascending : Ordered before box sent fs ↔ sent.Pairwise fun a b => before a.id b.id = true := by
  constructor
  · intro hordered
    obtain ⟨items, hitems, hperm, hpair⟩ := inbox_sorted hbefore { meId := box } hb h hids
    have hall : wp fsCall (fun _ _ => True) (fun _ _ => True) (inbox before { meId := box })
        (fun r _ => r = .ok (inSendOrder { meId := box } fs sent)) fs :=
      wp_iff_run.mpr fun cs r fs' hrun => hordered.lists _ cs r fs' rfl hrun
    have heq : items = inSendOrder { meId := box } fs sent := Except.ok.inj ((hitems _).mp hall)
    have hwhole : inSendOrder { meId := box } fs sent = sent.map (itemOf box fs) :=
      List.filter_eq_self.mpr fun _ _ => rfl
    rw [heq, hwhole, List.pairwise_map] at hpair
    exact hpair
  · intro hsorted
    refine ⟨fun q cs r fs' hq hrun => ?_, fun input start now clock cs r fs' hbox hrun item hhead => ?_⟩
    · have hlist := inbox_in_order hbefore hb h hids hdistinct hsorted q hq
      exact wp_run ((hlist fun r _ => r = _).mpr rfl) (fun _ _ => trivial) hrun
    · have hlist := inbox_in_order hbefore hb h hids hdistinct hsorted
        { meId := box, unread := true, thread := some input.thread, «from» := input.from } rfl
      have hpoll : wp fsCall (fun _ _ => True) (fun _ _ => True) (awaitLoop before input start (now :: clock))
          (fun r _ => r = .ok (some (.matched item))) fs := by
        rw [awaitLoop, hbox]
        refine hlist.bind_of ?_
        obtain ⟨rest, hrest⟩ := List.head?_eq_some_iff.mp hhead
        rw [hrest]
        have hitem : item ∈
            inSendOrder { meId := box, unread := true, thread := some input.thread, «from» := input.from } fs sent :=
          List.mem_of_head? hhead
        obtain ⟨hmem, hlets⟩ := List.mem_filter.mp hitem
        obtain ⟨m, hm, rfl⟩ := List.mem_map.mp hmem
        have hunread : (slot box fs m.id).1.isNone = false := by
          rw [letsThrough, Bool.and_eq_true] at hlets
          simpa [itemOf] using hlets.1
        obtain ⟨m', -, heq, hslot, -⟩ := h.kept.unread (h.unread.mpr ⟨hm, hunread⟩)
        cases heq
        refine wp_seq (ack_answers h.kept hslot) (fun m' fs' hok => ?_) fun e fs' herr => ?_
        · rfl
        · cases herr
      exact wp_run hpoll (fun _ _ => trivial) hrun

end

/-- An inbox is in the order of sending where the ids ascend in the host's collation, and by code
points where the readings and the tails do. -/
theorem inbox_ordered_iff (before : String → String → Bool) (hbefore : Collates before) (box : String)
    (hbox : safeId box)
    (letters : List Letter) (hhex : ∀ l ∈ letters, hexTail l.hex) (hclock : letters.Pairwise fun a b => a.ts ≤ b.ts)
    (hids : (letters.map fun l => (l.message box).id).Nodup) (fs₀ fs : Fs) (hkept : Listing.Kept box fs₀)
    (hempty : ∀ x, slot box fs₀ x = (none, none)) (hposted : Posted box fs₀ (letters.map (·.message box)) fs) :
    (Ordered before box (letters.map (·.message box)) fs ↔
      letters.Pairwise fun a b => before (a.message box).id (b.message box).id = true) ∧
    (Lexical before → (Ordered before box (letters.map (·.message box)) fs ↔ letters.Pairwise InOrder)) := by
  have hids' : ((letters.map (·.message box)).map (·.id)).Nodup := by
    rw [List.map_map]
    exact hids
  have hdistinct : ∀ m ∈ letters.map (·.message box), ∀ m' ∈ letters.map (·.message box),
      before m.id m'.id = true → before m'.id m.id = true → m.id = m'.id := by
    intro m hm m' hm'
    obtain ⟨l, hl, rfl⟩ := List.mem_map.mp hm
    obtain ⟨l', hl', rfl⟩ := List.mem_map.mp hm'
    exact hbefore.distinct box l l' (hhex l hl) (hhex l' hl')
  have hordered : Ordered before box (letters.map (·.message box)) fs ↔
      letters.Pairwise fun a b => before (a.message box).id (b.message box).id = true := by
    rw [ordered_iff_ascending hbefore hbox (holds_of_posted hkept hempty hposted hids') hids' hdistinct,
      List.pairwise_map]
  refine ⟨hordered, fun hlexical => hordered.trans ?_⟩
  have hpair : ∀ {a b}, a ∈ letters → b ∈ letters → (a.message box).id ≠ (b.message box).id → a.ts ≤ b.ts →
      (before (a.message box).id (b.message box).id = true ↔ InOrder a b) := by
    intro a b ha hb hne hle
    rw [hlexical _ _ (idChar_message (hhex a ha)) (idChar_message (hhex b hb)), ← message_id_lt hle]
    exact ⟨fun h => lt_of_le_of_ne h hne, le_of_lt⟩
  have hboth := (List.pairwise_map.mp hids).and hclock
  constructor
  · intro h
    exact (h.and hboth).imp_of_mem fun ha hb hab => (hpair ha hb hab.2.1 hab.2.2).mp hab.1
  · intro h
    exact (h.and hboth).imp_of_mem fun ha hb hab => (hpair ha hb hab.2.1 hab.2.2).mpr hab.1

end

def codePoints (a b : String) : Bool := decide (a ≤ b)

theorem collates_codePoints : Collates codePoints where
  total a b := by
    rw [codePoints, codePoints, decide_eq_true_iff, decide_eq_true_iff]
    exact le_total a b
  trans a b c hab hbc := decide_eq_true ((of_decide_eq_true hab).trans (of_decide_eq_true hbc))
  distinct box a b _ _ hab hba := le_antisymm (of_decide_eq_true hab) (of_decide_eq_true hba)

theorem lexical_codePoints : Lexical codePoints := fun _ _ _ _ => decide_eq_true_iff

def noLetters : Fs := ⟨∅, []⟩

theorem kept_noLetters : Listing.Kept "b" noLetters :=
  ⟨⟨fun _ => .gone, fun _ h => absurd rfl h, fun _ h => absurd rfl h, rfl, rfl⟩, fun _ h => absurd h List.not_mem_nil⟩

def letterAt (ts : Nat) (hex : String) : Letter := { input := { fromId := "a", «to» := "b", body := "hello" }, ts, hex }

theorem hexTail_of_all {s : String} (hlength : s.length = 6)
    (h : s.toList.all (fun c => c.isDigit || decide ('a' ≤ c) && decide (c ≤ 'f')) = true) : hexTail s := by
  refine ⟨hlength, fun c hc => ?_⟩
  have hall := List.all_eq_true.mp h c hc
  simpa only [Bool.or_eq_true, Bool.and_eq_true, decide_eq_true_eq] using hall

theorem inbox_ordered_pair : ∃ fs,
    Posted "b" noLetters ([letterAt 1000 "ffffff", letterAt 1001 "000000"].map (·.message "b")) fs ∧
    Ordered codePoints "b" ([letterAt 1000 "ffffff", letterAt 1001 "000000"].map (·.message "b")) fs := by
  have hposted : ∃ fs, Posted "b" noLetters ([letterAt 1000 "ffffff", letterAt 1001 "000000"].map (·.message "b")) fs :=
    ⟨_, (Posted.start.send 1 0 ((letterAt 1000 "ffffff").message "b") rfl).send 1 1 _ rfl⟩
  obtain ⟨fs, hposted⟩ := hposted
  refine ⟨fs, hposted, ((inbox_ordered_iff codePoints collates_codePoints "b" (by decide) _ ?_ ?_ ?_ noLetters fs
    kept_noLetters (fun _ => rfl) hposted).2 lexical_codePoints).mpr ?_⟩
  · intro l hl
    simp only [List.mem_cons, List.not_mem_nil, or_false] at hl
    rcases hl with rfl | rfl <;> exact hexTail_of_all (by decide) (by decide)
  · simp [letterAt]
  · decide +kernel
  · simp only [List.pairwise_cons, List.mem_singleton, forall_eq, List.not_mem_nil, false_imp_iff, implies_true,
      List.Pairwise.nil, and_true]
    exact ⟨by decide, by decide⟩

/-- Two sends in one millisecond. -/
theorem inbox_disordered : ∃ fs,
    Posted "b" noLetters ([letterAt 1000 "ffffff", letterAt 1000 "000000"].map (·.message "b")) fs ∧
    ¬Ordered codePoints "b" ([letterAt 1000 "ffffff", letterAt 1000 "000000"].map (·.message "b")) fs := by
  have hposted : ∃ fs, Posted "b" noLetters ([letterAt 1000 "ffffff", letterAt 1000 "000000"].map (·.message "b")) fs :=
    ⟨_, (Posted.start.send 1 0 ((letterAt 1000 "ffffff").message "b") rfl).send 1 1 _ rfl⟩
  obtain ⟨fs, hposted⟩ := hposted
  refine ⟨fs, hposted, fun hordered => ?_⟩
  have hids : ((([letterAt 1000 "ffffff", letterAt 1000 "000000"].map
      (·.message "b")) : List Message).map (·.id)).Nodup := by
    decide +kernel
  have hascending := (ordered_iff_ascending collates_codePoints (by decide)
    (holds_of_posted kept_noLetters (fun _ => rfl) hposted hids) hids
      fun _ _ _ _ hab hba => le_antisymm (of_decide_eq_true hab) (of_decide_eq_true hba)).mp hordered
  have hle : ((letterAt 1000 "ffffff").message "b").id ≤ ((letterAt 1000 "000000").message "b").id := by
    rw [List.map_cons, List.pairwise_cons] at hascending
    exact of_decide_eq_true (hascending.1 _ (List.mem_singleton_self _))
  exact absurd hle (by decide +kernel)

end Cyberlegion.Inbox
