import Cyberlegion.Lib.Text
import Cyberlegion.Install

/-!
# The commands init has written

Which commands `hookTarget` takes for init's own: those that are of a generation's form as
a whole.
-/

namespace Cyberlegion.Init

inductive Generation
  | bare
  | npx (yes : Bool) (pin : Option String)
  | pathFirst (pin : Option String)

def pinText (pin : Option String) : String := (pin.map ("@" ++ ·)).getD ""

def Generation.pin : Generation → Option String
  | .bare => none
  | .npx _ pin => pin
  | .pathFirst pin => pin

def Generation.command (event : String) : Generation → String
  | .bare => "cyberlegion mail hook --event " ++ event
  | .npx yes pin => "npx " ++ (if yes then "-y " else "") ++ "cyberlegion" ++ pinText pin ++
      " mail hook --event " ++ event
  | .pathFirst pin => "if command -v cyberlegion >/dev/null 2>&1; then cyberlegion mail hook --event " ++ event ++
      "; else npx -y cyberlegion" ++ pinText pin ++ " mail hook --event " ++ event ++ "; fi"

/-- A command that init has written: every pin it takes is a version or a dist tag. -/
def Written (event command : String) : Prop :=
  ∃ g : Generation, (∀ pin ∈ g.pin, PIN_TOKEN pin = true) ∧ command = g.command event

def Unbroken (s : String) : Prop := s ≠ "" ∧ ∀ c ∈ s.toList, jsSpace c = false

/-- A command that reads as a generation of the hook, whatever stands for its pin. -/
def Shaped (event command : String) : Prop :=
  ∃ g : Generation, (∀ pin ∈ g.pin, Unbroken pin) ∧ command = g.command event

def Word (event : String) : Prop := event ≠ "" ∧ event.toList.all wordChar = true

instance (event : String) : Decidable (Word event) := inferInstanceAs (Decidable (_ ∧ _))

section
variable {p s event command : String} {l r : List Char} {g : Generation} {pin : Option String}

theorem stripStart_eq_some : stripStart p l = some r ↔ l = p.toList ++ r := by
  rw [stripStart]
  by_cases h : p.toList.isPrefixOf l = true
  · obtain ⟨t, rfl⟩ := List.isPrefixOf_iff_prefix.mp h
    rw [if_pos h, ← String.length_toList, List.drop_left, Option.some_inj, List.append_cancel_left_eq]
  · rw [if_neg h]
    constructor
    · intro hnone
      cases hnone
    · rintro rfl
      exact absurd (List.isPrefixOf_iff_prefix.mpr (List.prefix_append _ _)) h

theorem pinText_some : (pinText (some p)).toList = '@' :: p.toList := String.toList_append

theorem stripPin_eq_some : stripPin l = some (' ' :: r) ↔
    ∃ pin : Option String, (∀ p ∈ pin, Unbroken p) ∧ l = (pinText pin).toList ++ ' ' :: r := by
  constructor
  · intro h
    cases l with
    | nil => cases h
    | cons c l =>
      by_cases hc : c = '@'
      · subst hc
        rw [stripPin] at h
        by_cases hnil : (l.takeWhile fun c => !jsSpace c) = []
        · rw [if_pos hnil] at h
          cases h
        · rw [if_neg hnil, Option.some_inj] at h
          refine ⟨some (String.ofList (l.takeWhile fun c => !jsSpace c)), ?_, ?_⟩
          · intro p hp
            obtain rfl := Option.some_inj.mp hp
            refine ⟨fun hempty => hnil (by rw [← String.toList_ofList (l := l.takeWhile _), hempty]; rfl), ?_⟩
            intro c hc
            rw [String.toList_ofList] at hc
            simpa using List.mem_takeWhile_imp hc
          · rw [pinText_some, String.toList_ofList, ← h, List.cons_append, List.takeWhile_append_dropWhile]
      · refine ⟨none, ⟨fun p hp => (by cases hp), ?_⟩⟩
        rw [stripPin] at h
        · exact Option.some_inj.mp h
        · intro l' heq
          exact hc (List.cons.inj heq).1
  · rintro ⟨pin, hpin, rfl⟩
    cases pin with
    | none => rfl
    | some p =>
      have hall : ∀ c ∈ p.toList, (!jsSpace c) = true := by
        intro c hc
        rw [(hpin p rfl).2 c hc]
        rfl
      have htake : ((p.toList ++ ' ' :: r).takeWhile fun c => !jsSpace c) = p.toList := by
        rw [List.takeWhile_append_of_pos hall]
        exact List.append_nil _
      have hdrop : ((p.toList ++ ' ' :: r).dropWhile fun c => !jsSpace c) = ' ' :: r := by
        rw [List.dropWhile_append_of_pos hall]
        rfl
      rw [pinText_some, List.cons_append, stripPin, htake, hdrop, if_neg]
      intro hnil
      exact (hpin p rfl).1 (String.toList_inj.mp (hnil.trans rfl))

theorem stripCall_eq_some : stripCall l = some (' ' :: r) ↔ l = "cyberlegion".toList ++ ' ' :: r ∨
    ∃ (yes : Bool) (pin : Option String), (∀ p ∈ pin, Unbroken p) ∧
      l = "npx ".toList ++
      ((if yes then "-y " else "").toList ++
        ("cyberlegion".toList ++ ((pinText pin).toList ++ ' ' :: r))) := by
  have hpinned : ∀ l : List Char, (stripStart "cyberlegion" l).bind stripPin = some (' ' :: r) ↔
      ∃ pin : Option String, (∀ p ∈ pin, Unbroken p) ∧ l = "cyberlegion".toList ++
        ((pinText pin).toList ++ ' ' :: r) := by
    intro l
    rw [Option.bind_eq_some_iff]
    constructor
    · intro ⟨rest, hrest, hpin⟩
      obtain ⟨pin, hall, rfl⟩ := stripPin_eq_some.mp hpin
      exact ⟨pin, hall, stripStart_eq_some.mp hrest⟩
    · intro ⟨pin, hall, hl⟩
      exact ⟨_, stripStart_eq_some.mpr hl, stripPin_eq_some.mpr ⟨pin, hall, rfl⟩⟩
  rw [stripCall]
  cases hnpx : stripStart "npx " l with
  | none =>
    show stripStart "cyberlegion" l = _ ↔ _
    rw [stripStart_eq_some]
    constructor
    · exact .inl
    · rintro (hl | ⟨yes, pin, -, hl⟩)
      · exact hl
      · rw [stripStart_eq_some.mpr hl] at hnpx
        cases hnpx
  | some rest =>
    obtain rfl := stripStart_eq_some.mp hnpx
    show (stripStart "cyberlegion" _).bind stripPin = _ ↔ _
    rw [hpinned]
    cases hyes : stripStart "-y " rest with
    | none =>
      constructor
      · intro ⟨pin, hall, hrest⟩
        exact .inr ⟨false, pin, hall, congrArg _ hrest⟩
      · rintro (hl | ⟨yes, pin, hall, hl⟩)
        · cases (List.cons.inj hl).1
        · have hrest := List.append_cancel_left hl
          cases yes with
          | false => exact ⟨pin, hall, hrest⟩
          | true =>
            have hsome : stripStart "-y " rest = some _ := stripStart_eq_some.mpr hrest
            rw [hsome] at hyes
            cases hyes
    | some rest' =>
      obtain rfl := stripStart_eq_some.mp hyes
      constructor
      · intro ⟨pin, hall, hrest⟩
        exact .inr ⟨true, pin, hall, congrArg (fun t => "npx ".toList ++ ("-y ".toList ++ t)) hrest⟩
      · rintro (hl | ⟨yes, pin, hall, hl⟩)
        · cases (List.cons.inj hl).1
        · have hrest := List.append_cancel_left hl
          cases yes with
          | false => cases (List.cons.inj hrest).1
          | true => exact ⟨pin, hall, List.append_cancel_left hrest⟩

theorem hook_toList : " mail hook --event ".toList = ' ' :: "mail hook --event ".toList := by decide

theorem bare_toList : (Generation.bare.command event).toList =
    "cyberlegion".toList ++ ' ' :: ("mail hook --event ".toList ++ event.toList) := by
  have hcall : "cyberlegion mail hook --event ".toList = "cyberlegion".toList ++
      ' ' :: "mail hook --event ".toList := by decide
  unfold Generation.command
  rw [String.toList_append, hcall, List.append_assoc, List.cons_append]

theorem npx_toList {yes : Bool} : ((Generation.npx yes pin).command event).toList =
    "npx ".toList ++ ((if yes then "-y " else "").toList ++ ("cyberlegion".toList ++ ((pinText pin).toList ++
      ' ' :: ("mail hook --event ".toList ++ event.toList)))) := by
  unfold Generation.command
  simp only [String.toList_append, List.append_assoc, hook_toList, List.cons_append]

def pathHead : String := "if command -v cyberlegion >/dev/null 2>&1; then cyberlegion mail hook --event "

theorem pathFirst_toList : ((Generation.pathFirst pin).command event).toList =
    pathHead.toList ++ (event.toList ++ ("; else npx -y cyberlegion".toList ++ ((pinText pin).toList ++
      ' ' :: ("mail hook --event ".toList ++ (event.toList ++ "; fi".toList))))) := by
  unfold Generation.command
  simp only [String.toList_append, List.append_assoc, hook_toList, List.cons_append]
  rfl

theorem firstGeneration_eq_some : firstGeneration command = some event ↔ Word event ∧
    (command = Generation.bare.command event ∨ ∃ (yes : Bool) (pin : Option String), (∀ p ∈ pin, Unbroken p) ∧
      command = (Generation.npx yes pin).command event) := by
  have hcall : ∀ r : List Char,
      (∃ l, stripCall command.toList = some l ∧ stripStart " mail hook --event " l = some r) ↔
      stripCall command.toList = some (' ' :: ("mail hook --event ".toList ++ r)) := by
    intro r
    constructor
    · intro ⟨l, hl, hr⟩
      rw [stripStart_eq_some.mp hr, hook_toList] at hl
      exact hl
    · intro hl
      exact ⟨_, hl, stripStart_eq_some.mpr (by rw [hook_toList, List.cons_append])⟩
  have htexts : stripCall command.toList = some (' ' :: ("mail hook --event ".toList ++ event.toList)) ↔
      command = Generation.bare.command event ∨ ∃ (yes : Bool) (pin : Option String), (∀ p ∈ pin, Unbroken p) ∧
        command = (Generation.npx yes pin).command event := by
    rw [stripCall_eq_some]
    refine or_congr ?_ (exists_congr fun yes => exists_congr fun pin => and_congr_right fun _ => ?_)
    · rw [← String.toList_inj, bare_toList]
    · rw [← String.toList_inj, npx_toList]
  rw [← htexts, firstGeneration]
  simp only [Option.bind_eq_bind, Option.bind_eq_some_iff, Option.ite_none_right_eq_some]
  constructor
  · rintro ⟨l, hl, r, hr, ⟨hne, hword⟩, hevent⟩
    obtain rfl := Option.some_inj.mp hevent
    rw [Word, String.toList_ofList]
    refine ⟨⟨fun hnil => hne ?_, hword⟩, (hcall r).mp ⟨l, hl, hr⟩⟩
    rw [← String.toList_ofList (l := r), hnil]
    rfl
  · intro ⟨⟨hne, hword⟩, hl⟩
    obtain ⟨l, hl, hr⟩ := (hcall _).mpr hl
    exact ⟨l, hl, _, hr, ⟨fun hnil => hne (String.toList_inj.mp hnil), hword⟩, by rw [String.ofList_toList]⟩

theorem takeWhile_word (h : event.toList.all wordChar = true) :
    (event.toList ++ ';' :: r).takeWhile wordChar = event.toList ∧
    (event.toList ++ ';' :: r).dropWhile wordChar = ';' :: r := by
  have hall : ∀ c ∈ event.toList, wordChar c = true := List.all_eq_true.mp h
  constructor
  · rw [List.takeWhile_append_of_pos hall]
    exact List.append_nil _
  · rw [List.dropWhile_append_of_pos hall]
    rfl

theorem secondGeneration_eq_some : secondGeneration command = some event ↔ Word event ∧
    ∃ pin : Option String, (∀ p ∈ pin, Unbroken p) ∧ command = (Generation.pathFirst pin).command event := by
  have helse : "; else npx -y cyberlegion".toList = ';' :: " else npx -y cyberlegion".toList := by decide
  rw [secondGeneration]
  simp only [Option.bind_eq_bind, Option.bind_eq_some_iff, Option.ite_none_right_eq_some,
    ← String.toList_inj, pathFirst_toList]
  constructor
  · rintro ⟨l, hl, l₁, hl₁, l₂, hl₂, l₃, hl₃, l₄, hl₄, ⟨hne, rfl⟩, hevent⟩
    have hword : event.toList = l.takeWhile wordChar := by
      rw [← Option.some_inj.mp hevent, String.toList_ofList]
    have hpin := stripStart_eq_some.mp hl₃
    rw [hook_toList, List.cons_append] at hpin
    subst hpin
    obtain ⟨pin, hall, rfl⟩ := stripPin_eq_some.mp hl₂
    refine ⟨⟨?_, ?_⟩, pin, hall, ?_⟩
    · rw [← Option.some_inj.mp hevent]
      exact hne
    · rw [hword, List.all_takeWhile]
    · have hhead : command.toList = pathHead.toList ++ l := stripStart_eq_some.mp hl
      have htail : l = event.toList ++ l.dropWhile wordChar := by rw [hword, List.takeWhile_append_dropWhile]
      rw [hhead, htail, stripStart_eq_some.mp hl₁, stripStart_eq_some.mp hl₄, ← hword, String.ofList_toList]
  · rintro ⟨⟨hne, hword⟩, pin, hall, hcommand⟩
    refine ⟨_, stripStart_eq_some.mpr hcommand, ?_⟩
    rw [helse]
    obtain ⟨htake, hdrop⟩ := takeWhile_word (r := " else npx -y cyberlegion".toList ++ ((pinText pin).toList ++
      ' ' :: ("mail hook --event ".toList ++ (event.toList ++ "; fi".toList)))) hword
    rw [List.cons_append, htake, hdrop, String.ofList_toList]
    refine ⟨_, stripStart_eq_some.mpr (by rw [helse, List.cons_append]), _, stripPin_eq_some.mpr ⟨pin, hall, rfl⟩, _,
      stripStart_eq_some.mpr (by rw [hook_toList, List.cons_append]), _, stripStart_eq_some.mpr rfl, ⟨hne, rfl⟩, rfl⟩

/-- A command is taken for init's own where it is, as a whole, of a generation's form. -/
theorem hookTarget_eq_some : hookTarget command = some event ↔ Word event ∧ Shaped event command := by
  have hpath : ∀ {pin e}, firstGeneration ((Generation.pathFirst pin).command e) = none := by
    intro pin e
    have hstart : ∃ l, ((Generation.pathFirst pin).command e).toList = 'i' :: l := by
      rw [pathFirst_toList]
      exact ⟨_, rfl⟩
    obtain ⟨l, hl⟩ := hstart
    rw [firstGeneration, hl]
    rfl
  rw [hookTarget]
  cases hfirst : firstGeneration command with
  | some e =>
    show some e = some event ↔ _
    rw [← hfirst, firstGeneration_eq_some]
    refine and_congr_right fun _ => ?_
    constructor
    · rintro (rfl | ⟨yes, pin, hall, rfl⟩)
      · exact ⟨.bare, fun p hp => (by cases hp), rfl⟩
      · exact ⟨.npx yes pin, hall, rfl⟩
    · rintro ⟨g, hall, rfl⟩
      cases g with
      | bare => exact .inl rfl
      | npx yes pin => exact .inr ⟨yes, pin, hall, rfl⟩
      | pathFirst pin =>
        rw [hpath] at hfirst
        cases hfirst
  | none =>
    show secondGeneration command = some event ↔ _
    rw [secondGeneration_eq_some]
    refine and_congr_right fun hword => ?_
    constructor
    · intro ⟨pin, hall, hcommand⟩
      exact ⟨.pathFirst pin, hall, hcommand⟩
    · rintro ⟨g, hall, hcommand⟩
      cases g with
      | bare =>
        rw [firstGeneration_eq_some.mpr ⟨hword, .inl hcommand⟩] at hfirst
        cases hfirst
      | npx yes pin =>
        rw [firstGeneration_eq_some.mpr ⟨hword, .inr ⟨yes, pin, hall, hcommand⟩⟩] at hfirst
        cases hfirst
      | pathFirst pin => exact ⟨pin, hall, hcommand⟩

theorem unbroken_of_token (h : PIN_TOKEN s = true) : Unbroken s := by
  have hplain : ∀ c : Char, c.isAlphanum = true ∨ c ∈ ['.', '_', '+', '-'] → jsSpace c = false := by
    intro c hc
    rcases hc with hc | hc
    · have hrange : 0x30 ≤ c.toNat ∧ c.toNat ≤ 0x7A := by
        have hranges : c.isAlphanum = (decide (c.val ≥ 'A'.val ∧ c.val ≤ 'Z'.val) ||
          (decide (c.val ≥ 'a'.val) && decide (c.val ≤ 'z'.val)) ||
          (decide (c.val ≥ '0'.val) && decide (c.val ≤ '9'.val))) := rfl
        rw [hranges] at hc
        simp only [Bool.or_eq_true, Bool.and_eq_true, decide_eq_true_eq, ge_iff_le, UInt32.le_iff_toNat_le] at hc
        have hbounds : 'A'.val.toNat = 0x41 ∧ 'Z'.val.toNat = 0x5A ∧ 'a'.val.toNat = 0x61 ∧ 'z'.val.toNat = 0x7A ∧
          '0'.val.toNat = 0x30 ∧ '9'.val.toNat = 0x39 := by decide
        show 0x30 ≤ c.val.toNat ∧ c.val.toNat ≤ 0x7A
        omega
      apply decide_eq_false
      intro hspace
      simp only [List.mem_cons, List.not_mem_nil, or_false] at hspace
      omega
    · have hall : ['.', '_', '+', '-'].all (fun c => !jsSpace c) = true := by decide
      simpa using List.all_eq_true.mp hall c hc
  rw [PIN_TOKEN] at h
  cases hs : s.toList with
  | nil => rw [hs] at h; cases h
  | cons c l =>
    rw [hs] at h
    simp only [Bool.and_eq_true, List.all_eq_true, Bool.or_eq_true, decide_eq_true_eq] at h
    refine ⟨fun hnil => (by rw [hnil] at hs; cases hs), ?_⟩
    intro d hd
    rw [hs] at hd
    rcases List.mem_cons.mp hd with rfl | hd
    · exact hplain _ (.inl h.1)
    · exact hplain _ (h.2 d hd)

theorem shaped_of_written (h : Written event command) : Shaped event command := by
  obtain ⟨g, hall, hcommand⟩ := h
  exact ⟨g, fun pin hpin => unbroken_of_token (hall pin hpin), hcommand⟩

theorem written_hookCommand (hpin : ∀ p ∈ pin, PIN_TOKEN p = true) : Written event (hookCommand event pin) := by
  cases pin with
  | none => exact ⟨.pathFirst none, hpin, rfl⟩
  | some p =>
    have hne : p ≠ "" := (unbroken_of_token (hpin p rfl)).1
    refine ⟨.pathFirst (some p), hpin, ?_⟩
    have hpinned : pinned (some p) = "@" ++ p := if_neg hne
    unfold hookCommand
    rw [hpinned]
    rfl

end

end Cyberlegion.Init
