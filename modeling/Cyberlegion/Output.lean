import Mathlib.Data.List.Infix
import Mathlib.Data.Nat.Digits.Defs
import Cyberlegion.Lib.Text
import Cyberlegion.FileStore

/-!
# Printed output

`output.ts`: the texts that the commands print, and what can be read back from them.
-/

namespace Cyberlegion.Output

open Text

/-! ## The encoders -/

/-- A value that a field holds, as `String` spells it; `none` is null or undefined. -/
abbrev Cell := Option String

def quotes (c : Char) : Bool := c = ',' || c = '\n' || c = '"'

def stringifyCell : Cell → String
  | none => ""
  | some s =>
    if s.toList.any quotes then
      String.ofList ('"' :: s.toList.flatMap (fun c => if c = '"' then ['"', '"'] else [c]) ++ ['"'])
    else s

def given (fields : List (String × Cell)) : List (String × String) :=
  fields.filterMap fun field => field.2.map (field.1, ·)

def toonObject (fields : List (String × Cell)) : String :=
  "\n".intercalate ((given fields).map fun field => field.1 ++ ": " ++ field.2)

structure Column (T : Type) where
  key : String
  get : T → Cell

def toonList {T : Type} (name : String) (items : List T) (fields : List (Column T)) (summary : String) : String :=
  let header := name ++ "[" ++ toString items.length ++ "]\x7b" ++ ",".intercalate (fields.map (·.key)) ++ "\x7d:"
  let rows := items.map fun item => ",".intercalate (fields.map fun f => stringifyCell (f.get item))
  "\n".intercalate (header :: rows.map ("  " ++ ·) ++ [summary])

/-! ## The commands that print a message -/

inductive Command
  | read
  | readAck (acked : Bool)
  | await
  | watch

/-- What one of the commands prints. The sender chooses the handle, the subject and the body; the id is
minted as a time and hexadecimal digits. -/
structure Printed where
  command : Command
  msg : Message
  minted : '\n' ∉ msg.id.toList

def messageFields (msg : Message) : List (String × Cell) :=
  [("id", msg.id), ("from", msg.fromHandle), ("subject", msg.subject), ("body", msg.body)]

def Printed.fields (p : Printed) : List (String × Cell) :=
  match p.command with
  | .readAck acked => messageFields p.msg ++ [("acked", some (toString acked))]
  | .read | .await | .watch => messageFields p.msg

def Printed.toon (p : Printed) : String := toonObject p.fields

/-- The printed text is that of no other field map. -/
def Printed.Determined (p : Printed) : Prop := ∀ q : Printed, q.toon = p.toon → given q.fields = given p.fields

def Command.acked : Command → Option Bool
  | .readAck acked => some acked
  | .read | .await | .watch => none

def subjectMark : String := "\nsubject: "

def bodyMark : String := "\nbody: "

def ackedMark (acked : Bool) : String := "\nacked: " ++ toString acked

/-- No part of the printed text reads as another field. -/
structure Printed.Unforged (p : Printed) : Prop where
  acked : p.command.acked = none
  subject : p.msg.subject = none
  from_subject : ¬subjectMark.toList <:+: p.msg.fromHandle.toList
  from_body : ¬bodyMark.toList <:+: p.msg.fromHandle.toList
  body_body : ¬bodyMark.toList <:+: p.msg.body.toList
  body_acked : ∀ acked, ¬(ackedMark acked).toList <:+ p.msg.body.toList

section
variable {p q : Printed}

/-- What stands between the sender's handle and the mark of the body. -/
def Printed.titled (p : Printed) : List Char := (p.msg.subject.map (subjectMark ++ ·)).elim [] String.toList

/-- What stands behind the body. -/
def Printed.closing (p : Printed) : List Char := (p.command.acked.map ackedMark).elim [] String.toList

@[simp] theorem closing_of_none (h : p.command.acked = none) : p.closing = [] := by rw [Printed.closing, h]; rfl

@[simp] theorem closing_of_some {acked : Bool} (h : p.command.acked = some acked) :
    p.closing = (ackedMark acked).toList := by
  rw [Printed.closing, h]
  rfl

def Printed.rest (p : Printed) : List Char :=
  p.msg.fromHandle.toList ++ p.titled ++ (bodyMark.toList ++ (p.msg.body.toList ++ p.closing))

theorem toon_toList (p : Printed) :
    p.toon.toList = "id: ".toList ++ (p.msg.id.toList ++ '\n' :: ("from: ".toList ++ p.rest)) := by
  obtain ⟨command, msg, minted⟩ := p
  rw [Printed.toon, toonObject, String.toList_intercalate]
  cases hsubject : msg.subject <;> cases command <;>
    simp [Printed.fields, messageFields, given, hsubject, Printed.rest, Printed.titled, Printed.closing, Command.acked,
      subjectMark, bodyMark, ackedMark, List.intercalate]

theorem toon_eq_iff : q.toon = p.toon ↔ q.msg.id = p.msg.id ∧ q.rest = p.rest := by
  rw [← String.toList_inj, toon_toList, toon_toList]
  constructor
  · intro h
    obtain ⟨hid, hrest⟩ := cut_unique q.minted p.minted (List.append_cancel_left h)
    exact ⟨String.toList_inj.mp hid, List.append_cancel_left hrest⟩
  · intro ⟨hid, hrest⟩
    rw [hid, hrest]

theorem fields_eq (p : Printed) :
    p.fields = messageFields p.msg ++ (p.command.acked.map fun acked => ("acked", some (toString acked))).toList := by
  obtain ⟨command, msg, minted⟩ := p
  cases command <;> simp [Printed.fields, Command.acked]

theorem given_fields_iff : given q.fields = given p.fields ↔ q.msg.id = p.msg.id ∧ q.msg.fromHandle = p.msg.fromHandle ∧
    q.msg.subject = p.msg.subject ∧ q.msg.body = p.msg.body ∧ q.command.acked = p.command.acked := by
  have hbool : ∀ a b : Bool, toString a = toString b ↔ a = b := by decide
  rw [fields_eq, fields_eq]
  cases q.command.acked <;> cases p.command.acked <;> cases hq : q.msg.subject <;> cases hp : p.msg.subject <;>
    simp [messageFields, given, hq, hp]
  · exact fun _ _ _ => hbool _ _
  · exact fun _ _ _ _ => hbool _ _

theorem determined_iff : p.Determined ↔ ∀ q : Printed, q.msg.id = p.msg.id → q.rest = p.rest →
    q.msg.fromHandle = p.msg.fromHandle ∧ q.msg.subject = p.msg.subject ∧ q.msg.body = p.msg.body ∧
      q.command.acked = p.command.acked := by
  constructor
  · intro h q hid hrest
    exact (given_fields_iff.mp (h q (toon_eq_iff.mpr ⟨hid, hrest⟩))).2
  · intro h q htoon
    obtain ⟨hid, hrest⟩ := toon_eq_iff.mp htoon
    exact given_fields_iff.mpr ⟨hid, h q hid hrest⟩

theorem rest_untitled (hsubject : p.msg.subject = none) (hacked : p.command.acked = none) :
    p.rest = p.msg.fromHandle.toList ++ (bodyMark.toList ++ p.msg.body.toList) := by
  rw [Printed.rest, Printed.titled, Printed.closing, hsubject, hacked]
  simp only [Option.map_none, Option.elim_none, List.append_nil]

/-- Each mark too many gives another message that prints the same text. -/
theorem unforged_of_determined (h : p.Determined) : p.Unforged := by
  rw [determined_iff] at h
  have hacked : p.command.acked = none := by
    cases hc : p.command.acked with
    | none => rfl
    | some acked =>
      have hread := h ⟨.read, { p.msg with body := p.msg.body ++ ackedMark acked }, p.minted⟩ rfl (by
        rw [Printed.rest, Printed.rest, closing_of_some hc, closing_of_none rfl]
        simp [Printed.titled])
      exact absurd hread.2.2.2.symm (by rw [hc]; exact Option.some_ne_none _)
  have hsubject : p.msg.subject = none := by
    cases hs : p.msg.subject with
    | none => rfl
    | some subject =>
      have huntitled := h ⟨p.command, { p.msg with
        fromHandle := p.msg.fromHandle ++ subjectMark ++ subject, subject := none }, p.minted⟩ rfl (by
          simp [Printed.rest, Printed.titled, Printed.closing, hs])
      exact absurd huntitled.2.1.symm (by rw [hs]; exact Option.some_ne_none _)
  refine ⟨hacked, hsubject, ?_, ?_, ?_, ?_⟩
  · intro ⟨front, back, hmark⟩
    have htitled := h ⟨p.command, { p.msg with
      fromHandle := String.ofList front, subject := some (String.ofList back) }, p.minted⟩ rfl (by
        simp [Printed.rest, Printed.titled, Printed.closing, hsubject, ← hmark])
    exact absurd htitled.2.1 (by rw [hsubject]; exact Option.some_ne_none _)
  · intro ⟨front, back, hmark⟩
    have hshort := h ⟨p.command, { p.msg with
      fromHandle := String.ofList front, body := String.ofList back ++ bodyMark ++ p.msg.body }, p.minted⟩ rfl (by
        simp [Printed.rest, Printed.titled, Printed.closing, hsubject, ← hmark])
    have hsame := congrArg (List.length ∘ String.toList) hshort.1
    simp [← hmark, bodyMark] at hsame
  · intro ⟨front, back, hmark⟩
    have hlong := h ⟨p.command, { p.msg with
      fromHandle := p.msg.fromHandle ++ bodyMark ++ String.ofList front, body := String.ofList back }, p.minted⟩ rfl (by
        simp [Printed.rest, Printed.titled, Printed.closing, hsubject, ← hmark])
    have hsame := congrArg (List.length ∘ String.toList) hlong.1
    simp [bodyMark] at hsame
  · intro acked ⟨front, hmark⟩
    have hclosed := h ⟨.readAck acked, { p.msg with body := String.ofList front }, p.minted⟩ rfl (by
      rw [Printed.rest, Printed.rest, closing_of_none hacked, closing_of_some rfl]
      simp [Printed.titled, ← hmark])
    exact absurd hclosed.2.2.2 (by rw [hacked]; exact Option.some_ne_none _)

/-- The mark of the body cuts the printed text in one way, and neither part holds another mark. -/
theorem determined_of_unforged (h : p.Unforged) : p.Determined := by
  rw [determined_iff]
  intro q hid hrest
  rw [rest_untitled h.subject h.acked] at hrest
  obtain ⟨hfrom, hbody⟩ := mark_unique (c := '\n') (w := "body: ".toList) (by decide) h.from_body h.body_body hrest.symm
  have hsubject : q.msg.subject = none := by
    cases hs : q.msg.subject with
    | none => rfl
    | some subject =>
      rw [Printed.titled, hs] at hfrom
      refine absurd ⟨q.msg.fromHandle.toList, subject.toList, ?_⟩ h.from_subject
      rw [hfrom]
      simp
  have hacked : q.command.acked = none := by
    cases hc : q.command.acked with
    | none => rfl
    | some acked =>
      rw [Printed.closing, hc] at hbody
      exact absurd ⟨q.msg.body.toList, hbody.symm⟩ (h.body_acked acked)
  rw [Printed.titled, hsubject] at hfrom
  rw [Printed.closing, hacked] at hbody
  refine ⟨String.toList_inj.mp ?_, hsubject.trans h.subject.symm, String.toList_inj.mp ?_, hacked.trans h.acked.symm⟩
  · rw [hfrom]
    exact (List.append_nil _).symm
  · rw [hbody]
    exact (List.append_nil _).symm

end

/-! ## Lists -/

section
variable {c d : List Char} {t u : Char} {r s : List Char}

def double (c : List Char) : List Char := c.flatMap fun c => if c = '"' then ['"', '"'] else [c]

theorem double_cons (a : Char) : double (a :: c) = (if a = '"' then ['"', '"'] else [a]) ++ double c := rfl

/-- The first quote that is not doubled ends the text. -/
theorem double_unique (ht : t ≠ '"') (hu : u ≠ '"') (h : double c ++ '"' :: t :: r = double d ++ '"' :: u :: s) :
    c = d ∧ t :: r = u :: s := by
  induction c generalizing d with
  | nil =>
    cases d with
    | nil => exact ⟨rfl, (List.cons.inj h).2⟩
    | cons b d =>
      rw [double_cons] at h
      by_cases hb : b = '"'
      · rw [if_pos hb] at h
        exact absurd (List.cons.inj (List.cons.inj h).2).1 ht
      · rw [if_neg hb] at h
        exact absurd (List.cons.inj h).1.symm hb
  | cons a c ih =>
    cases d with
    | nil =>
      rw [double_cons] at h
      by_cases ha : a = '"'
      · rw [if_pos ha] at h
        exact absurd (List.cons.inj (List.cons.inj h).2).1.symm hu
      · rw [if_neg ha] at h
        exact absurd (List.cons.inj h).1 ha
    | cons b d =>
      rw [double_cons, double_cons] at h
      by_cases ha : a = '"'
      · by_cases hb : b = '"'
        · rw [if_pos ha, if_pos hb, List.append_assoc, List.append_assoc] at h
          obtain ⟨rfl, hrest⟩ := ih (List.append_cancel_left h)
          exact ⟨by rw [ha, hb], hrest⟩
        · rw [if_pos ha, if_neg hb] at h
          exact absurd (List.cons.inj h).1.symm hb
      · by_cases hb : b = '"'
        · rw [if_neg ha, if_pos hb] at h
          exact absurd (List.cons.inj h).1 ha
        · rw [if_neg ha, if_neg hb] at h
          obtain ⟨rfl, htail⟩ := List.cons.inj h
          obtain ⟨rfl, hrest⟩ := ih htail
          exact ⟨rfl, hrest⟩

/-- What ends a cell. -/
def Ends (t : Char) : Prop := t = ',' ∨ t = '\n'

theorem Ends.quotes (h : Ends t) : quotes t = true := by
  rcases h with rfl | rfl <;> rfl

theorem Ends.ne_quote (h : Ends t) : t ≠ '"' := by
  rcases h with rfl | rfl <;> decide

def cellText (v : Cell) : String := v.getD ""

theorem stringifyCell_quoted {v : Cell} (h : (cellText v).toList.any quotes = true) :
    (stringifyCell v).toList = '"' :: (double (cellText v).toList ++ ['"']) := by
  cases v with
  | none => cases h
  | some s =>
    have hs : s.toList.any quotes = true := h
    rw [stringifyCell, if_pos hs, String.toList_ofList]
    rfl

theorem stringifyCell_plain {v : Cell} (h : ¬(cellText v).toList.any quotes = true) : stringifyCell v = cellText v := by
  cases v with
  | none => rfl
  | some s => exact if_neg h

theorem not_mem_plain (ht : quotes t = true) (h : ¬c.any quotes = true) : t ∉ c := by
  intro hmem
  exact h (List.any_eq_true.mpr ⟨t, hmem, ht⟩)

theorem quoted_ne_plain (ht : Ends t) (hc : ¬c.any quotes = true) : c ++ t :: r ≠ '"' :: s := by
  intro h
  cases c with
  | nil => exact ht.ne_quote (List.cons.inj h).1
  | cons a c =>
    refine not_mem_plain (t := '"') rfl hc ?_
    rw [(List.cons.inj h).1]
    exact List.mem_cons_self

theorem cell_unique {v w : Cell} (ht : Ends t) (hu : Ends u)
    (h : (stringifyCell v).toList ++ t :: r = (stringifyCell w).toList ++ u :: s) :
    cellText v = cellText w ∧ t :: r = u :: s := by
  by_cases hv : (cellText v).toList.any quotes = true
  · by_cases hw : (cellText w).toList.any quotes = true
    · rw [stringifyCell_quoted hv, stringifyCell_quoted hw] at h
      simp only [List.cons_append, List.append_assoc, List.nil_append] at h
      obtain ⟨htext, hrest⟩ := double_unique ht.ne_quote hu.ne_quote (List.cons.inj h).2
      exact ⟨String.toList_inj.mp htext, hrest⟩
    · rw [stringifyCell_quoted hv, stringifyCell_plain hw] at h
      exact absurd h.symm (quoted_ne_plain hu hw)
  · by_cases hw : (cellText w).toList.any quotes = true
    · rw [stringifyCell_plain hv, stringifyCell_quoted hw] at h
      exact absurd h (quoted_ne_plain ht hv)
    · rw [stringifyCell_plain hv, stringifyCell_plain hw] at h
      rcases List.append_eq_append_iff.mp h with ⟨m, hm, hrest⟩ | ⟨m, hm, hrest⟩
      · cases m with
        | nil => exact ⟨String.toList_inj.mp (by rw [hm, List.append_nil]), hrest⟩
        | cons a m =>
          refine absurd ?_ (not_mem_plain ht.quotes hw)
          rw [hm, (List.cons.inj hrest).1]
          exact List.mem_append_right _ List.mem_cons_self
      · cases m with
        | nil => exact ⟨String.toList_inj.mp (by rw [hm, List.append_nil]), hrest.symm⟩
        | cons a m =>
          refine absurd ?_ (not_mem_plain hu.quotes hv)
          rw [hm, (List.cons.inj hrest).1]
          exact List.mem_append_right _ List.mem_cons_self

theorem row_unique {vs ws : List Cell} (hlen : vs.length = ws.length)
    (h : [','].intercalate (vs.map fun v => (stringifyCell v).toList) ++ '\n' :: r =
      [','].intercalate (ws.map fun w => (stringifyCell w).toList) ++ '\n' :: s) :
    vs.map cellText = ws.map cellText ∧ r = s := by
  induction vs generalizing ws with
  | nil =>
    rw [List.length_eq_zero_iff.mp hlen.symm] at h ⊢
    exact ⟨rfl, (List.cons.inj h).2⟩
  | cons v vs ih =>
    cases ws with
    | nil => cases hlen
    | cons w ws =>
      have hlen' : vs.length = ws.length := Nat.succ.inj hlen
      cases vs with
      | nil =>
        rw [List.length_eq_zero_iff.mp hlen'.symm] at h ⊢
        simp only [List.map_cons, List.map_nil, List.intercalate_singleton] at h ⊢
        obtain ⟨hcell, hrest⟩ := cell_unique (.inr rfl) (.inr rfl) h
        exact ⟨congrArg (· :: []) hcell, (List.cons.inj hrest).2⟩
      | cons v' vs =>
        cases ws with
        | nil => cases hlen'
        | cons w' ws =>
          simp only [List.map_cons, List.intercalate_cons_cons, List.append_assoc] at h
          obtain ⟨hcell, hrest⟩ := cell_unique (.inl rfl) (.inl rfl) h
          obtain ⟨hcells, htail⟩ := ih hlen' (List.cons.inj hrest).2
          exact ⟨congrArg₂ List.cons hcell hcells, htail⟩

def rowLines (rows : List (List Cell)) : List Char :=
  rows.flatMap fun row => ' ' :: ' ' :: [','].intercalate (row.map fun v => (stringifyCell v).toList) ++ ['\n']

theorem rowLines_unique {rows rows' : List (List Cell)} {n : Nat} (hlen : rows.length = rows'.length)
    (hn : ∀ row ∈ rows, row.length = n) (hn' : ∀ row ∈ rows', row.length = n)
    (h : rowLines rows ++ r = rowLines rows' ++ s) : rows.map (·.map cellText) = rows'.map (·.map cellText) := by
  induction rows generalizing rows' with
  | nil => rw [List.length_eq_zero_iff.mp hlen.symm]
  | cons row rows ih =>
    cases rows' with
    | nil => cases hlen
    | cons row' rows' =>
      simp only [rowLines, List.flatMap_cons, List.cons_append, List.append_assoc, List.nil_append] at h
      obtain ⟨hrow, hrest⟩ := row_unique ((hn _ List.mem_cons_self).trans (hn' _ List.mem_cons_self).symm)
        (List.cons.inj (List.cons.inj h).2).2
      rw [List.map_cons, List.map_cons, hrow, ih (Nat.succ.inj hlen) (fun x hx => hn x (List.mem_cons_of_mem _ hx))
        (fun x hx => hn' x (List.mem_cons_of_mem _ hx)) hrest]

end

/-- A name and keys as the callers write them. -/
structure Literal (name : String) (keys : List String) : Prop where
  name : '[' ∉ name.toList
  keys : ∀ key ∈ keys, key ≠ "" ∧ ',' ∉ key.toList ∧ '}' ∉ key.toList

section
variable {T U : Type} {name name' : String} {items : List T} {items' : List U} {fields : List (Column T)}
  {fields' : List (Column U)} {summary summary' : String} {keys keys' : List String}

def rows (fields : List (Column T)) (items : List T) : List (List Cell) := items.map fun item => fields.map (·.get item)

def cells (fields : List (Column T)) (items : List T) : List (List String) := (rows fields items).map (·.map cellText)

theorem toonList_toList (name : String) (items : List T) (fields : List (Column T)) (summary : String) :
    (toonList name items fields summary).toList = name.toList ++ '[' :: (Nat.toDigits 10 items.length ++ ']' :: '{' ::
      ([','].intercalate (fields.map (·.key.toList)) ++
        '}' :: ':' :: '\n' :: (rowLines (rows fields items) ++ summary.toList))) := by
  have hlines : ∀ (lines : List (List Char)) (last : List Char),
      ['\n'].intercalate (lines ++ [last]) = lines.flatMap (· ++ ['\n']) ++ last := by
    intro lines last
    induction lines with
    | nil => exact List.intercalate_singleton
    | cons line lines ih =>
      rw [List.cons_append,
        List.intercalate_cons_of_ne_nil (List.append_ne_nil_of_right_ne_nil _ (List.cons_ne_nil _ _)), ih]
      simp only [List.flatMap_cons, List.append_assoc]
  rw [toonList, String.toList_intercalate]
  simp only [List.map_append, List.map_cons, List.map_nil]
  rw [show "\n".toList = ['\n'] from rfl, hlines]
  simp [rowLines, rows, List.flatMap_map, Function.comp_def]

theorem keys_unique (h : Literal name keys) (h' : Literal name' keys')
    (htext : [','].intercalate (keys.map String.toList) = [','].intercalate (keys'.map String.toList)) :
    keys = keys' := by
  have hsplit : ∀ {name keys}, Literal name keys → keys ≠ [] →
      ([','].intercalate (keys.map String.toList)).splitOn ',' = keys.map String.toList := by
    intro name keys h hne
    refine List.splitOn_intercalate ',' ?_ (by simpa using hne)
    intro key hkey
    obtain ⟨k, hk, rfl⟩ := List.mem_map.mp hkey
    exact (h.keys k hk).2.1
  have hempty : ∀ {name keys}, Literal name keys → [','].intercalate (keys.map String.toList) = [] → keys = [] := by
    intro name keys h hnil
    by_contra hne
    have hone := hsplit h hne
    rw [hnil, List.splitOn_nil] at hone
    cases keys with
    | nil => exact hne rfl
    | cons key keys => exact (h.keys key List.mem_cons_self).1 (String.toList_inj.mp (List.cons.inj hone).1.symm)
  by_cases hk : keys = []
  · rw [hk] at htext
    rw [hk, hempty h' htext.symm]
  · by_cases hk' : keys' = []
    · rw [hk'] at htext
      exact absurd (hempty h htext) hk
    · have hmap := hsplit h hk
      rw [htext, hsplit h' hk'] at hmap
      exact (List.map_injective_iff.mpr (fun _ _ => String.toList_inj.mp) hmap).symm

theorem close_not_mem (h : Literal name keys) : '}' ∉ [','].intercalate (keys.map String.toList) := by
  intro hmem
  obtain ⟨hname, hkeys⟩ := h
  induction keys with
  | nil => cases hmem
  | cons key keys ih =>
    have hkey := (hkeys key List.mem_cons_self).2.2
    by_cases hk : keys = []
    · rw [hk, List.map_singleton, List.intercalate_singleton] at hmem
      exact hkey hmem
    · rw [List.map_cons, List.intercalate_cons_of_ne_nil (by simpa using hk)] at hmem
      rcases List.mem_append.mp hmem with hmem | hmem
      · rcases List.mem_append.mp hmem with hmem | hmem
        · exact hkey hmem
        · exact absurd (List.mem_singleton.mp hmem) (by decide)
      · exact ih hmem fun k hk => hkeys k (List.mem_cons_of_mem _ hk)

theorem cells_unique (h : Literal name (fields.map (·.key))) (h' : Literal name' (fields'.map (·.key)))
    (htext : toonList name items fields summary = toonList name' items' fields' summary') :
    cells fields items = cells fields' items' := by
  rw [← String.toList_inj, toonList_toList, toonList_toList] at htext
  have hdigits : ∀ n, ']' ∉ Nat.toDigits 10 n := by
    intro n hmem
    have hdigit : ']'.isDigit = true := Nat.isDigit_of_mem_toDigits (by decide) (by decide) hmem
    exact absurd hdigit (by decide)
  have hkeys : ∀ {V : Type} (columns : List (Column V)),
      columns.map (·.key.toList) = (columns.map (·.key)).map String.toList := by
    intro V columns
    rw [List.map_map]
    rfl
  obtain ⟨-, hrest⟩ := cut_unique h.name h'.name htext
  obtain ⟨hcount, hrest⟩ := cut_unique (hdigits _) (hdigits _) hrest
  have hlength : items.length = items'.length := by
    have hnumber := congrArg (Nat.ofDigitChars 10 · 0) hcount
    simpa only [Nat.ofDigitChars_ten_toDigits] using hnumber
  rw [hkeys, hkeys] at hrest
  obtain ⟨hheads, hrest⟩ := cut_unique (close_not_mem h) (close_not_mem h') (List.cons.inj hrest).2
  have hwidth : fields.length = fields'.length := by
    simpa only [List.length_map] using congrArg List.length (keys_unique h h' hheads)
  have hrows : ∀ {V : Type} (columns : List (Column V)) (xs : List V), ∀ row ∈ rows columns xs,
      row.length = columns.length := by
    intro V columns xs row hrow
    obtain ⟨x, -, rfl⟩ := List.mem_map.mp hrow
    exact List.length_map _
  apply rowLines_unique (n := fields.length) (by simpa only [rows, List.length_map] using hlength) (hrows fields items)
  · intro row hrow
    rw [hwidth]
    exact hrows fields' items' row hrow
  · exact (List.cons.inj (List.cons.inj hrest).2).2

end

/-- A printed message can be read back where no part of it reads as another field; a printed list always can. -/
theorem printed_determined_iff (p : Printed) : (p.Determined ↔ p.Unforged) ∧
    ∀ {T U : Type} {name name' summary summary' : String} {items : List T} {items' : List U} {fields : List (Column T)}
      {fields' : List (Column U)}, Literal name (fields.map (·.key)) → Literal name' (fields'.map (·.key)) →
      toonList name items fields summary = toonList name' items' fields' summary' →
      cells fields items = cells fields' items' :=
  ⟨⟨unforged_of_determined, determined_of_unforged⟩, cells_unique⟩

def hello : Message :=
  { id := "1750000000000-a1b2c3", sender := "s1", fromHandle := "builder", «to» := "s2", body := "done",
    ts := 1750000000000,
    sentAt := "2025-06-15T15:06:40.000Z" }

def handleColumn : List (Column String) := [⟨"handle", some⟩]

theorem printed_determined_hello : Printed.Determined ⟨.read, hello, by decide⟩ ∧
    toonList "pruned" ["a,b"] handleColumn "1 pruned" ≠ toonList "pruned" ["a\"b"] handleColumn "1 pruned" := by
  refine ⟨(printed_determined_iff _).1.mpr ⟨rfl, rfl, by decide, by decide, by decide, by decide⟩, ?_⟩
  intro htext
  have hliteral : Literal "pruned" (handleColumn.map (·.key)) := ⟨by decide, by decide⟩
  exact absurd ((printed_determined_iff ⟨.read, hello, by decide⟩).2 hliteral hliteral htext) (by decide)

/-- A body that ends as an acknowledgement prints as one. -/
theorem body_forges_acked :
    Printed.toon ⟨.read, { hello with body := "done\nacked: true" }, by decide⟩ =
        Printed.toon ⟨.readAck true, hello, by decide⟩ ∧
      given (Printed.fields ⟨.read, { hello with body := "done\nacked: true" }, by decide⟩) ≠
        given (Printed.fields ⟨.readAck true, hello, by decide⟩) := by
  constructor
  · exact toon_eq_iff.mpr ⟨rfl, by decide⟩
  · decide

end Cyberlegion.Output
