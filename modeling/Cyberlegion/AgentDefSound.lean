import Cyberlegion.AgentDef

/-!
# Definitions read back

A frontmatter is printed one line for each field, or one block, between two fences. The
parser reads back what was printed unless the frontmatter is empty: the line break that
the opening fence eats is the one that the closing fence needs.
-/

namespace Cyberlegion.Definition

open Text

/-! ## Printing -/

def dashes : Line := ['-', '-', '-']

inductive Value
  | bare (text : String)
  | quoted (quote : Char) (text : String)
  | block (marker : String) (lines : List String)

namespace Value

def head : Value → Line
  | bare text => text.toList
  | quoted quote text => quote :: text.toList ++ [quote]
  | block marker _ => marker.toList

def under : Value → List Line
  | block _ lines => lines.map String.toList
  | _ => []

def joined (marker : String) (lines : List String) : Line :=
  (blockJoin marker.toList).intercalate (lines.map fun line => strip line.toList)

def text : Value → String
  | bare text | quoted _ text => text
  | block marker lines => String.ofList (joined marker lines)

/-- A single line, trimmed, neither quoted nor a block marker; or quoted; or a block of indented
lines that are not blank, its text not quoted. -/
def Proper : Value → Prop
  | bare text => '\n' ∉ text.toList ∧ strip text.toList = text.toList ∧ isQuoted text.toList = false ∧
      opensBlock text.toList = false
  | quoted quote text => (quote = '"' ∨ quote = '\'') ∧ '\n' ∉ text.toList
  | block marker lines => opensBlock marker.toList = true ∧
      (∀ line ∈ lines, '\n' ∉ line.toList ∧ 0 < indent line.toList ∧ strip line.toList ≠ []) ∧
      isQuoted (joined marker lines) = false

end Value

abbrev Field := String × Value

def Field.lines (f : Field) : List Line := (f.1.toList ++ ':' :: ' ' :: f.2.head) :: f.2.under

def keyChar (c : Char) : Bool := ¬jsSpace c ∧ c ∉ [':', '#', '-', '_']

def Field.Proper (f : Field) : Prop := (∀ c ∈ f.1.toList, keyChar c = true) ∧ f.2.Proper

def printed (eol : String) (fields : List Field) (body : String) : String :=
  String.ofList (dashes ++ eol.toList ++ (fields.flatMap Field.lines).flatMap (· ++ eol.toList) ++
    dashes ++ eol.toList ++ body.toList)

/-! ## Lines -/

section
variable {c : Char} {x y s t : Line} {xs ys : List Line}

theorem jsSpace_cr : jsSpace '\r' = true := by decide

theorem chomp_concat_cr : chomp (x ++ ['\r']) = x := by
  rw [chomp, List.getLast?_concat, if_pos rfl, List.dropLast_concat]

theorem chomp_of_last (h : x.getLast? ≠ some '\r') : chomp x = x := if_neg h

theorem chomp_cases (x : Line) : chomp x = x ∨ x = chomp x ++ ['\r'] := by
  by_cases h : x.getLast? = some '\r'
  · obtain ⟨front, rfl⟩ : ∃ front, x = front ++ ['\r'] := List.getLast?_eq_some_iff.mp h
    rw [chomp_concat_cr]
    exact .inr rfl
  · exact .inl (chomp_of_last h)

theorem strip_chomp : strip (chomp x) = strip x := by
  rcases chomp_cases x with h | h
  · rw [h]
  · have hback : ∀ c ∈ ['\r'], jsSpace c = true := by
      intro c hc
      rw [List.mem_singleton.mp hc]
      exact jsSpace_cr
    conv_rhs => rw [h]
    exact (trim_append hback).symm

theorem mem_chomp (h : c ∈ chomp x) : c ∈ x := by
  rcases chomp_cases x with hx | hx
  · rw [hx] at h
    exact h
  · rw [hx]
    exact List.mem_append_left _ h

theorem chomp_cons (h : ¬(x = [] ∧ c = '\r')) : chomp (c :: x) = c :: chomp x := by
  cases x with
  | nil =>
    apply chomp_of_last
    intro hlast
    exact h ⟨rfl, Option.some.inj hlast⟩
  | cons d x =>
    rw [chomp, chomp, List.getLast?_cons_cons]
    split <;> rfl

/-! ## Fences -/

theorem eatPrefix_append (cs : Line) : eatPrefix cs (cs ++ s) = some s := by
  induction cs with
  | nil => rfl
  | cons c cs ih => rw [List.cons_append, eatPrefix, if_pos rfl, ih]

theorem eatPrefix_ne {cs : Line} {d : Char} (h : c ≠ d) : eatPrefix (c :: cs) (d :: s) = none := if_neg h

theorem closing_newline : closing ('\n' :: s) = eatPrefix dashes s := by
  have hcr : eatPrefix "\r\n---".toList ('\n' :: s) = none := eatPrefix_ne (by decide)
  rw [closing, hcr]
  rfl

theorem closing_cr_newline : closing ('\r' :: '\n' :: s) = eatPrefix dashes s := by
  have hlf : eatPrefix "\n---".toList ('\r' :: '\n' :: s) = none := eatPrefix_ne (by decide)
  rw [closing, hlf, Option.or_none]
  rfl

theorem closing_other (hlf : c ≠ '\n') (hcr : c = '\r' → s.head? ≠ some '\n') : closing (c :: s) = none := by
  have hnewline : eatPrefix "\n---".toList (c :: s) = none := eatPrefix_ne (Ne.symm hlf)
  rw [closing, hnewline, Option.or_none]
  by_cases hc : c = '\r'
  · subst hc
    cases s with
    | nil => rfl
    | cons d s =>
      show eatPrefix ('\n' :: dashes) (d :: s) = none
      exact eatPrefix_ne fun hd => hcr rfl (congrArg some hd.symm)
  · exact eatPrefix_ne (Ne.symm hc)

theorem splitFence_last (hx : '\n' ∉ x) (hs : eatPrefix dashes s = some t) :
    splitFence (x ++ '\n' :: s) = some (chomp x, t) := by
  induction x with
  | nil =>
    rw [List.nil_append, splitFence, closing_newline, hs]
    rfl
  | cons c x ih =>
    rw [List.mem_cons, not_or] at hx
    by_cases hend : x = [] ∧ c = '\r'
    · obtain ⟨rfl, rfl⟩ := hend
      rw [List.singleton_append, splitFence, closing_cr_newline, hs]
      rfl
    · have hnone : closing (c :: (x ++ '\n' :: s)) = none := by
        refine closing_other (Ne.symm hx.1) fun hc hnext => ?_
        cases x with
        | nil => exact hend ⟨rfl, hc⟩
        | cons d x => exact hx.2 (List.mem_cons.mpr (.inl (Option.some.inj hnext).symm))
      rw [List.cons_append, splitFence, hnone, ih hx.2, chomp_cons hend]
      rfl

theorem splitFence_line (hx : '\n' ∉ x) (hs : eatPrefix dashes s = none) :
    splitFence (x ++ '\n' :: s) = (splitFence s).map fun p => (x ++ '\n' :: p.1, p.2) := by
  induction x with
  | nil =>
    rw [List.nil_append, splitFence, closing_newline, hs]
    rfl
  | cons c x ih =>
    rw [List.mem_cons, not_or] at hx
    have hnone : closing (c :: (x ++ '\n' :: s)) = none := by
      cases x with
      | nil =>
        by_cases hc : c = '\r'
        · subst hc
          rw [List.nil_append, closing_cr_newline, hs]
        · exact closing_other (Ne.symm hx.1) fun h => absurd h hc
      | cons d x =>
        refine closing_other (Ne.symm hx.1) fun _ hnext => ?_
        exact hx.2 (List.mem_cons.mpr (.inl (Option.some.inj hnext).symm))
    rw [List.cons_append, splitFence, hnone, ih hx.2, Option.map_map]
    rfl

def chompLast : List Line → List Line
  | [] => []
  | [x] => [chomp x]
  | x :: y :: xs => x :: chompLast (y :: xs)

/-- A line that is no fence, however it goes on. -/
def Unfenced (x : Line) : Prop := '\n' ∉ x ∧ ∃ c rest, x = c :: rest ∧ c ≠ '-'

theorem Unfenced.eatPrefix (hx : Unfenced x) : eatPrefix dashes (x ++ s) = none := by
  obtain ⟨-, c, rest, rfl, hc⟩ := hx
  exact eatPrefix_ne (Ne.symm hc)

theorem splitFence_lines (hne : xs ≠ []) (hxs : ∀ x ∈ xs, Unfenced x) (hs : eatPrefix dashes s = some t) :
    splitFence (xs.flatMap (· ++ ['\n']) ++ s) = some (['\n'].intercalate (chompLast xs), t) := by
  induction xs with
  | nil => exact absurd rfl hne
  | cons x xs ih =>
    have hx := hxs x List.mem_cons_self
    rw [List.flatMap_cons, List.append_assoc, List.append_assoc, List.singleton_append]
    cases xs with
    | nil =>
      rw [List.flatMap_nil, List.nil_append, splitFence_last hx.1 hs, chompLast]
      simp only [List.intercalate, List.intersperse, List.flatten_cons, List.flatten_nil, List.append_nil]
    | cons y xs =>
      have hnone : Definition.eatPrefix dashes ((y :: xs).flatMap (· ++ ['\n']) ++ s) = none := by
        rw [List.flatMap_cons, List.append_assoc, List.append_assoc]
        exact (hxs y (List.mem_cons_of_mem x List.mem_cons_self)).eatPrefix
      rw [splitFence_line hx.1 hnone, ih (List.cons_ne_nil y xs) fun z hz => hxs z (List.mem_cons_of_mem x hz)]
      have hchomp : chompLast (x :: y :: xs) = x :: chompLast (y :: xs) := rfl
      have hcons : chompLast (y :: xs) ≠ [] := by cases xs <;> exact List.cons_ne_nil _ _
      rw [hchomp]
      obtain ⟨z, zs, hzs⟩ := List.exists_cons_of_ne_nil hcons
      rw [hzs]
      simp [List.intercalate]

theorem mem_chompLast (h : y ∈ chompLast xs) : ∃ x ∈ xs, ∀ c ∈ y, c ∈ x := by
  induction xs with
  | nil => cases h
  | cons x xs ih =>
    cases xs with
    | nil =>
      rw [chompLast, List.mem_singleton] at h
      subst h
      exact ⟨x, List.mem_singleton_self x, fun c hc => mem_chomp hc⟩
    | cons z xs =>
      rcases List.mem_cons.mp h with rfl | h
      · exact ⟨y, List.mem_cons_self, fun c hc => hc⟩
      · obtain ⟨w, hw, hsub⟩ := ih h
        exact ⟨w, List.mem_cons_of_mem x hw, hsub⟩

theorem splitOn_chompLast (hne : xs ≠ []) (hxs : ∀ x ∈ xs, '\n' ∉ x) :
    (['\n'].intercalate (chompLast xs)).splitOn '\n' = chompLast xs := by
  refine List.splitOn_intercalate '\n' (fun y hy hmem => ?_) ?_
  · obtain ⟨x, hx, hsub⟩ := mem_chompLast hy
    exact hxs x hx (hsub _ hmem)
  · intro hnil
    cases xs with
    | nil => exact hne rfl
    | cons x xs => cases xs <;> cases hnil

end

/-! ## Fields -/

def FieldLine (f : Field) (x : Line) : Prop := ∃ t :
    Line, (∀ c ∈ t, c = '\r') ∧ x = f.1.toList ++ ':' :: ' ' :: f.2.head ++ t

def BlockLine (line x : Line) : Prop :=
  strip line ≠ [] ∧ strip x = strip line ∧ ∃ c rest, x = c :: rest ∧ jsSpace c = true

inductive Holds : List Field → List Line → Prop
  | nil : Holds [] []
  | cons {f : Field} {fields : List Field} {x : Line} {ys xs : List Line} (hx : FieldLine f x)
      (hys : List.Forall₂ BlockLine f.2.under ys) (hxs : Holds fields xs) : Holds (f :: fields) (x :: ys ++ xs)

section
variable {f : Field} {fields : List Field} {x line : Line} {xs ys lines : List Line} {v : Value}

theorem BlockLine.chomp (h : BlockLine line x) : BlockLine line (chomp x) := by
  obtain ⟨hline, hstrip, c, rest, rfl, hc⟩ := h
  refine ⟨hline, strip_chomp.trans hstrip, c, Definition.chomp rest, chomp_cons fun hend => ?_, hc⟩
  obtain ⟨rfl, rfl⟩ := hend
  exact hline (hstrip.symm.trans rfl)

theorem Value.Proper.stripped (h : v.Proper) : strip v.head = v.head := by
  cases v with
  | bare text => exact h.2.1
  | quoted quote text =>
    have hquote : jsSpace quote = false := by rcases h.1 with rfl | rfl <;> decide
    refine trim_self (fun c hc => ?_) fun c hc => ?_
    · cases hc
      exact hquote
    · have hlast : (quote :: text.toList ++ [quote]).getLast? = some quote := List.getLast?_concat
      rw [Value.head, hlast] at hc
      cases hc
      exact hquote
  | block marker lines =>
    have hmarker := h.1
    simp only [opensBlock, List.mem_cons, List.not_mem_nil, or_false, decide_eq_true_eq] at hmarker
    rw [Value.head]
    rcases hmarker with h | h | h | h <;> rw [h] <;> decide

theorem FieldLine.chomp (hv : f.2.Proper) (h : FieldLine f x) : FieldLine f (chomp x) := by
  obtain ⟨t, ht, rfl⟩ := h
  rcases List.eq_nil_or_concat' t with rfl | ⟨t', c, rfl⟩
  · refine ⟨[], ht, ?_⟩
    rw [List.append_nil]
    apply chomp_of_last
    intro hlast
    have hcut : (f.1.toList ++ ':' :: ' ' :: f.2.head).getLast? = (' ' :: f.2.head).getLast? := by
      rw [List.getLast?_append_of_ne_nil _ (List.cons_ne_nil _ _), List.getLast?_cons_cons]
    rw [hcut] at hlast
    cases hhead : f.2.head with
    | nil =>
      rw [hhead] at hlast
      cases hlast
    | cons d rest =>
      rw [hhead, List.getLast?_cons_cons, ← hhead, ← hv.stripped] at hlast
      have hspace := last_trim hlast
      rw [jsSpace_cr] at hspace
      cases hspace
  · obtain rfl : c = '\r' := ht c (List.mem_append_right _ (List.mem_singleton_self c))
    refine ⟨t', fun d hd => ht d (List.mem_append_left _ hd), ?_⟩
    rw [← List.append_assoc]
    exact chomp_concat_cr

theorem chompLast_append (hne : ys ≠ []) : chompLast (xs ++ ys) = xs ++ chompLast ys := by
  induction xs with
  | nil => rfl
  | cons x xs ih =>
    obtain ⟨z, zs, hzs⟩ := List.exists_cons_of_ne_nil (List.append_ne_nil_of_right_ne_nil xs hne)
    rw [List.cons_append, hzs, chompLast, ← hzs, ih]
    rfl

theorem Holds.chompLast (h : Holds fields xs) (hf : ∀ f ∈ fields, f.2.Proper) : Holds fields (chompLast xs) := by
  have hblock : ∀ {lines ys : List Line}, List.Forall₂ BlockLine lines ys →
      List.Forall₂ BlockLine lines (Definition.chompLast ys) := by
    intro lines ys hys
    induction hys with
    | nil => exact .nil
    | cons hy hrest ih =>
      cases hrest with
      | nil => exact .cons hy.chomp .nil
      | cons hy' hrest' => exact .cons hy ih
  induction h with
  | nil => exact .nil
  | @cons f fields x ys xs hx hys hxs ih =>
    have hproper := hf f List.mem_cons_self
    have hrest := ih fun g hg => hf g (List.mem_cons_of_mem f hg)
    cases xs with
    | cons z zs =>
      rw [chompLast_append (List.cons_ne_nil z zs)]
      exact .cons hx hys hrest
    | nil =>
      rw [List.append_nil]
      cases ys with
      | nil => exact Holds.cons (hx.chomp hproper) hys hrest
      | cons y ys =>
        have hmore := Holds.cons hx (hblock hys) hrest
        have hnil : Definition.chompLast ([] : List Line) = [] := rfl
        rw [hnil, List.append_nil] at hmore
        exact hmore

/-- What the parser sees of a field's line: no white space in front, and the key before the colon. -/
theorem FieldLine.reads (hf : Field.Proper f) (h : FieldLine f x) : strip (Definition.chomp x) ≠ [] ∧
    (strip (Definition.chomp x)).head? ≠ some '#' ∧ indent (Definition.chomp x) = 0 ∧ ':' ∈ Definition.chomp x ∧
    strip ((Definition.chomp x).takeWhile (· ≠ ':')) = f.1.toList ∧
    strip (((Definition.chomp x).dropWhile (· ≠ ':')).drop 1) = f.2.head := by
  obtain ⟨t, ht, hx⟩ := h.chomp hf.2
  have hkey : ∀ c ∈ f.1.toList, jsSpace c = false ∧ c ≠ ':' ∧ c ≠ '#' := by
    intro c hc
    have hchar := of_decide_eq_true (hf.1 c hc)
    simp only [List.mem_cons, not_or] at hchar
    exact ⟨Bool.eq_false_iff.mpr hchar.1, hchar.2.1, hchar.2.2.1⟩
  obtain ⟨c, rest, hcons, hspace, hhash⟩ :
      ∃ c rest, Definition.chomp x = c :: rest ∧ jsSpace c = false ∧ c ≠ '#' := by
    rw [hx]
    cases hk : f.1.toList with
    | nil => exact ⟨':', _, rfl, by decide, by decide⟩
    | cons c cs =>
      obtain ⟨hs, -, hh⟩ := hkey c (by rw [hk]; exact List.mem_cons_self)
      exact ⟨c, _, rfl, hs, hh⟩
  have hhead : (strip (Definition.chomp x)).head? = some c := by
    rw [hcons]
    exact head_trim_cons hspace
  have htake : (Definition.chomp x).takeWhile (· ≠ ':') = f.1.toList ∧
      (Definition.chomp x).dropWhile (· ≠ ':') = ':' :: ' ' :: f.2.head ++ t := by
    have hall : ∀ c ∈ f.1.toList, decide (c ≠ ':') = true := fun c hc => decide_eq_true (hkey c hc).2.1
    rw [hx, List.append_assoc]
    refine ⟨?_, ?_⟩
    · rw [List.takeWhile_append_of_pos hall]
      exact List.append_nil _
    · rw [List.dropWhile_append_of_pos hall]
      rfl
  refine ⟨fun hnil => ?_, fun h => ?_, ?_, ?_, ?_, ?_⟩
  · rw [hnil] at hhead
    cases hhead
  · rw [hhead] at h
    exact hhash (Option.some.inj h)
  · have hdrop : (c :: rest).dropWhile jsSpace = c :: rest := List.dropWhile_cons_of_neg (Bool.eq_false_iff.mp hspace)
    rw [hcons, indent, hdrop, Nat.sub_self]
  · rw [hx]
    exact List.mem_append_left _ (List.mem_append_right _ List.mem_cons_self)
  · rw [htake.1]
    refine trim_self (fun c hc => (hkey c (List.mem_of_head? hc)).1) fun c hc => (hkey c (List.mem_of_getLast? hc)).1
  · have hback : ∀ c ∈ t, jsSpace c = true := by
      intro c hc
      rw [ht c hc]
      exact jsSpace_cr
    have hfront : ∀ c ∈ [' '], jsSpace c = true := by
      intro c hc
      rw [List.mem_singleton.mp hc]
      decide
    have hvalue : strip ([' '] ++ f.2.head ++ t) = f.2.head := by
      rw [strip, trim_append hback, trim_prepend hfront]
      exact hf.2.stripped
    rw [htake.2]
    exact hvalue

theorem Value.Proper.blockLine (h : v.Proper) (hline : line ∈ v.under) :
    '\n' ∉ line ∧ 0 < indent line ∧ strip line ≠ [] := by
  cases v with
  | bare text => cases hline
  | quoted quote text => cases hline
  | block marker lines =>
    obtain ⟨l, hl, rfl⟩ := List.mem_map.mp hline
    exact h.2.1 l hl

theorem blockLines_holds (hlines : List.Forall₂ BlockLine lines ys) (hxs : Holds fields xs)
    (hf : ∀ f ∈ fields, Field.Proper f) : blockLines (ys ++ xs) = (lines.map strip, xs) := by
  induction hlines with
  | nil =>
    cases hxs with
    | nil => rfl
    | @cons f fields x ys xs hx hys hxs =>
      obtain ⟨hne, -, hindent, -⟩ := hx.reads (hf f List.mem_cons_self)
      rw [List.nil_append, List.cons_append, blockLines]
      simp only [if_neg hne, if_pos hindent]
      rfl
  | @cons line y lines ys hy hys ih =>
    obtain ⟨hne, hstrip, c, rest, hcons, hc⟩ := hy.chomp
    have hindent : indent (Definition.chomp y) ≠ 0 := by
      rw [hcons, indent, List.dropWhile_cons_of_pos hc, List.length_cons]
      have := (List.dropWhile_suffix jsSpace (l := rest)).length_le
      omega
    rw [List.cons_append, blockLines, ih]
    simp only [hstrip, if_neg hne, if_neg hindent]
    rfl

theorem Fields.set_new {fm : Fields} {key value : String} (hproto : key ≠ "__proto__") (hnew : ∀ g ∈ fm, g.1 ≠ key) :
    fm.set key value = fm ++ [(key, value)] := by
  have hany : fm.any (·.1 = key) = false := by
    rw [List.any_eq_false]
    exact fun g hg h => hnew g hg (of_decide_eq_true h)
  rw [Fields.set, if_neg hproto, hany]
  rfl

theorem Field.Proper.not_proto (hf : Field.Proper f) : f.1 ≠ "__proto__" := by
  intro h
  have hchar := hf.1 '_' (by rw [h]; decide)
  revert hchar
  decide

theorem parseFields_field (hf : Field.Proper f) (hx : FieldLine f x) (hys : List.Forall₂ BlockLine f.2.under ys)
    (hxs : Holds fields xs) (hfs : ∀ f ∈ fields, Field.Proper f) (fm : Fields) :
    parseFields (x :: ys ++ xs) fm = parseFields xs (fm.set f.1 f.2.text) := by
  obtain ⟨hne, hhash, hindent, hcolon, hkey, hvalue⟩ := hx.reads hf
  have hskip : ¬(strip (Definition.chomp x) = [] ∨ (strip (Definition.chomp x)).head? = some '#') := by
    rw [not_or]
    exact ⟨hne, hhash⟩
  have hnotIndented : ¬0 < indent (Definition.chomp x) := by
    rw [hindent]
    exact Nat.lt_irrefl 0
  rw [List.cons_append, parseFields]
  simp only [if_neg hskip, if_neg hnotIndented, not_not.mpr hcolon, if_false, hkey, hvalue, String.ofList_toList]
  obtain ⟨key, value⟩ := f
  cases value with
  | bare text =>
    obtain ⟨-, -, hquoted, hopens⟩ := hf.2
    cases hys
    have hsame : unquote text.toList = text.toList := if_neg (by rw [hquoted]; exact Bool.false_ne_true)
    rw [Value.head, hopens, hsame, Value.text]
    simp only [Bool.false_eq_true, if_false, List.nil_append, String.ofList_toList]
  | quoted quote text =>
    obtain ⟨hquote, -⟩ := hf.2
    cases hys
    have hopens : opensBlock (quote :: text.toList ++ [quote]) = false := by
      rcases hquote with rfl | rfl <;> simp [opensBlock]
    have hquoted : isQuoted (quote :: text.toList ++ [quote]) = true := by
      have hlast : (quote :: text.toList ++ [quote]).getLast? = some quote := List.getLast?_concat
      refine decide_eq_true ⟨by simp, ?_⟩
      rcases hquote with rfl | rfl
      · exact .inl ⟨rfl, hlast⟩
      · exact .inr ⟨rfl, hlast⟩
    have hinner : unquote (quote :: text.toList ++ [quote]) = text.toList := (if_pos hquoted).trans List.dropLast_concat
    rw [Value.head, hopens, hinner, Value.text]
    simp only [Bool.false_eq_true, if_false, List.nil_append, String.ofList_toList]
  | block marker lines =>
    obtain ⟨hopens, -, hquoted⟩ := hf.2
    have hlines : (Value.block marker lines).under.map strip = lines.map fun line => strip line.toList := by
      rw [Value.under, List.map_map]
      rfl
    rw [Value.head, if_pos hopens, blockLines_holds hys hxs hfs, hlines]
    have hjoined : (blockJoin marker.toList).intercalate (lines.map fun line => strip line.toList) =
        Value.joined marker lines :=
      rfl
    have hsame : unquote (Value.joined marker lines) = Value.joined marker lines :=
      if_neg (by rw [hquoted]; exact Bool.false_ne_true)
    rw [hjoined, hsame, Value.text]

theorem parseFields_holds (h : Holds fields xs) (hfs : ∀ f ∈ fields, Field.Proper f) (fm : Fields)
    (hnodup : (fm.map (·.1) ++ fields.map (·.1)).Nodup) :
    parseFields xs fm = fm ++ fields.map fun f => (f.1, f.2.text) := by
  induction h generalizing fm with
  | nil => rw [parseFields, List.map_nil, List.append_nil]
  | @cons f fields x ys xs hx hys hxs ih =>
    have hf := hfs f List.mem_cons_self
    have hrest : ∀ g ∈ fields, Field.Proper g := fun g hg => hfs g (List.mem_cons_of_mem f hg)
    have hnew : ∀ g ∈ fm, g.1 ≠ f.1 := fun g hg heq =>
      List.disjoint_of_nodup_append hnodup (List.mem_map_of_mem hg) (heq ▸ List.mem_cons_self)
    rw [parseFields_field hf hx hys hxs hrest, Fields.set_new hf.not_proto hnew, ih hrest]
    · rw [List.map_cons, List.append_assoc]
      rfl
    · rw [List.map_append, List.append_assoc]
      exact hnodup

/-! ## Printed files -/

theorem holds_lines {cr : Line} (hcr : ∀ c ∈ cr, c = '\r') (hfs : ∀ f ∈ fields, Field.Proper f) :
    Holds fields ((fields.flatMap Field.lines).map (· ++ cr)) := by
  have hspace : ∀ c ∈ cr, jsSpace c = true := by
    intro c hc
    rw [hcr c hc]
    exact jsSpace_cr
  induction fields with
  | nil => exact .nil
  | cons f fields ih =>
    have hrest := ih fun g hg => hfs g (List.mem_cons_of_mem f hg)
    have hunder : List.Forall₂ BlockLine f.2.under (f.2.under.map (· ++ cr)) := by
      rw [List.forall₂_map_right_iff, List.forall₂_same]
      intro line hline
      obtain ⟨-, hindent, hne⟩ := (hfs f List.mem_cons_self).2.blockLine hline
      refine ⟨hne, trim_append hspace, ?_⟩
      cases line with
      | nil => exact absurd rfl hne
      | cons c rest =>
        refine ⟨c, rest ++ cr, rfl, ?_⟩
        by_contra hc
        rw [indent, List.dropWhile_cons_of_neg hc, Nat.sub_self] at hindent
        exact absurd hindent (Nat.lt_irrefl 0)
    rw [List.flatMap_cons, List.map_append]
    exact .cons ⟨cr, hcr, rfl⟩ hunder hrest

theorem unfenced_lines {cr : Line} (hcr : ∀ c ∈ cr, c = '\r') (hfs : ∀ f ∈ fields, Field.Proper f)
    (hx : x ∈ (fields.flatMap Field.lines).map (· ++ cr)) : Unfenced x := by
  obtain ⟨y, hy, rfl⟩ := List.mem_map.mp hx
  obtain ⟨f, hf, hline⟩ := List.mem_flatMap.mp hy
  have hproper := hfs f hf
  have hback : '\n' ∉ cr := fun h => by cases hcr _ h
  rcases List.mem_cons.mp hline with rfl | hunder
  · have hkey : ∀ c ∈ f.1.toList, c ≠ '\n' ∧ c ≠ '-' := by
      intro c hc
      have hchar := of_decide_eq_true (hproper.1 c hc)
      simp only [List.mem_cons, not_or] at hchar
      exact ⟨fun h => hchar.1 (by rw [h]; decide), hchar.2.2.2.1⟩
    have hhead : '\n' ∉ f.2.head := by
      obtain ⟨key, value⟩ := f
      cases value with
      | bare text => exact hproper.2.1
      | quoted quote text =>
        obtain ⟨hquote, htext⟩ := hproper.2
        rw [Value.head]
        rcases hquote with rfl | rfl <;> simp [htext]
      | block marker lines =>
        have hmarker := hproper.2.1
        simp only [opensBlock, List.mem_cons, List.not_mem_nil, or_false, decide_eq_true_eq] at hmarker
        rw [Value.head]
        rcases hmarker with h | h | h | h <;> rw [h] <;> decide
    refine ⟨?_, ?_⟩
    · simp only [List.mem_append, List.mem_cons, not_or]
      exact ⟨⟨fun h => (hkey _ h).1 rfl, by decide, by decide, hhead⟩, hback⟩
    · cases hk : f.1.toList with
      | nil => exact ⟨':', _, rfl, by decide⟩
      | cons c cs => exact ⟨c, _, rfl, (hkey c (by rw [hk]; exact List.mem_cons_self)).2⟩
  · obtain ⟨hbreak, hindent, hne⟩ := hproper.2.blockLine hunder
    cases y with
    | nil => exact absurd rfl hne
    | cons c rest =>
      refine ⟨fun h => (List.mem_append.mp h).elim hbreak hback, c, rest ++ cr, rfl, ?_⟩
      rintro rfl
      have hdash : ('-' :: rest).dropWhile jsSpace = '-' :: rest := List.dropWhile_cons_of_neg (by decide)
      rw [indent, hdash, Nat.sub_self] at hindent
      exact absurd hindent (Nat.lt_irrefl 0)

end

section
variable {cr s rest block : Line} {fields : List Field} {body eol : String}

theorem opening_fence (hcr : cr = [] ∨ cr = ['\r']) : opening (dashes ++ cr ++ '\n' :: s) = some s := by
  rcases hcr with rfl | rfl
  · have hlong : eatPrefix "---\r\n".toList (dashes ++ [] ++ '\n' :: s) = none := by
      show eatPrefix ('\r' :: ['\n']) ('\n' :: s) = none
      exact eatPrefix_ne (by decide)
    rw [opening, hlong]
    rfl
  · rfl

theorem trim_body (hcr : cr = [] ∨ cr = ['\r']) :
    jsTrim (String.ofList ((cr ++ '\n' :: body.toList).dropWhile jsSpace)) = jsTrim body := by
  have hspace : ∀ c ∈ cr ++ ['\n'], jsSpace c = true := by
    rcases hcr with rfl | rfl <;> exact List.all_eq_true.mp (by decide)
  have hsame : trim jsSpace ((cr ++ '\n' :: body.toList).dropWhile jsSpace) = trim jsSpace body.toList := by
    have hcons : cr ++ '\n' :: body.toList = cr ++ ['\n'] ++ body.toList := by
      rw [List.append_assoc, List.singleton_append]
    rw [trim_dropWhile, hcons, trim_prepend hspace]
  show String.ofList (trim jsSpace (String.ofList _).toList) = String.ofList (trim jsSpace body.toList)
  rw [String.toList_ofList, hsame]

theorem printed_toList (heol : eol.toList = cr ++ ['\n']) : (printed eol fields body).toList =
    dashes ++ cr ++ '\n' :: (((fields.flatMap Field.lines).map (· ++ cr)).flatMap (· ++ ['\n']) ++
      (dashes ++ (cr ++ '\n' :: body.toList))) := by
  have hlines : (fields.flatMap Field.lines).flatMap (· ++ eol.toList) =
      ((fields.flatMap Field.lines).map (· ++ cr)).flatMap (· ++ ['\n']) := by
    rw [List.flatMap_map, heol]
    simp only [List.append_assoc]
  rw [printed, String.toList_ofList, hlines, heol]
  simp only [List.append_assoc, List.cons_append, List.nil_append]

theorem parse_printed (hcr : cr = [] ∨ cr = ['\r']) (heol : eol.toList = cr ++ ['\n']) (hne : fields ≠ [])
    (hnodup : (fields.map (·.1)).Nodup) (hfs : ∀ f ∈ fields, Field.Proper f) :
    parseAgentDefFile (printed eol fields body) = (fields.map fun f => (f.1, f.2.text), jsTrim body) := by
  have hall : ∀ c ∈ cr, c = '\r' := by
    rcases hcr with rfl | rfl
    · exact fun c hc => absurd hc List.not_mem_nil
    · exact fun c hc => List.mem_singleton.mp hc
  have hunfenced : ∀ x ∈ (fields.flatMap Field.lines).map (· ++ cr), Unfenced x :=
    fun x hx => unfenced_lines hall hfs hx
  have hlines : (fields.flatMap Field.lines).map (· ++ cr) ≠ [] := by
    obtain ⟨f, rest, rfl⟩ := List.exists_cons_of_ne_nil hne
    exact List.cons_ne_nil _ _
  have hsplit := splitFence_lines hlines hunfenced (eatPrefix_append (s := cr ++ '\n' :: body.toList) dashes)
  have hfields := parseFields_holds ((holds_lines hall hfs).chompLast fun f hf => (hfs f hf).2) hfs [] hnodup
  rw [parseAgentDefFile, printed_toList heol, opening_fence hcr, Option.bind_some, hsplit]
  dsimp only
  rw [splitOn_chompLast hlines fun x hx => (hunfenced x hx).1, hfields, trim_body hcr, List.nil_append]

theorem splitFence_eq_some (h : splitFence s = some (block, rest)) :
    ∃ front, s = front ++ '\n' :: (dashes ++ rest) := by
  have heat : ∀ (cs : Line) {s : Line}, eatPrefix cs s = some rest → s = cs ++ rest := by
    intro cs
    induction cs with
    | nil =>
      intro s h
      exact Option.some.inj h
    | cons c cs ih =>
      intro s h
      cases s with
      | nil => cases h
      | cons d s =>
        rw [eatPrefix] at h
        split at h
        · next heq => rw [heq, ih h, List.cons_append]
        · cases h
  induction s generalizing block with
  | nil => cases h
  | cons c s ih =>
    rw [splitFence] at h
    cases hclosing : closing (c :: s) with
    | some rest' =>
      rw [hclosing] at h
      cases h
      rw [closing, Option.or_eq_some_iff] at hclosing
      rcases hclosing with hlong | ⟨-, hshort⟩
      · exact ⟨['\r'], heat _ hlong⟩
      · exact ⟨[], heat _ hshort⟩
    | none =>
      rw [hclosing] at h
      obtain ⟨⟨block', rest'⟩, hs, hp⟩ := Option.map_eq_some_iff.mp h
      cases hp
      obtain ⟨front, hfront⟩ := ih hs
      exact ⟨c :: front, by rw [hfront, List.cons_append]⟩

/-- With no fields the closing fence is not found, or one in the body is taken for it. -/
theorem parse_unprinted (hcr : cr = [] ∨ cr = ['\r']) (heol : eol.toList = cr ++ ['\n']) :
    (parseAgentDefFile (printed eol [] body)).2 ≠ jsTrim body := by
  have hlonger : ∀ {front : Line} {text body' : String}, '-' ∈ front → text.toList = front ++ body'.toList →
      jsTrim text ≠ jsTrim body' := by
    intro front text body' hdash htext heq
    have htrim : strip text.toList = strip body'.toList := String.ofList_injective heq
    have hlt : (strip body'.toList).length < (strip (front ++ body'.toList)).length := trim_length_lt hdash (by decide)
    rw [← htext, htrim] at hlt
    exact absurd hlt (Nat.lt_irrefl _)
  rw [parseAgentDefFile, printed_toList heol, opening_fence hcr, Option.bind_some]
  simp only [List.flatMap_nil, List.map_nil, List.nil_append]
  cases hsplit : splitFence (dashes ++ (cr ++ '\n' :: body.toList)) with
  | none =>
    have hdash : '-' ∈ dashes ++ cr ++ '\n' :: (dashes ++ cr ++ ['\n']) :=
      List.mem_append_left _ (List.mem_append_left _ (by decide))
    refine hlonger hdash ?_
    · rw [printed_toList heol]
      simp only [List.flatMap_nil, List.map_nil, List.nil_append, List.append_assoc, List.cons_append]
  | some p =>
    obtain ⟨block, rest⟩ := p
    obtain ⟨front, hfront⟩ := splitFence_eq_some hsplit
    have hinside : ∃ before, '-' ∈ before ∧ body.toList = before ++ rest := by
      have hcut : (dashes ++ cr ++ ['\n']) ++ body.toList = (front ++ ['\n']) ++ (dashes ++ rest) := by
        simpa only [List.append_assoc, List.singleton_append] using hfront
      rcases List.append_eq_append_iff.mp hcut with ⟨as, -, hbody⟩ | ⟨bs, hhead, hbody⟩
      · exact ⟨as ++ dashes, List.mem_append_right _ (by decide), by rw [hbody, List.append_assoc]⟩
      · rcases List.eq_nil_or_concat' bs with rfl | ⟨bs, c, rfl⟩
        · exact ⟨dashes, by decide, hbody.symm⟩
        · rw [← List.append_assoc] at hhead
          have hbreak : '\n' ∈ dashes ++ cr := by
            rw [(List.append_inj' hhead rfl).1]
            exact List.mem_append_left _ (List.mem_append_right _ (List.mem_singleton_self _))
          rcases hcr with rfl | rfl <;> exact absurd hbreak (by decide)
    obtain ⟨before, hdash, hbody⟩ := hinside
    have hrest : jsTrim (String.ofList (rest.dropWhile jsSpace)) = jsTrim (String.ofList rest) := by
      show String.ofList (trim jsSpace (String.ofList _).toList) =
          String.ofList (trim jsSpace (String.ofList rest).toList)
      rw [String.toList_ofList, String.toList_ofList, trim_dropWhile]
    dsimp only
    rw [hrest]
    exact (hlonger hdash (by rw [hbody, String.toList_ofList])).symm

end

theorem definition_parses_iff (eol : String) (heol : eol = "\n" ∨ eol = "\r\n") (fields : List Field)
    (hnodup : (fields.map (·.1)).Nodup) (hproper : ∀ f ∈ fields, Field.Proper f) (body : String) :
    parseAgentDefFile (printed eol fields body) = (fields.map fun f => (f.1, f.2.text), jsTrim body) ↔ fields ≠ [] := by
  obtain ⟨cr, hcr, heol⟩ : ∃ cr : Line, (cr = [] ∨ cr = ['\r']) ∧ eol.toList = cr ++ ['\n'] := by
    rcases heol with rfl | rfl
    · exact ⟨[], .inl rfl, rfl⟩
    · exact ⟨['\r'], .inr rfl, rfl⟩
  constructor
  · rintro hparse rfl
    exact parse_unprinted hcr heol (congrArg Prod.snd hparse)
  · exact fun hne => parse_printed hcr heol hne hnodup hproper

def reviewer : List Field :=
  [("name", .bare "reviewer"), ("model", .quoted '"' "opus: 5"),
    ("description", .block "|" ["  Reads the diff.", "  --- twice ---"])]

theorem definition_parses_reviewer : parseAgentDefFile (printed "\r\n" reviewer "Be brief.\n---\nmodel: none\n") =
    (reviewer.map fun f => (f.1, f.2.text), jsTrim "Be brief.\n---\nmodel: none\n") := by
  refine (definition_parses_iff "\r\n" (.inr rfl) reviewer (by decide) ?_ _).mpr (List.cons_ne_nil _ _)
  intro f hf
  simp only [reviewer, List.mem_cons, List.not_mem_nil, or_false] at hf
  rcases hf with rfl | rfl | rfl
  · exact ⟨List.all_eq_true.mp (by decide), by decide, by decide, by decide, by decide⟩
  · exact ⟨List.all_eq_true.mp (by decide), .inl rfl, by decide⟩
  · refine ⟨List.all_eq_true.mp (by decide), by decide, fun line hline => ?_, by decide⟩
    simp only [List.mem_cons, List.not_mem_nil, or_false] at hline
    rcases hline with rfl | rfl <;> exact ⟨by decide, by decide, by decide⟩

/-- No fields: the fences become part of the instructions. -/
theorem definition_misread_empty : printed "\n" [] "You review diffs." = "---\n---\nYou review diffs." ∧
    parseAgentDefFile (printed "\n" [] "You review diffs.") ≠ ([], jsTrim "You review diffs.") := by
  refine ⟨by decide, fun h => ?_⟩
  exact parse_unprinted (.inl rfl) rfl (congrArg Prod.snd h)

end Cyberlegion.Definition
