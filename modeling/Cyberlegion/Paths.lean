import Mathlib.Data.List.DropRight

/-!
# Ids and paths

`paths.ts`. A path is the list of its segments under the store root: an id that
passes `assertSafeId` is one segment, and `join` leaves such segments as they are.
The temporary name `<file>.<pid>.<n>.tmp` of an atomic write is a segment of its
own kind: it ends in `.tmp`, so it is none of the final names.
-/

namespace Cyberlegion

inductive Seg
  | name (s : String)
  | tmp (file : Seg) (pid n : Nat)
deriving DecidableEq

abbrev Path := List Seg

instance Path.lawfulBEq : LawfulBEq Path := inferInstance

structure InvalidIdError where
  kind : String
  value : String
deriving DecidableEq

def InvalidIdError.message (e : InvalidIdError) : String :=
  "invalid " ++ e.kind ++ " " ++ e.value.quote ++
    " — must not be empty, \".\", \"..\", or contain a path separator"

def unsafeChar (c : Char) : Bool := c = '\\' ∨ c = '/' ∨ c = Char.ofNat 0

def safeId (id : String) : Bool := id ≠ "" ∧ id ≠ "." ∧ id ≠ ".." ∧ ¬ id.toList.any unsafeChar

def assertSafeId (id kind : String) : Except InvalidIdError String :=
  if safeId id then .ok id else .error ⟨kind, id⟩

namespace paths

def inboxDir (id : String) : Except InvalidIdError Path := do
  return [.name "inbox", .name (← assertSafeId id "agent id")]

def inboxReadDir (id : String) : Except InvalidIdError Path := do
  return [.name "inbox", .name (← assertSafeId id "agent id"), .name "read"]

def messageFile (toId msgId : String) : Except InvalidIdError Path := do
  return (← inboxDir toId) ++ [.name ((← assertSafeId msgId "message id") ++ ".json")]

def messageReadFile (toId msgId : String) : Except InvalidIdError Path := do
  return (← inboxReadDir toId) ++ [.name ((← assertSafeId msgId "message id") ++ ".json")]

end paths

def asciiAlnum (c : Char) : Bool :=
  ('A' ≤ c ∧ c ≤ 'Z') ∨ ('a' ≤ c ∧ c ≤ 'z') ∨ ('0' ≤ c ∧ c ≤ '9')

-- the regular expression works on UTF-16 units: a character outside the BMP is two of them
def sanitizePane (pane : String) : String :=
  String.ofList <| pane.toList.flatMap fun c =>
    if asciiAlnum c ∨ c = '_' ∨ c = '-' then [c]
    else if c.toNat < 0x10000 then ['_'] else ['_', '_']

theorem sanitizePane_clean {pane : String} {c : Char} (hc : c ∈ (sanitizePane pane).toList) :
    asciiAlnum c ∨ c = '_' ∨ c = '-' := by
  simp only [sanitizePane, String.toList_ofList, List.mem_flatMap] at hc
  obtain ⟨d, -, hd⟩ := hc
  split at hd
  · next h => rw [List.mem_singleton.mp hd]; exact h
  · split at hd <;> simp at hd <;> exact .inr (.inl hd)

theorem safeId_append {x s : String} (hx : ¬ x.toList.any unsafeChar) (hs : ¬ s.toList.any unsafeChar)
    (hlen : 3 ≤ s.toList.length) : safeId (x ++ s) := by
  have hlong : 3 ≤ (x ++ s).toList.length := by
    rw [String.toList_append, List.length_append]
    omega
  have hshort : ∀ y : String, y.toList.length < 3 → x ++ s ≠ y := by
    intro y hy h
    rw [h] at hlong
    omega
  refine decide_eq_true ⟨hshort _ (by decide), hshort _ (by decide), hshort _ (by decide), ?_⟩
  rw [String.toList_append, List.any_append, Bool.or_eq_true, not_or]
  exact ⟨hx, hs⟩

theorem not_unsafe_of_safeId {x : String} (h : safeId x) : ¬ x.toList.any unsafeChar := (of_decide_eq_true h).2.2.2

theorem not_unsafe_of_clean {c : Char} (h : asciiAlnum c ∨ c = '_' ∨ c = '-') : unsafeChar c = false := by
  refine decide_eq_false fun hbad => ?_
  rcases hbad with rfl | rfl | rfl <;> revert h <;> decide

theorem sanitize_sanitize (pane : String) : sanitizePane (sanitizePane pane) = sanitizePane pane := by
  have hself : ∀ l : List Char, (∀ c ∈ l, asciiAlnum c ∨ c = '_' ∨ c = '-') → (l.flatMap fun c =>
      if asciiAlnum c ∨ c = '_' ∨ c = '-' then [c]
      else if c.toNat < 0x10000 then ['_'] else ['_', '_']) = l := by
    intro l hl
    induction l with
    | nil => rfl
    | cons c l ih =>
      rw [List.flatMap_cons, if_pos (hl c List.mem_cons_self), ih fun d hd => hl d (List.mem_cons_of_mem c hd)]
      rfl
  rw [sanitizePane, hself _ fun _ hc => sanitizePane_clean hc, String.ofList_toList]

/-! ## Strings and paths of the platform -/

/-- `s.slice(0, n)`. -/
def slice (s : String) (n : Nat) : String := String.ofList (s.toList.take n)

def includes (s sub : String) : Bool := s.toList.tails.any sub.toList.isPrefixOf

/-- `s.split(sep)[0]`. -/
def beforeChar (s : String) (sep : Char) : String := String.ofList (s.toList.takeWhile (· ≠ sep))

namespace path

def isAbsolute (s : String) : Bool := s.toList.head? = some '/'

def segments (s : String) : List (List Char) := (s.toList.splitOn '/').filter (· ≠ [])

def normalize (segs : List (List Char)) : List (List Char) :=
  segs.foldl (fun acc seg => if seg = ['.'] then acc else if seg = ['.', '.'] then acc.dropLast else acc ++ [seg]) []

def resolve (cwd s : String) : String :=
  let segs := normalize (if isAbsolute s then segments s else segments cwd ++ segments s)
  if segs = [] then "/" else String.ofList (segs.flatMap fun seg => '/' :: seg)

def basename (s : String) : String := String.ofList ((segments s).getLast?.getD [])

def dirname (s : String) : String :=
  match (s.toList.reverse.dropWhile (· = '/')).dropWhile (· ≠ '/') with
  | [] => if isAbsolute s then "/" else "."
  | [_] => "/"
  | _ :: r => String.ofList r.reverse

end path

/-- The characters `String.prototype.trim` removes. -/
def jsSpace (c : Char) : Bool :=
  (9 ≤ c.toNat ∧ c.toNat ≤ 13) ∨ (0x2000 ≤ c.toNat ∧ c.toNat ≤ 0x200A) ∨
    c.toNat ∈ [0x20, 0xA0, 0x1680, 0x2028, 0x2029, 0x202F, 0x205F, 0x3000, 0xFEFF]

def jsTrim (s : String) : String :=
  String.ofList ((s.toList.dropWhile jsSpace).reverse.dropWhile jsSpace).reverse

theorem jsTrim_jsTrim (s : String) : jsTrim (jsTrim s) = jsTrim s := by
  let d := s.toList.dropWhile jsSpace
  have hhead : (d.rdropWhile jsSpace).dropWhile jsSpace = d.rdropWhile jsSpace := by
    refine List.dropWhile_eq_self_iff.mpr fun hpos => ?_
    have hd : d.dropWhile jsSpace = d := List.dropWhile_idempotent jsSpace _
    have hpre : d.rdropWhile jsSpace <+: d := List.rdropWhile_prefix jsSpace d
    rw [hpre.getElem hpos]
    exact List.dropWhile_eq_self_iff.mp hd _
  have htrim : jsTrim s = String.ofList (d.rdropWhile jsSpace) := rfl
  rw [htrim, jsTrim, String.toList_ofList, hhead]
  exact congrArg String.ofList (List.rdropWhile_idempotent jsSpace d)

section
variable {box x y : String}

theorem messageFile_safe (hb : safeId box) (hx : safeId x) :
    paths.messageFile box x = .ok [.name "inbox", .name box, .name (x ++ ".json")] := by
  simp [paths.messageFile, paths.inboxDir, assertSafeId, hb, hx, bind, Except.bind, pure, Except.pure]

theorem messageReadFile_safe (hb : safeId box) (hx : safeId x) :
    paths.messageReadFile box x = .ok [.name "inbox", .name box, .name "read", .name (x ++ ".json")] := by
  simp [paths.messageReadFile, paths.inboxReadDir, assertSafeId, hb, hx, bind, Except.bind, pure, Except.pure]

theorem json_inj (h : x ++ ".json" = y ++ ".json") : x = y := by
  have h' := congrArg String.toList h
  simp only [String.toList_append, List.append_cancel_right_eq] at h'
  exact String.toList_inj.mp h'

theorem endsWith_json {f : String} : f.endsWith ".json" = true ↔ ∃ x, f = x ++ ".json" := by
  rw [← String.endsWith_toSlice, String.Slice.endsWith_string_iff, String.copy_toSlice]
  constructor
  · rintro ⟨l, hl⟩
    refine ⟨String.ofList l, String.toList_inj.mp ?_⟩
    rw [String.toList_append, String.toList_ofList, hl]
  · rintro ⟨x, rfl⟩
    rw [String.toList_append]
    exact List.suffix_append ..

theorem getLast_append {x s : String} (hs : s ≠ "") : (x ++ s).toList.getLast? = s.toList.getLast? := by
  rw [String.toList_append, List.getLast?_append_of_ne_nil]
  exact fun h => hs (String.toList_eq_nil_iff.mp h)

theorem json_ne_read (x : String) : x ++ ".json" ≠ "read" := by
  intro h
  have hlast := congrArg (fun s : String => s.toList.getLast?) h
  rw [getLast_append (by decide)] at hlast
  revert hlast; decide

end

end Cyberlegion
