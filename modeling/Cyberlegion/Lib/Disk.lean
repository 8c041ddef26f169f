import Cyberlegion.Lib.Table
import Mathlib.Data.List.Infix

/-!
# A disk

Files and directories by absolute path, a path being the list of its names. The
calls are those of a POSIX filesystem on one machine; the journal keeps every path
that a call has created or removed. Programs on a disk may throw, and `Yields` says
how one ends.
-/

abbrev AbsPath := List String

-- the instance is named, so that a test for membership holds no proof of its own
instance AbsPath.lawfulBEq : LawfulBEq AbsPath := inferInstance

structure Disk (δ : Type) where
  files : Table AbsPath δ
  dirs : List AbsPath
  journal : List AbsPath

inductive Errno
  | noEnt | isDir | notDir
deriving DecidableEq

namespace Disk

variable {δ : Type}

def has (d : Disk δ) (p : AbsPath) : Bool := (d.files.lookup p).isSome || decide (p ∈ d.dirs)

/-- The name under which `q` stands in the directory `p`. -/
def nameIn (p q : AbsPath) : Option String := if q.dropLast = p then q.getLast? else none

def names (d : Disk δ) (p : AbsPath) : List String := (d.files.keys ++ d.dirs).filterMap (nameIn p)

/-! ## The calls that change it -/

/-- `mkdir -p`: the missing ones of a path and its parents. -/
def mkdir (p : AbsPath) (d : Disk δ) : Except Errno (Disk δ) :=
  if ∀ q ∈ p.inits, d.files.lookup q = none then
    .ok { d with dirs := p.inits.filter (· ∉ d.dirs) ++ d.dirs }
  else .error .notDir

def write (p : AbsPath) (v : δ) (d : Disk δ) : Except Errno (Disk δ) :=
  if p ∈ d.dirs then .error .isDir
  else if p.dropLast ∈ d.dirs then .ok { d with files := d.files.insert p v }
  else .error .noEnt

/-- Of a file; one at `dest` is replaced. -/
def rename (src dest : AbsPath) (d : Disk δ) : Except Errno (Disk δ) :=
  match d.files.lookup src with
  | none => .error .noEnt
  | some v =>
    if dest ∈ d.dirs then .error .isDir
    else if dest.dropLast ∈ d.dirs then .ok { d with files := (d.files.erase src).insert dest v }
    else .error .noEnt

def remove (p : AbsPath) (d : Disk δ) : Except Errno (Disk δ) :=
  if p ∈ d.dirs then .error .isDir
  else if (d.files.lookup p).isSome then .ok { d with files := d.files.erase p }
  else .error .noEnt

/-- `rm -f`. -/
def removeForce (p : AbsPath) (d : Disk δ) : Except Errno (Disk δ) :=
  if p ∈ d.dirs then .error .isDir else .ok { d with files := d.files.erase p }

/-- `rm -rf`. -/
def removeTree (p : AbsPath) (d : Disk δ) : Except Errno (Disk δ) :=
  .ok { d with files := d.files.without fun q => p.isPrefixOf q, dirs := d.dirs.filter fun q => ¬ p.isPrefixOf q }

theorem nameIn_eq_some {p q : AbsPath} {f : String} : nameIn p q = some f ↔ q = p ++ [f] := by
  rw [nameIn]
  constructor
  · intro h
    by_cases hdir : q.dropLast = p
    · rw [if_pos hdir] at h
      rw [← hdir, List.dropLast_append_getLast? f h]
    · rw [if_neg hdir] at h; cases h
  · rintro rfl
    rw [List.dropLast_concat, if_pos rfl, List.getLast?_concat]

theorem mem_filterMap_nameIn {p : AbsPath} {f : String} {l : List AbsPath} :
    f ∈ l.filterMap (nameIn p) ↔ p ++ [f] ∈ l := by
  rw [List.mem_filterMap]
  constructor
  · rintro ⟨q, hq, hf⟩
    rw [← nameIn_eq_some.mp hf]
    exact hq
  · exact fun h => ⟨_, h, nameIn_eq_some.mpr rfl⟩

theorem nodup_filterMap_nameIn {p : AbsPath} {l : List AbsPath} (h : l.Nodup) : (l.filterMap (nameIn p)).Nodup :=
  h.filterMap fun _ _ _ hq hq' => (nameIn_eq_some.mp hq).trans (nameIn_eq_some.mp hq').symm

/-! ## The journal -/

def changed (d d' : Disk δ) : List AbsPath :=
  (d.files.keys ++ d.dirs ++ (d'.files.keys ++ d'.dirs)).filter fun p => d.has p ≠ d'.has p

def note (d d' : Disk δ) : Disk δ := { d' with journal := changed d d' ++ d.journal }

theorem has_iff {d : Disk δ} {p : AbsPath} : d.has p = true ↔ p ∈ d.files.keys ++ d.dirs := by
  rw [has, Bool.or_eq_true, decide_eq_true_iff, AList.lookup_isSome, AList.mem_keys, List.mem_append]

theorem mem_changed {d d' : Disk δ} {p : AbsPath} : p ∈ changed d d' ↔ d.has p ≠ d'.has p := by
  rw [changed, List.mem_filter, decide_eq_true_iff]
  refine and_iff_right_of_imp fun hne => ?_
  rw [List.mem_append, ← has_iff, ← has_iff]
  cases hd : d.has p
  · exact .inr (by cases hd' : d'.has p with | true => rfl | false => rw [hd, hd'] at hne; exact absurd rfl hne)
  · exact .inl rfl

theorem mem_note {d d' : Disk δ} {p : AbsPath} (hp : p ∈ (note d d').journal) :
    p ∈ d.journal ∨ d.has p ≠ d'.has p := by
  rcases List.mem_append.mp hp with h | h
  · exact .inr (mem_changed.mp h)
  · exact .inl h

theorem lookup_ne_of_has {d d' : Disk δ} {p : AbsPath} (hne : d.has p ≠ d'.has p)
    (hdirs : p ∈ d.dirs ↔ p ∈ d'.dirs) :
    d.files.lookup p ≠ d'.files.lookup p := by
  intro heq
  apply hne
  rw [has, has, heq, decide_eq_decide.mpr hdirs]

end Disk

/-! ## Programs on a disk -/

abbrev DiskM (δ ε : Type) := ExceptT ε (StateM (Disk δ))

namespace DiskM

section
variable {δ ε α β : Type}

def look (f : Disk δ → α) : DiskM δ ε α := f <$> get

/-- A call that changes the disk, noted in the journal. -/
def call (fault : Errno → ε) (f : Disk δ → Except Errno (Disk δ)) : DiskM δ ε Unit := do
  let d ← get
  match f d with
  | .ok d' => set (Disk.note d d')
  | .error e => throw (fault e)

def result (m : DiskM δ ε α) (d : Disk δ) : Except ε α × Disk δ := m.run d

def Yields (m : DiskM δ ε α) (Q : Except ε α → Disk δ → Prop) (d : Disk δ) : Prop :=
  Q (m.result d).1 (m.result d).2

variable {Q R : Except ε α → Disk δ → Prop} {d : Disk δ}

theorem yields_look {f : Disk δ → α} (h : Q (.ok (f d)) d) : Yields (look f) Q d := h

theorem Yields.mono {m : DiskM δ ε α} (hm : Yields m Q d) (h : ∀ r d', Q r d' → R r d') : Yields m R d := h _ _ hm

theorem result_bind {m : DiskM δ ε α} {f : α → DiskM δ ε β} :
    (m >>= f).result d = match m.result d with
      | (.ok a, d') => (f a).result d'
      | (.error e, d') => (.error e, d') := by
  have hstate : ∀ {γ γ' : Type} (x : StateM (Disk δ) γ) (g : γ → StateM (Disk δ) γ'),
      (x >>= g) d = g (x d).1 (x d).2 := fun _ _ => rfl
  rw [result, ExceptT.run_bind, hstate, result]
  rcases m.run d with ⟨r, d'⟩
  cases r <;> rfl

theorem yields_bind {m : DiskM δ ε α} {f : α → DiskM δ ε β} {Q : Except ε β → Disk δ → Prop}
    (h : Yields m (fun r d' => match r with
      | .ok a => Yields (f a) Q d'
      | .error e => Q (.error e) d') d) : Yields (m >>= f) Q d := by
  unfold Yields at h ⊢
  rw [result_bind]
  rcases hm : m.result d with ⟨r, d'⟩
  rw [hm] at h
  cases r <;> exact h

theorem yields_map {m : DiskM δ ε α} {f : α → β} {Q : Except ε β → Disk δ → Prop}
    (h : Yields m (fun r d' => Q (r.map f) d') d) : Yields (f <$> m) Q d := by
  rw [map_eq_pure_bind]
  refine yields_bind (h.mono fun r d' hQ => ?_)
  cases r <;> exact hQ

theorem yields_call {fault : Errno → ε} {f : Disk δ → Except Errno (Disk δ)} {d' : Disk δ}
    {Q : Except ε Unit → Disk δ → Prop} (hf : f d = .ok d') (h : Q (.ok ()) (Disk.note d d')) :
    Yields (call fault f) Q d := by
  have hrun : (call fault f).result d = (.ok (), Disk.note d d') := by
    rw [call, result_bind]
    show (match f d with | .ok d' => set (Disk.note d d') | .error e => throw (fault e) : DiskM δ ε Unit).result d = _
    rw [hf]
    rfl
  rw [Yields, hrun]
  exact h

theorem result_mapM {f : α → DiskM δ ε β} {g : α → Option β} {l : List α}
    (h : ∀ a ∈ l, ∃ b, g a = some b ∧ (f a).result d = (.ok b, d)) :
    (l.mapM f).result d = (.ok (l.filterMap g), d) := by
  induction l with
  | nil => rfl
  | cons a l ih =>
    obtain ⟨b, hg, hf⟩ := h a List.mem_cons_self
    rw [List.mapM_cons, result_bind, hf]
    show ((l.mapM f) >>= fun bs => pure (b :: bs) : DiskM δ ε (List β)).result d = _
    rw [result_bind, ih fun a' ha => h a' (List.mem_cons_of_mem a ha), List.filterMap_cons_some hg]
    rfl

end

end DiskM
