import Cyberlegion.Identity
import Cyberlegion.Lib.Text

/-!
# Projects

`project.ts`: a project is one git repository, filed under an id derived from its
common dir.
-/

namespace Cyberlegion

open Effects

def realOrResolved (ctx : Ctx) (p : String) : HubM String := do
  match ← perform (.realpathSync p) with
  | some real => return real
  | none => return path.resolve ctx.cwd p

def commonDirOf (ctx : Ctx) (dir : String) : HubM (Option String) := do
  match ← perform (.exec "git" ["-C", dir, "rev-parse", "--path-format=absolute", "--git-common-dir"]) with
  | none | some "" => return none
  | some out => some <$> realOrResolved ctx out

@[irreducible] def projectIdOf (ctx : Ctx) (commonDir : String) : String := "prj-" ++ slice (ctx.sha256 commonDir) 16

structure Checkout where
  root : String
  exact : Bool

def defaultCheckoutOf (ctx : Ctx) (dir commonDir : String) : HubM Checkout := do
  let gitDir ← perform (.exec "git" ["-C", dir, "rev-parse", "--path-format=absolute", "--git-dir"])
  let top ← perform (.exec "git" ["-C", dir, "rev-parse", "--show-toplevel"])
  match gitDir, top with
  | some gitDir, some top =>
    if gitDir ≠ "" ∧ top ≠ "" then
      if (← realOrResolved ctx gitDir) = commonDir then return ⟨← realOrResolved ctx top, true⟩
    return ⟨path.dirname commonDir, false⟩
  | _, _ => return ⟨path.dirname commonDir, false⟩

def registerProject (ctx : Ctx) (input : Option String) : HubM ProjectRecord := do
  let dir := path.resolve ctx.cwd (input.getD ctx.cwd)
  match ← commonDirOf ctx dir with
  | none => throw (.error s!"cannot register a project at \"{dir}\" — not inside a git repository")
  | some commonDir =>
    perform (.ensureMarker ctx.root)
    let id := projectIdOf ctx commonDir
    let existing ← Store.getProject id
    let checkout ← defaultCheckoutOf ctx dir commonDir
    let root := if checkout.exact then checkout.root else (existing.map (·.root)).getD checkout.root
    let registeredAt ← (match existing with
      | some rec => pure rec.registeredAt
      | none => nowIso)
    let rec_ : ProjectRecord := { id, name := path.basename root, root, commonDir, registeredAt }
    Store.putProject rec_
    return rec_

def looksLikePath (ref : String) : Bool :=
  path.isAbsolute ref ∨ ref.toList.head? = some '.' ∨ '/' ∈ ref.toList

def byPath (ctx : Ctx) (dir : String) : HubM ProjectRecord := do
  match ← commonDirOf ctx dir with
  | none => throw (.error s!"\"{dir}\" is not inside a git repository")
  | some commonDir =>
    match ← Store.getProject (projectIdOf ctx commonDir) with
    | some rec => return rec
    | none => registerProject ctx (some dir)

def resolveProject (ctx : Ctx) (ref : String) : HubM ProjectRecord := do
  match ← Store.getProject ref with
  | some byId => return byId
  | none =>
    let asPath := path.resolve ctx.cwd ref
    if looksLikePath ref then
      if ← perform (.isDirectory asPath) then return ← byPath ctx asPath
    match (← perform .listProjects).filter (·.name = ref) with
    | [named] => return named
    | [] =>
      if ← perform (.isDirectory asPath) then byPath ctx asPath
      else throw (.error (s!"no registered project \"{ref}\" (tried id, path, and name) — " ++
        "pass a path inside the repository to register it"))
    | named =>
      let all := ", ".intercalate (named.map fun p => p.id ++ " (" ++ p.root ++ ")")
      throw (.error s!"project name \"{ref}\" is ambiguous — {all}; pass an id or a path")

/-- The last way `resolveProject` tries a reference: the name of a registered project, or a path after all. -/
def byName (ctx : Ctx) (ref : String) : HubM ProjectRecord := do
  match (← perform .listProjects).filter (·.name = ref) with
  | [named] => return named
  | [] =>
    if ← perform (.isDirectory (path.resolve ctx.cwd ref)) then byPath ctx (path.resolve ctx.cwd ref)
    else throw (.error (s!"no registered project \"{ref}\" (tried id, path, and name) — " ++
      "pass a path inside the repository to register it"))
  | named =>
    let all := ", ".intercalate (named.map fun p => p.id ++ " (" ++ p.root ++ ")")
    throw (.error s!"project name \"{ref}\" is ambiguous — {all}; pass an id or a path")

/-! ## Resolved paths -/

namespace path

def Plain (segs : List (List Char)) : Prop :=
  ∀ seg ∈ segs, seg ≠ [] ∧ '/' ∉ seg ∧ seg ≠ ['.'] ∧ seg ≠ ['.', '.']

theorem plain_normalize {segs : List (List Char)} (h : ∀ seg ∈ segs, seg ≠ [] ∧ '/' ∉ seg) :
    Plain (normalize segs) := by
  have hfold : ∀ acc, Plain acc → Plain (segs.foldl (fun acc seg => if seg = ['.'] then acc
      else if seg = ['.', '.'] then acc.dropLast else acc ++ [seg]) acc) := by
    induction segs with
    | nil => exact fun acc hacc => hacc
    | cons seg segs ih =>
      intro acc hacc
      obtain ⟨hne, hslash⟩ := h seg List.mem_cons_self
      rw [List.foldl_cons]
      refine ih (fun seg' h' => h seg' (List.mem_cons_of_mem _ h')) _ ?_
      by_cases hdot : seg = ['.']
      · rw [if_pos hdot]; exact hacc
      · rw [if_neg hdot]
        by_cases hdots : seg = ['.', '.']
        · rw [if_pos hdots]; exact fun seg' h' => hacc seg' (List.dropLast_subset _ h')
        · rw [if_neg hdots]
          intro seg' h'
          rcases List.mem_append.mp h' with h' | h'
          · exact hacc seg' h'
          · rw [List.mem_singleton.mp h']
            exact ⟨hne, hslash, hdot, hdots⟩
  exact hfold [] fun _ h => absurd h List.not_mem_nil

theorem normalize_plain {segs : List (List Char)} (h : Plain segs) : normalize segs = segs := by
  have hfold : ∀ acc, segs.foldl (fun acc seg => if seg = ['.'] then acc
      else if seg = ['.', '.'] then acc.dropLast else acc ++ [seg]) acc = acc ++ segs := by
    induction segs with
    | nil => exact fun acc => (List.append_nil acc).symm
    | cons seg segs ih =>
      intro acc
      obtain ⟨-, -, hdot, hdots⟩ := h seg List.mem_cons_self
      rw [List.foldl_cons, if_neg hdot, if_neg hdots, ih fun seg' h' => h seg' (List.mem_cons_of_mem _ h'),
        List.append_assoc, List.singleton_append]
  exact hfold []

theorem mem_segments {s : String} : ∀ seg ∈ segments s, seg ≠ [] ∧ '/' ∉ seg := by
  intro seg hseg
  obtain ⟨hmem, hne⟩ := List.mem_filter.mp hseg
  exact ⟨of_decide_eq_true hne, Text.not_mem_splitOn hmem⟩

theorem segments_plain {segs : List (List Char)} (h : Plain segs) :
    segments (String.ofList (segs.flatMap fun seg => '/' :: seg)) = segs := by
  have hjoin : segs.flatMap (fun seg => '/' :: seg) = ['/'].intercalate ([] :: segs) := by
    induction segs with
    | nil => rfl
    | cons seg segs ih => 
      rw [List.flatMap_cons, ih fun seg' h' => h seg' (List.mem_cons_of_mem _ h')]
      cases segs <;> simp [List.intercalate]
  have hsplit : (['/'].intercalate ([] :: segs)).splitOn '/' = [] :: segs := by
    refine List.splitOn_intercalate '/' ?_ (List.cons_ne_nil _ _)
    intro seg hseg
    rcases List.mem_cons.mp hseg with rfl | hseg
    · exact List.not_mem_nil
    · exact (h seg hseg).2.1
  rw [segments, String.toList_ofList, hjoin, hsplit, List.filter_cons_of_neg (by simp), List.filter_eq_self]
  exact fun seg hseg => decide_eq_true (h seg hseg).1

theorem resolve_resolve {cwd s : String} : resolve cwd (resolve cwd s) = resolve cwd s := by
  have hplain : Plain (normalize (if isAbsolute s then segments s else segments cwd ++ segments s)) := by
    apply plain_normalize
    intro seg hseg
    split at hseg
    · exact mem_segments seg hseg
    · exact (List.mem_append.mp hseg).elim (mem_segments seg) (mem_segments seg)
  unfold resolve
  generalize normalize (if isAbsolute s then segments s else segments cwd ++ segments s) = segs at hplain
  simp only
  by_cases hsegs : segs = []
  · rw [if_pos hsegs, show isAbsolute "/" = true by decide, if_pos rfl]
    decide
  · rw [if_neg hsegs]
    have habs : isAbsolute (String.ofList (segs.flatMap fun seg => '/' :: seg)) = true := by
      obtain ⟨seg, rest, rfl⟩ := List.exists_cons_of_ne_nil hsegs
      rw [isAbsolute, String.toList_ofList]
      rfl
    rw [habs, if_pos rfl, segments_plain hplain, normalize_plain hplain, if_neg hsegs]

end path

/-! ## What resolving a project does -/

def ProjectCall : Call → Prop
  | .getProject _ | .listProjects | .putProject _ | .isDirectory _ | .exec _ _ | .realpathSync _
  | .ensureMarker _ | .now => True
  | _ => False

section
variable {ctx : Ctx}

theorem only_realOrResolved {p : String} : (realOrResolved ctx p).Only ProjectCall :=
  (only_perform trivial).bind fun r => by cases r <;> trivial

theorem only_commonDirOf {dir : String} : (commonDirOf ctx dir).Only ProjectCall := by
  refine (only_perform trivial).bind fun out => ?_
  split
  · trivial
  · trivial
  · exact only_realOrResolved.map

theorem only_defaultCheckoutOf {dir commonDir : String} : (defaultCheckoutOf ctx dir commonDir).Only ProjectCall := by
  refine (only_perform trivial).bind fun gitDir => (only_perform trivial).bind fun top => ?_
  split
  · split
    · refine only_realOrResolved.bind fun real => ?_
      split
      · exact only_realOrResolved.bind fun _ => trivial
      · trivial
    · trivial
  · trivial

theorem only_getProject {id : String} : (Store.getProject id).Only ProjectCall := by
  unfold Store.getProject
  split
  · exact only_perform trivial
  · trivial

theorem only_putProject {rec : ProjectRecord} : (Store.putProject rec).Only ProjectCall := by
  unfold Store.putProject
  split
  · exact only_perform trivial
  · trivial

theorem only_registerProject {input : Option String} : (registerProject ctx input).Only ProjectCall := by
  refine only_commonDirOf.bind fun commonDir => ?_
  split
  · trivial
  · refine (only_perform trivial).bind fun _ => only_getProject.bind fun existing =>
      only_defaultCheckoutOf.bind fun checkout => ?_
    have hat : (match existing with
        | some rec => pure rec.registeredAt
        | none => nowIso : HubM Int).Only ProjectCall := by
      cases existing
      · exact only_nowIso trivial
      · trivial
    exact hat.bind fun _ => only_putProject.bind fun _ => Prog.only_ret _

theorem only_byPath {dir : String} : (byPath ctx dir).Only ProjectCall := by
  refine only_commonDirOf.bind fun commonDir => ?_
  split
  · trivial
  · refine only_getProject.bind fun existing => ?_
    split
    · trivial
    · exact only_registerProject

theorem only_resolveProject {ref : String} : (resolveProject ctx ref).Only ProjectCall := by
  unfold resolveProject
  refine only_getProject.bind fun byId => ?_
  split
  · trivial
  · have hlist : ∀ named : HubM ProjectRecord, named.Only ProjectCall → (do
        if looksLikePath ref then
          if ← perform (.isDirectory (path.resolve ctx.cwd ref)) then
            return ← byPath ctx (path.resolve ctx.cwd ref)
        named : HubM ProjectRecord).Only ProjectCall := by
      intro named hnamed
      split
      · refine (only_perform trivial).bind fun isDir => ?_
        split
        · exact only_byPath
        · exact hnamed
      · exact hnamed
    apply hlist
    refine (only_perform trivial).bind fun projects => ?_
    split
    · trivial
    · refine (only_perform trivial).bind fun isDir => ?_
      split
      · exact only_byPath
      · trivial
    · trivial

theorem resolveProject_keeps {ref : String} {A : Call → Choice → Prop} {w : World} :
    Ends A (resolveProject ctx ref) (fun _ w' => ∃ projects, w' = { w with projects }) w := by
  refine wp_only only_resolveProject ?_ (fun _ _ _ _ => trivial) ⟨w.projects, rfl⟩
  rintro op c s r s' hop ⟨projects, rfl⟩ hr
  cases op with
  | putProject rec =>
    simp only [handle] at hr
    split at hr
    · cases hr; exact ⟨_, rfl⟩
    · cases hr
  | getProject _ | listProjects | isDirectory _ | exec _ _ | realpathSync _ | ensureMarker _ | now =>
    cases hr; exact ⟨projects, rfl⟩
  | _ => exact hop.elim

theorem getProject_finds {id : String} {A : Call → Choice → Prop} {w : World} : Ends A (Store.getProject id)
    (fun r w' => w' = w ∧ r = .ok (w.projects.get id)) w := by
  unfold Store.getProject
  split
  · exact ⟨trivial, fun _ _ _ _ hr => by cases hr; exact ⟨rfl, rfl⟩⟩
  · next hnot =>
    refine ends_pure ⟨rfl, congrArg Except.ok ?_⟩
    cases hget : w.projects.get id with
    | none => rfl
    | some project =>
      have hsafe := Filed.valid_of_get hget
      rw [Filed.key_of_get hget] at hsafe
      exact absurd hsafe hnot

end

end Cyberlegion
