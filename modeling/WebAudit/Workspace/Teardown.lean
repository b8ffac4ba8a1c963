import WebAudit.Lib.FileTree

/-!
# The teardown of a workspace

`workspace/teardown.ts`, with `workspacePathFor` and `createScanWorkspace`, on a tree of files with symbolic links. `destroyScanWorkspace` asks
whether the path it was given, as its names say, is below the real path of the base directory, and then removes what the path
leads to.

## The model

Paths are absolute; one that is not is taken from a working directory that is not named through links. `locked` are the entries that
cannot be removed, however often it is tried, and `db` says whether the database, if one is given, takes the write.
-/

namespace WebAudit.Workspace.Disk

open WebAudit.Lib

/-! ### The code -/

abbrev Path := List (PathStep String)

abbrev Files := FileTree String

/-- `/^[A-Za-z0-9_-]{1,64}$/`. -/
def isScanId (scanId : String) : Bool :=
  let letters := scanId.toList
  1 ≤ letters.length && letters.length ≤ 64 && letters.all fun c => c.isAlphanum || c = '_' || c = '-'

/-- `join`. -/
def join (path : Path) (name : String) : Path := pathOf (lexical path ++ [name])

/-- `none`: it throws a `WorkspaceEscapeError`. -/
def workspacePathFor (baseDir : Path) (scanId : String) : Option Path := if isScanId scanId then some (join baseDir scanId) else none

/-- A scan's row, and the disk. -/
structure Store where
  files : Files
  workspacePath : Option Path

/-- `mkdir` with `recursive`, and whether it made a directory; the last name of the path comes first. -/
def mkdirRecursive (files : Files) : List String → Except Errno (Files × Bool)
  | [] => .ok (files, false)
  | name :: parents =>
    match files.mkdir (pathOf parents.reverse) name with
    | .ok files' => .ok (files', true)
    | .error .missing =>
      match mkdirRecursive files parents with
      | .error e => .error e
      | .ok (files', _) => (files'.mkdir (pathOf parents.reverse) name).map fun files'' => (files'', true)
    | .error e =>
      match files.realpath (pathOf (name :: parents).reverse) with
      | .ok location => if files.at? location = some .directory then .ok (files, false) else .error e
      | .error e' => .error e'

/-- The path, and whether it was there already; `none`: it throws. -/
def createScanWorkspace (baseDir : Path) (scanId : String) (s : Store) : Option (Path × Bool × Store) :=
  match workspacePathFor baseDir scanId with
  | none => none
  | some path =>
    match mkdirRecursive s.files (lexical path).reverse with
    | .error _ => none
    | .ok (files, created) => some (path, !created, ⟨files, some path⟩)

def isMissing (e : Errno) : Bool := e = .missing || e = .notDirectory

/-- The text of `relative` begins with `..`. -/
def dots (name : String) : Bool := name.toList.take 2 = ['.', '.']

/-- `relative(from, to)`, unless it begins with `..`. -/
def relative (start location : List String) : Option (List String) :=
  if start <+: location ∧ (location.drop start.length).head?.any dots = false then some (location.drop start.length) else none

def isInsideBase (files : Files) (baseDir candidate : Path) : Bool :=
  match files.realpath baseDir with
  | .error _ => false
  | .ok baseReal =>
    if ((relative baseReal (lexical candidate)).any (· ≠ [])) = false then false
    else
      match files.realpath (pathOf (lexical candidate).dropLast) with
      | .ok parentReal => (relative baseReal parentReal).isSome
      | .error e => isMissing e

inductive TeardownRefusal where
  | OUTSIDE_BASE
  | BAD_SCAN_ID
  deriving DecidableEq

inductive TeardownError where
  | scanId
  /-- `refused to destroy …`. -/
  | refused (path baseDir : Path)
  | removal (path : Path) (e : Errno)
  /-- The write of `workspacePath`. -/
  | clearing
  deriving DecidableEq

structure TeardownOutcome where
  path : Option Path
  destroyed : Bool
  alreadyGone : Bool
  refused : Option TeardownRefusal
  errors : List TeardownError
  deriving DecidableEq

structure TeardownOptions where
  baseDir : Path
  scanId : String
  path : Option Path := none

/-- What the calls meet. -/
structure Surroundings where
  locked : List String → Bool
  db : Option Bool

/-- An answer of the disk, which is the same each time. -/
def withRetry (files : Files) : Except Errno Files → Except Errno Files
  | .ok files' => .ok files'
  | .error e => if isMissing e then .ok files else .error e

/-- What is left, and the errors, once the call has its answer. -/
def settled (files : Files) (path : Path) (errors : List TeardownError) : Except Errno Files → Files × List TeardownError
  | .ok files' => (files', errors)
  | .error e => (files, errors ++ [.removal path e])

def removeEntry (locked : List String → Bool) : ℕ → Path → Files → Files × List TeardownError
  | 0, _, files => (files, [])
  | fuel + 1, path, files =>
    match files.entry path with
    | .error e => if isMissing e then (files, []) else (files, [.removal path e])
    | .ok location =>
      match files.at? location with
      | some (.link _ _) =>
        match withRetry files (files.unlink locked path) with
        | .ok files' => (files', [])
        | .error _ => settled files path [] (withRetry files (files.rmdir locked path))
      | some .directory =>
        match files.readdir path with
        | .error e => if isMissing e then (files, []) else (files, [.removal path e])
        | .ok names =>
          let (files', errors) := names.foldl (fun r name =>
            let (files', errors) := removeEntry locked fuel (join path name) r.1
            (files', r.2 ++ errors)) (files, [])
          settled files' path errors (withRetry files' (files'.rmdir locked path))
      | _ => settled files path [] (withRetry files (files.unlink locked path))

def pathExists (files : Files) (path : Path) : Bool := (files.entry path).toOption.isSome

def destroyScanWorkspace (around : Surroundings) (options : TeardownOptions) (s : Store) : TeardownOutcome × Store :=
  match options.path <|> workspacePathFor options.baseDir options.scanId with
  | none => (⟨none, false, false, some .BAD_SCAN_ID, [.scanId]⟩, s)
  | some path =>
    if isInsideBase s.files options.baseDir path = false then
      (⟨some path, false, false, some .OUTSIDE_BASE, [.refused path options.baseDir]⟩, s)
    else
      let existed := pathExists s.files path
      let (files, errors) := if existed then removeEntry around.locked (s.files.height + 1) path s.files else (s.files, [])
      let destroyed := errors = [] && !pathExists files path
      if destroyed = true then
        match around.db with
        | none => (⟨some path, true, !existed, none, errors⟩, ⟨files, s.workspacePath⟩)
        | some true => (⟨some path, true, !existed, none, errors⟩, ⟨files, none⟩)
        | some false => (⟨some path, true, !existed, none, errors ++ [.clearing]⟩, ⟨files, s.workspacePath⟩)
      else (⟨some path, false, !existed, none, errors⟩, ⟨files, s.workspacePath⟩)

/-! ### What removal leaves -/

/-- Something there, or below, cannot be removed. -/
def Held (locked : List String → Bool) (t : Files) (location : List String) : Prop :=
  ∃ l, location <+: l ∧ (t.at? l).isSome = true ∧ locked l = true

/-- Of the entries in question all are gone but those that are held; nothing else has changed. -/
structure Pruned (locked : List String → Bool) (under : List String → Prop) (t t' : Files) : Prop where
  gone : ∀ l, under l → ¬ Held locked t l → t'.at? l = none
  kept : ∀ l, ¬ under l ∨ Held locked t l → t'.at? l = t.at? l

section Pruning

variable {locked : List String → Bool} {under under' : List String → Prop} {t t' t'' base : Files} {location : List String}

theorem Held.above {l l' : List String} (hle : l <+: l') (h : Held locked t l') : Held locked t l := by
  obtain ⟨y, hy, hthere, hlocked⟩ := h
  exact ⟨y, hle.trans hy, hthere, hlocked⟩

theorem Pruned.at?_of_isSome (h : Pruned locked under t t') (hs : (t'.at? location).isSome = true) : t'.at? location = t.at? location := by
  refine h.kept location ?_
  by_contra hn
  obtain ⟨hunder, hheld⟩ := not_or.mp hn
  rw [h.gone location (not_not.mp hunder) hheld] at hs
  cases hs

theorem Pruned.isSome (h : Pruned locked under t t') (hs : (t'.at? location).isSome = true) : (t.at? location).isSome = true := by
  rw [← h.at?_of_isSome hs]
  exact hs

/-- What is held stays so. -/
theorem Pruned.held_iff (h : Pruned locked under t t') : Held locked t' location ↔ Held locked t location := by
  constructor
  · rintro ⟨l, hle, hthere, hlocked⟩
    exact ⟨l, hle, h.isSome hthere, hlocked⟩
  · rintro ⟨l, hle, hthere, hlocked⟩
    refine ⟨l, hle, ?_, hlocked⟩
    rw [h.kept l (.inr ⟨l, List.prefix_rfl, hthere, hlocked⟩)]
    exact hthere

theorem Pruned.trans (h : Pruned locked under t t') (h' : Pruned locked under' t' t'') : Pruned locked (fun l => under l ∨ under' l) t t'' := by
  refine ⟨fun l hunder hheld => ?_, fun l hl => ?_⟩
  · by_cases h₁ : under' l
    · exact h'.gone l h₁ fun hh => hheld (h.held_iff.mp hh)
    · rw [h'.kept l (.inl h₁)]
      exact h.gone l (hunder.resolve_right h₁) hheld
  · rcases hl with hnot | hheld
    · obtain ⟨h₁, h₂⟩ := not_or.mp hnot
      rw [h'.kept l (.inl h₂), h.kept l (.inl h₁)]
    · rw [h'.kept l (.inr (h.held_iff.mpr hheld)), h.kept l (.inr hheld)]

/-- Only what is there matters. -/
theorem Pruned.congr (h : Pruned locked under t t') (hsub : ∀ l, (t.at? l).isSome = true → ¬ Held locked t l → (under l ↔ under' l)) :
    Pruned locked under' t t' := by
  have hnone {l : List String} (hl : (t.at? l).isSome ≠ true) : t'.at? l = t.at? l := by
    rcases hl' : t'.at? l with _ | k
    · rw [Option.not_isSome_iff_eq_none.mp hl]
    · rw [← hl']
      exact h.at?_of_isSome (by rw [hl']; rfl)
  refine ⟨fun l hunder hheld => ?_, fun l hl => ?_⟩
  · by_cases hthere : (t.at? l).isSome = true
    · exact h.gone l ((hsub l hthere hheld).mpr hunder) hheld
    · rw [hnone hthere, Option.not_isSome_iff_eq_none.mp hthere]
  · by_cases hheld : Held locked t l
    · exact h.kept l (.inr hheld)
    · by_cases hthere : (t.at? l).isSome = true
      · exact h.kept l (.inl fun hu => (hl.resolve_right hheld) ((hsub l hthere hheld).mp hu))
      · exact hnone hthere

/-- Nothing of it is there, or all that is there is held. -/
theorem Pruned.refl (h : ∀ l, under l → (t.at? l).isSome = true → Held locked t l) : Pruned locked under t t := by
  refine ⟨fun l hunder hheld => ?_, fun _ _ => rfl⟩
  by_contra hthere
  exact hheld (h l hunder (Option.isSome_iff_ne_none.mpr hthere))

theorem Pruned.within (h : Pruned locked under t t') (hbase : base.Within t) (hfresh : ∀ l, under l → base.at? l = none) : base.Within t' := by
  intro l kind hl
  rw [h.kept l (.inl fun hu => ?_)]
  · exact hbase l kind hl
  · rw [hfresh l hu] at hl
    cases hl

/-- One entry is removed, with nothing below it. -/
theorem pruned_remove (hne : location ≠ []) (hfree : ¬ Held locked t location) : Pruned locked (· = location) t (t.remove location) := by
  refine ⟨fun l hl _ => ?_, fun l hl => ?_⟩
  · rw [FileTree.at?_remove hne, if_pos hl]
  · rw [FileTree.at?_remove hne, if_neg]
    rintro rfl
    exact hl.elim (fun h => h rfl) hfree

end Pruning

/-! ### Removal -/

section Removal

variable {locked : List String → Bool} {base t : Files} {b B r : List String} {n : String} {fuel : ℕ}

/-- The tree while a workspace is removed: the base directory is where it was, and the way to the entry leads over directories. -/
structure Underway (base : Files) (b B r : List String) (t : Files) : Prop where
  wellFormed : t.WellFormed
  within : base.Within t
  leads : base.Leads (pathOf b) B
  directories : ∀ s, s <+: r → t.at? (B ++ s) = some .directory

theorem Underway.leads' (h : Underway base b B r t) : t.Leads (pathOf (b ++ r)) (B ++ r) := by
  rw [pathOf_append]
  exact (h.within.leads h.leads).append h.directories

theorem lexical_name : lexical (pathOf (b ++ r) ++ [.name n]) = b ++ (r ++ [n]) := by
  have h : pathOf (b ++ r) ++ [PathStep.name n] = pathOf (b ++ (r ++ [n])) := by
    rw [← List.append_assoc, pathOf_append (b ++ r)]
    rfl
  rw [h, lexical_pathOf]

theorem join_name (m : String) : join (pathOf (b ++ r) ++ [.name n]) m = pathOf (b ++ (r ++ [n])) ++ [.name m] := by
  unfold join
  rw [lexical_name, pathOf_append]
  rfl

/-- What `rmdir` comes to, once what can be removed below is gone. -/
theorem rmdir_eq (h : Underway base b B r t) (hdir : t.at? (B ++ r ++ [n]) = some .directory) :
    t.rmdir locked (pathOf (b ++ r) ++ [.name n]) =
      if locked (B ++ r ++ [n]) then .error .denied
      else if t.names (B ++ r ++ [n]) ≠ [] then .error .notEmpty
      else .ok (t.remove (B ++ r ++ [n])) := by
  unfold FileTree.rmdir
  rw [FileTree.trimmed_concat, List.getLast?_concat]
  dsimp only
  rw [FileTree.entry_of_leads h.leads', hdir]
  dsimp only [Option.isSome_some]
  rw [if_pos rfl]
  dsimp only
  rw [hdir]
  simp

theorem rmdir_locked (h : Underway base b B r t) (hthere : (t.at? (B ++ r ++ [n])).isSome = true) (hlocked : locked (B ++ r ++ [n]) = true) :
    t.rmdir locked (pathOf (b ++ r) ++ [.name n]) = .error .denied := by
  unfold FileTree.rmdir
  rw [FileTree.trimmed_concat, List.getLast?_concat]
  dsimp only
  rw [FileTree.entry_of_leads h.leads', if_pos hthere]
  exact if_pos hlocked

theorem unlink_eq (h : Underway base b B r t) {kind : EntryKind String} (hkind : t.at? (B ++ r ++ [n]) = some kind) (hne : kind ≠ .directory) :
    t.unlink locked (pathOf (b ++ r) ++ [.name n]) =
      if locked (B ++ r ++ [n]) then .error .denied else .ok (t.remove (B ++ r ++ [n])) := by
  unfold FileTree.unlink
  rw [FileTree.entry_of_leads h.leads', hkind]
  dsimp only [Option.isSome_some]
  rw [if_pos rfl]
  dsimp only
  rw [hkind, if_neg (fun heq => hne (Option.some.inj heq))]

/-- What removal of an entry comes to: what can be removed is gone, and there are errors where something is held. -/
structure Comes (locked : List String → Bool) (place : List String) (t : Files) (r : Files × List TeardownError) : Prop where
  pruned : Pruned locked (place <+: ·) t r.1
  wellFormed : r.1.WellFormed
  errors : r.2 = [] ↔ ¬ Held locked t place

/-- Nothing is there. -/
theorem Comes.missing {place : List String} (ht : t.WellFormed) (hnone : t.at? place = none) : Comes locked place t (t, []) := by
  have hnot {l : List String} (hle : place <+: l) : (t.at? l).isSome ≠ true := by
    rw [ht.none_below hnone hle]
    exact nofun
  refine ⟨.refl fun l hle hthere => absurd hthere (hnot hle), ht, fun _ ⟨l, hle, hthere, _⟩ => hnot hle hthere, fun _ => rfl⟩

/-- An entry without anything below it. -/
theorem Comes.leaf (locked : List String → Bool) (e : TeardownError) {place : List String} (ht : t.WellFormed) (hne : place ≠ []) (hthere : (t.at? place).isSome = true)
    (hkind : t.at? place ≠ some .directory) : Comes locked place t (if locked place then (t, [e]) else (t.remove place, [])) := by
  have honly {l : List String} (hle : place <+: l) (hl : (t.at? l).isSome = true) : l = place := by
    by_contra hneq
    exact hkind (ht.directory hl hle fun heq => hneq heq.symm)
  split
  · rename_i hlocked
    have hheld : Held locked t place := ⟨place, List.prefix_rfl, hthere, hlocked⟩
    exact ⟨.refl fun l hle hl => honly hle hl ▸ hheld, ht, fun h => (nomatch h), fun h => absurd hheld h⟩
  · rename_i hlocked
    have hfree : ¬ Held locked t place := by
      rintro ⟨l, hle, hl, hlocked'⟩
      rw [honly hle hl] at hlocked'
      exact hlocked hlocked'
    refine ⟨(pruned_remove hne hfree).congr fun l hl _ => ⟨fun heq => heq ▸ List.prefix_rfl, fun hle => honly hle hl⟩,
      ht.remove hne (ht.names_eq_nil hkind), fun _ => hfree, fun _ => rfl⟩

theorem Underway.into (h : Underway base b B r t) (hdir : t.at? (B ++ r ++ [n]) = some .directory) : Underway base b B (r ++ [n]) t := by
  refine ⟨h.wellFormed, h.within, h.leads, fun s hs => ?_⟩
  rcases List.prefix_concat_iff.mp hs with rfl | hs
  · rwa [List.append_assoc] at hdir
  · exact h.directories s hs

/-- Nothing below is deeper than that. -/
def Shallow (fuel : ℕ) (place : List String) (t : Files) : Prop :=
  ∀ l, (t.at? l).isSome = true → place <+: l → l.length < place.length + fuel

theorem Shallow.child {place : List String} (h : Shallow (fuel + 1) place t) (m : String) : Shallow fuel (place ++ [m]) t := by
  intro l hl hle
  have := h l hl ((List.prefix_append place [m]).trans hle)
  rw [List.length_append, List.length_singleton]
  omega

/-- One entry of a directory after the other. -/
theorem removeAll_comes (remove : String → Files → Files × List TeardownError)
    (hremove : ∀ m t, Underway base b B r t → Shallow fuel (B ++ r) t → Comes locked (B ++ r ++ [m]) t (remove m t))
    (hfresh : ∀ l, B ++ r <+: l → base.at? l = none) (h : Underway base b B r t) (hs : Shallow fuel (B ++ r) t) (names : List String)
    (errors : List TeardownError) :
    let out := names.foldl (fun s m => ((remove m s.1).1, s.2 ++ (remove m s.1).2)) (t, errors)
    Pruned locked (fun l => ∃ m ∈ names, B ++ r ++ [m] <+: l) t out.1 ∧ out.1.WellFormed ∧ Underway base b B r out.1 ∧
      (out.2 = [] ↔ errors = [] ∧ ∀ m ∈ names, ¬ Held locked t (B ++ r ++ [m])) := by
  induction names generalizing t errors with
  | nil =>
    refine ⟨.refl fun l hl => ?_, h.wellFormed, h, ?_⟩
    · obtain ⟨m, hm, -⟩ := hl
      cases hm
    · exact ⟨fun he => ⟨he, nofun⟩, fun he => he.1⟩
  | cons m names ih =>
    obtain ⟨hpruned, hwell, herrors⟩ := hremove m t h hs
    have hunder : Underway base b B r (remove m t).1 := by
      refine ⟨hwell, hpruned.within h.within fun l hl => hfresh l ((List.prefix_append _ _).trans hl), h.leads, fun s hle => ?_⟩
      rw [hpruned.kept _ (.inl fun hin => ?_)]
      · exact h.directories s hle
      · have h₁ := hin.length_le
        have h₂ := hle.length_le
        simp only [List.length_append, List.length_singleton] at h₁
        omega
    have hshallow : Shallow fuel (B ++ r) (remove m t).1 := fun l hl hle => hs l (hpruned.isSome hl) hle
    obtain ⟨hpruned', hwell', hunder', herrors'⟩ := ih hunder hshallow (errors ++ (remove m t).2)
    rw [List.foldl_cons]
    refine ⟨(hpruned.trans hpruned').congr fun l _ _ => ?_, hwell', hunder', ?_⟩
    · simp only [List.mem_cons, exists_eq_or_imp]
    · rw [herrors', List.append_eq_nil_iff, herrors, List.forall_mem_cons, and_assoc]
      refine and_congr_right fun _ => and_congr_right fun _ => forall₂_congr fun m' _ => ?_
      rw [hpruned.held_iff]

/-- A directory, once what can be removed in it is gone. -/
theorem rmdir_comes (h : Underway base b B r t) (hthere : (t.at? (B ++ r ++ [n])).isSome = true) {out : Files × List TeardownError}
    (hout : Underway base b B r out.1) (hdir : out.1.at? (B ++ r ++ [n]) = some .directory)
    (hpruned : Pruned locked (fun l => ∃ m ∈ t.names (B ++ r ++ [n]), B ++ r ++ [n] ++ [m] <+: l) t out.1)
    (herrors : out.2 = [] ↔ ∀ m ∈ t.names (B ++ r ++ [n]), ¬ Held locked t (B ++ r ++ [n] ++ [m])) :
    Comes locked (B ++ r ++ [n]) t (settled out.1 (pathOf (b ++ r) ++ [.name n]) out.2
      (withRetry out.1 (out.1.rmdir locked (pathOf (b ++ r) ++ [.name n])))) := by
  have hne : B ++ r ++ [n] ≠ [] := by simp
  rw [rmdir_eq hout hdir]
  -- what is below the directory is below one of its names
  have hbelow {l : List String} (hl : (t.at? l).isSome = true) (hle : B ++ r ++ [n] <+: l) (hneq : l ≠ B ++ r ++ [n]) :
      ∃ m ∈ t.names (B ++ r ++ [n]), B ++ r ++ [n] ++ [m] <+: l := by
    obtain ⟨tail, rfl⟩ := hle
    cases tail with
    | nil => exact absurd (List.append_nil _) hneq
    | cons m tail =>
      have hm : B ++ r ++ [n] ++ [m] <+: B ++ r ++ [n] ++ m :: tail := ⟨tail, by rw [List.append_assoc]; rfl⟩
      refine ⟨m, FileTree.mem_names_iff.mpr ?_, hm⟩
      by_cases heq : B ++ r ++ [n] ++ [m] = B ++ r ++ [n] ++ m :: tail
      · rw [heq]
        exact hl
      · rw [h.wellFormed.directory hl hm heq]
        rfl
  by_cases hheld : Held locked t (B ++ r ++ [n])
  · -- something stays, and so does the directory
    have hstay : ∃ e, withRetry out.1 (if locked (B ++ r ++ [n]) then .error .denied
        else if out.1.names (B ++ r ++ [n]) ≠ [] then .error .notEmpty else .ok (out.1.remove (B ++ r ++ [n]))) = .error e := by
      by_cases hlocked : locked (B ++ r ++ [n]) = true
      · exact ⟨.denied, by rw [if_pos hlocked]; rfl⟩
      · obtain ⟨y, hle, hy, hylocked⟩ := hheld
        obtain ⟨m, hm, hmle⟩ := hbelow hy hle fun heq => hlocked (heq ▸ hylocked)
        have hmem : m ∈ out.1.names (B ++ r ++ [n]) := by
          rw [FileTree.mem_names_iff, hpruned.kept _ (.inr ⟨y, hmle, hy, hylocked⟩)]
          exact FileTree.mem_names_iff.mp hm
        refine ⟨.notEmpty, ?_⟩
        rw [if_neg hlocked, if_pos (List.ne_nil_of_mem hmem)]
        rfl
    obtain ⟨e, he⟩ := hstay
    rw [he]
    refine ⟨hpruned.congr fun l hl hfree => ⟨fun ⟨m, _, hle⟩ => (List.prefix_append _ _).trans hle, fun hle => ?_⟩, hout.wellFormed,
      fun hnil => absurd hnil (by simp [settled]), fun hnot => absurd hheld hnot⟩
    exact hbelow hl hle fun heq => hfree (heq ▸ hheld)
  · have hfree : ∀ m ∈ t.names (B ++ r ++ [n]), ¬ Held locked t (B ++ r ++ [n] ++ [m]) := fun m _ hm =>
      hheld (hm.above (List.prefix_append _ _))
    have hunlocked : ¬ locked (B ++ r ++ [n]) = true := fun hlocked => hheld ⟨_, List.prefix_rfl, hthere, hlocked⟩
    have hempty : out.1.names (B ++ r ++ [n]) = [] := by
      rw [List.eq_nil_iff_forall_not_mem]
      intro m hm
      have hsome := FileTree.mem_names_iff.mp hm
      have hmem := FileTree.mem_names_iff.mpr (hpruned.isSome hsome)
      rw [hpruned.gone _ ⟨m, hmem, List.prefix_rfl⟩ (hfree m hmem)] at hsome
      cases hsome
    rw [if_neg hunlocked, if_neg (not_not.mpr hempty)]
    have hremoved := hpruned.trans (pruned_remove hne fun hh => hheld (hpruned.held_iff.mp hh))
    refine ⟨hremoved.congr fun l hl _ => ⟨?_, fun hle => ?_⟩, hout.wellFormed.remove hne hempty, fun _ => hheld, fun _ => herrors.mpr hfree⟩
    · rintro (⟨m, _, hle⟩ | rfl)
      · exact (List.prefix_append _ _).trans hle
      · exact List.prefix_rfl
    · by_cases heq : l = B ++ r ++ [n]
      · exact .inr heq
      · exact .inl (hbelow hl hle heq)

/-- **What removal of an entry comes to.** The recursion goes no deeper than the tree. -/
theorem removeEntry_comes (h : Underway base b B r t) (hfresh : ∀ l, B ++ r ++ [n] <+: l → base.at? l = none)
    (hfuel : Shallow fuel (B ++ r ++ [n]) t) :
    Comes locked (B ++ r ++ [n]) t (removeEntry locked fuel (pathOf (b ++ r) ++ [.name n]) t) := by
  have hne {r : List String} {n : String} : B ++ r ++ [n] ≠ [] := by simp
  induction fuel generalizing r n t with
  | zero =>
    refine .missing h.wellFormed ?_
    by_contra hthere
    have := hfuel _ (Option.isSome_iff_ne_none.mpr hthere) List.prefix_rfl
    omega
  | succ fuel ih =>
    unfold removeEntry
    rw [FileTree.entry_of_leads h.leads']
    rcases hkind : t.at? (B ++ r ++ [n]) with _ | kind
    · exact .missing h.wellFormed hkind
    · dsimp only [Option.isSome_some]
      rw [if_pos rfl]
      dsimp only
      rw [hkind]
      have hthere : (t.at? (B ++ r ++ [n])).isSome = true := by
        rw [hkind]
        rfl
      cases kind with
      | file =>
        have := Comes.leaf locked (.removal (pathOf (b ++ r) ++ [.name n]) .denied) h.wellFormed hne hthere
          (by rw [hkind]; exact nofun)
        dsimp only
        rw [unlink_eq h hkind nofun]
        by_cases hlocked : locked (B ++ r ++ [n]) = true
        · rw [if_pos hlocked] at this ⊢
          exact this
        · rw [if_neg hlocked] at this ⊢
          exact this
      | link absolute target =>
        have := Comes.leaf locked (.removal (pathOf (b ++ r) ++ [.name n]) .denied) h.wellFormed hne hthere
          (by rw [hkind]; exact nofun)
        dsimp only
        rw [unlink_eq h hkind nofun]
        by_cases hlocked : locked (B ++ r ++ [n]) = true
        · rw [if_pos hlocked] at this ⊢
          rw [rmdir_locked h hthere hlocked]
          exact this
        · rw [if_neg hlocked] at this ⊢
          exact this
      | directory =>
        have hinto := h.into hkind
        have hpath : pathOf (b ++ r) ++ [PathStep.name n] = pathOf (b ++ (r ++ [n])) := by
          rw [← List.append_assoc, pathOf_append (b ++ r)]
          rfl
        have hplace : B ++ r ++ [n] = B ++ (r ++ [n]) := List.append_assoc B r [n]
        have hreaddir : t.readdir (pathOf (b ++ r) ++ [.name n]) = .ok (t.names (B ++ r ++ [n])) := by
          rw [hpath, hplace]
          unfold FileTree.readdir
          rw [hinto.leads'.1]
          exact if_pos hinto.leads'.2
        have hall := removeAll_comes (fun m t => removeEntry locked fuel (join (pathOf (b ++ r) ++ [.name n]) m) t)
          (fun m t ht hs => by
            rw [join_name]
            exact ih ht (fun l hl => hfresh l (hplace ▸ (List.prefix_append _ _).trans hl)) (hs.child m))
          (fun l hl => hfresh l (hplace ▸ hl)) hinto (hplace ▸ hfuel) (t.names (B ++ r ++ [n])) []
        dsimp only
        rw [hreaddir]
        dsimp only
        generalize List.foldl _ _ _ = out at hall ⊢
        obtain ⟨hpruned, hwell, hunder, herrors⟩ := hall
        rw [← hplace] at hpruned herrors
        have hdir : out.1.at? (B ++ r ++ [n]) = some .directory := hplace ▸ hunder.directories _ List.prefix_rfl
        have hoverdirs : Underway base b B r out.1 :=
          ⟨hwell, hunder.within, hunder.leads, fun s hs => hunder.directories s (hs.trans (List.prefix_append r [n]))⟩
        exact rmdir_comes h hthere hoverdirs hdir hpruned (by rw [herrors, and_iff_right rfl])

end Removal

/-! ### Creation -/

section Creation

variable {files files' : Files} {baseDir path : Path} {scanId : String} {s s₁ : Store} {B : List String}

/-- The base directory is found without what is in the workspace. -/
def Apart (files : Files) (baseDir : Path) (scanId : String) (B : List String) : Prop :=
  ∃ base : Files, base.Within files ∧ base.Leads (pathOf (lexical baseDir)) B ∧ ∀ l, B ++ [scanId] <+: l → base.at? l = none

theorem mkdir_insert {name : String} (h : files.mkdir path name = .ok files') :
    ∃ place, files.Leads path place ∧ files.at? (place ++ [name]) = none ∧ files' = files.insert (place ++ [name]) .directory := by
  unfold FileTree.mkdir at h
  split at h
  · cases h
  · rename_i location hchild
    obtain ⟨place, rfl, hleads⟩ := FileTree.leads_of_child hchild
    split at h
    · cases h
    · rename_i hnone
      exact ⟨place, hleads, Option.not_isSome_iff_eq_none.mp hnone, (Except.ok.inj h).symm⟩

theorem wellFormed_mkdir {name : String} (hw : files.WellFormed) (h : files.mkdir path name = .ok files') : files'.WellFormed := by
  obtain ⟨place, hleads, hfresh, rfl⟩ := mkdir_insert h
  exact hw.insert hfresh hleads.2

/-- The tree stays well-formed, and where a directory is made the last one is. -/
theorem mkdirRecursive_made {names : List String} {created : Bool} (hw : files.WellFormed) (h : mkdirRecursive files names = .ok (files', created)) :
    files'.WellFormed ∧ (created = true → ∃ (base : Files) (name : String) (parents : List String), names = name :: parents ∧ base.WellFormed ∧
      base.mkdir (pathOf parents.reverse) name = .ok files') := by
  induction names generalizing files' created with
  | nil =>
    obtain ⟨rfl, rfl⟩ := Prod.mk.inj (Except.ok.inj h)
    exact ⟨hw, nofun⟩
  | cons name parents ih =>
    unfold mkdirRecursive at h
    split at h
    · rename_i made hmade
      obtain ⟨rfl, rfl⟩ := Prod.mk.inj (Except.ok.inj h)
      exact ⟨wellFormed_mkdir hw hmade, fun _ => ⟨files, name, parents, rfl, hw, hmade⟩⟩
    · split at h
      · cases h
      · rename_i above _ habove
        have hw' := (ih habove).1
        rcases hmade : above.mkdir (pathOf parents.reverse) name with e | made
        · rw [hmade] at h
          cases h
        · rw [hmade] at h
          obtain ⟨rfl, rfl⟩ := Prod.mk.inj (Except.ok.inj h)
          exact ⟨wellFormed_mkdir hw' hmade, fun _ => ⟨above, name, parents, rfl, hw', hmade⟩⟩
    · split at h
      · split at h
        · obtain ⟨rfl, rfl⟩ := Prod.mk.inj (Except.ok.inj h)
          exact ⟨hw, nofun⟩
        · cases h
      · cases h

/-- What creation answers. -/
theorem createScanWorkspace_cases {existing : Bool} (hw : s.files.WellFormed) (h : createScanWorkspace baseDir scanId s = some (path, existing, s₁)) :
    isScanId scanId = true ∧ path = join baseDir scanId ∧ s₁.files.WellFormed ∧
      (existing = false → ∃ B, Apart s₁.files baseDir scanId B) := by
  unfold createScanWorkspace workspacePathFor at h
  split at h
  · cases h
  · rename_i p hp
    split at hp
    · rename_i hid
      obtain rfl := Option.some.inj hp
      split at h
      · cases h
      · rename_i made created hmade
        obtain ⟨rfl, rfl, rfl⟩ := by simpa using h
        obtain ⟨hw', hlast⟩ := mkdirRecursive_made hw hmade
        refine ⟨hid, rfl, hw', fun hex => ?_⟩
        obtain ⟨base, name, parents, hnames, hbase, hmkdir⟩ := hlast (by simpa using hex)
        have hsplit : lexical (join baseDir scanId) = lexical baseDir ++ [scanId] := lexical_pathOf _
        rw [hsplit, List.reverse_concat] at hnames
        obtain ⟨rfl, rfl⟩ := List.cons.inj hnames
        obtain ⟨place, hleads, hfresh, rfl⟩ := mkdir_insert hmkdir
        rw [List.reverse_reverse] at hleads
        exact ⟨place, base, FileTree.within_insert hfresh, hleads, fun l hle => hbase.none_below hfresh hle⟩
    · cases hp

end Creation

/-! ### The confinement -/

section Confinement

variable {files files' : Files} {baseDir path : Path} {scanId : String} {B : List String}

theorem relative_eq_some_iff {start location rest : List String} :
    relative start location = some rest ↔ location = start ++ rest ∧ rest.head?.any dots = false := by
  unfold relative
  constructor
  · intro h
    split at h
    · rename_i hin
      obtain ⟨⟨tail, rfl⟩, hdots⟩ := hin
      obtain rfl := Option.some.inj h
      rw [List.drop_left] at hdots ⊢
      exact ⟨rfl, hdots⟩
    · cases h
  · rintro ⟨rfl, hdots⟩
    rw [List.drop_left, if_pos ⟨List.prefix_append _ _, hdots⟩]

/-- The real path of the base directory is on the way to the base directory as written, and to where that leads, and the name that follows it
does not begin with two dots. -/
def Accepted (files : Files) (baseDir : Path) (scanId : String) (B : List String) : Prop :=
  ∃ baseReal, files.realpath baseDir = .ok baseReal ∧
    (∃ name rest, lexical baseDir ++ [scanId] = baseReal ++ name :: rest ∧ dots name = false) ∧
    ∃ rest, B = baseReal ++ rest ∧ rest.head?.any dots = false

/-- **When the teardown of a workspace is not refused.** -/
theorem isInsideBase_join_iff (h : files.Leads (pathOf (lexical baseDir)) B) :
    isInsideBase files baseDir (join baseDir scanId) = true ↔ Accepted files baseDir scanId B := by
  have hsplit : lexical (join baseDir scanId) = lexical baseDir ++ [scanId] := lexical_pathOf _
  unfold isInsideBase Accepted
  rw [hsplit, List.dropLast_concat, h.1]
  rcases files.realpath baseDir with e | baseReal
  · simp
  · have hlexical : (relative baseReal (lexical baseDir ++ [scanId])).any (· ≠ []) = true ↔
        ∃ name rest, lexical baseDir ++ [scanId] = baseReal ++ name :: rest ∧ dots name = false := by
      rw [Option.any_eq_true]
      constructor
      · rintro ⟨rest, hrest, hne⟩
        obtain ⟨heq, hdots⟩ := relative_eq_some_iff.mp hrest
        cases rest with
        | nil => simp at hne
        | cons name rest => exact ⟨name, rest, heq, hdots⟩
      · rintro ⟨name, rest, heq, hdots⟩
        exact ⟨name :: rest, relative_eq_some_iff.mpr ⟨heq, hdots⟩, by simp⟩
    have hreal : (relative baseReal B).isSome = true ↔ ∃ rest, B = baseReal ++ rest ∧ rest.head?.any dots = false := by
      rw [Option.isSome_iff_exists]
      exact exists_congr fun _ => relative_eq_some_iff
    dsimp only
    split
    · rename_i hout
      refine ⟨nofun, ?_⟩
      rintro ⟨real, heq, hin, -⟩
      obtain rfl := Except.ok.inj heq
      rw [hlexical.mpr hin] at hout
      cases hout
    · rename_i hin
      rw [hreal]
      constructor
      · exact fun hr => ⟨baseReal, rfl, hlexical.mp (by simpa using hin), hr⟩
      · rintro ⟨real, heq, -, hr⟩
        obtain rfl := Except.ok.inj heq
        exact hr

end Confinement

/-! ### Teardown -/

section Teardown

variable {locked : List String → Bool} {around : Surroundings} {base files files' files'' : Files} {baseDir : Path} {scanId : String} {given : Option Path}
  {s s' : Store} {B W : List String}

/-- Whatever has been put into the workspace since; nothing else has changed. -/
structure Planted (W : List String) (files files' : Files) : Prop where
  wellFormed : files'.WellFormed
  elsewhere : ∀ l, ¬ W <+: l → files'.at? l = files.at? l

theorem Planted.refl (h : files.WellFormed) : Planted W files files := ⟨h, fun _ _ => rfl⟩

theorem Planted.insert {location : List String} {kind : EntryKind String} {name : String} (h : Planted W files files') (hle : W <+: location ++ [name])
    (hdir : files'.at? location = some .directory) (hfresh : files'.at? (location ++ [name]) = none) :
    Planted W files (files'.insert (location ++ [name]) kind) := by
  refine ⟨h.wellFormed.insert hfresh hdir, fun l hl => ?_⟩
  rw [FileTree.at?_insert hfresh, if_neg fun heq => ?_]
  · exact h.elsewhere l hl
  · rw [heq] at hl
    exact hl hle

/-- The tree as teardown finds it. -/
def Found (base : Files) (baseDir : Path) (scanId : String) (B : List String) (files : Files) : Prop :=
  Underway base (lexical baseDir) B [] files ∧ ∀ l, B ++ [scanId] <+: l → base.at? l = none

theorem Apart.found (h : Apart files baseDir scanId B) (hp : Planted (B ++ [scanId]) files files') : ∃ base, Found base baseDir scanId B files' := by
  obtain ⟨base, hwithin, hleads, hfresh⟩ := h
  have hin : base.Within files' := by
    intro l kind hl
    rw [hp.elsewhere l fun hle => ?_]
    · exact hwithin l kind hl
    · rw [hfresh l hle] at hl
      cases hl
  refine ⟨base, ⟨hp.wellFormed, hin, hleads, fun s hs => ?_⟩, hfresh⟩
  rw [List.prefix_nil.mp hs, List.append_nil]
  exact hin _ _ hleads.2

theorem Found.leads (h : Found base baseDir scanId B files) : files.Leads (pathOf (lexical baseDir)) B := h.1.within.leads h.1.leads

theorem Found.pruned (h : Found base baseDir scanId B files) (hw : files'.WellFormed) (hp : Pruned locked (B ++ [scanId] <+: ·) files files') :
    Found base baseDir scanId B files' := by
  have hin := hp.within h.1.within h.2
  refine ⟨⟨hw, hin, h.1.leads, fun s hs => ?_⟩, h.2⟩
  rw [List.prefix_nil.mp hs, List.append_nil]
  exact hin _ _ h.1.leads.2

theorem Found.pathExists (h : Found base baseDir scanId B files) : pathExists files (join baseDir scanId) = (files.at? (B ++ [scanId])).isSome := by
  unfold Disk.pathExists join
  rw [pathOf_append, show pathOf [scanId] = [PathStep.name scanId] from rfl, FileTree.entry_of_leads h.leads]
  cases files.at? (B ++ [scanId]) <;> rfl

theorem Found.removeEntry (h : Found base baseDir scanId B files) :
    Comes locked (B ++ [scanId]) files (removeEntry locked (files.height + 1) (join baseDir scanId) files) := by
  have hshallow : Shallow (files.height + 1) (B ++ [] ++ [scanId]) files := fun l hl _ => by
    have := FileTree.length_le_height hl
    omega
  have hcomes : Comes locked (B ++ [] ++ [scanId]) files _ := removeEntry_comes h.1 (fun l hl => h.2 l (List.append_nil B ▸ hl)) hshallow
  rw [List.append_nil, List.append_nil] at hcomes
  unfold join
  rw [pathOf_append]
  exact hcomes

theorem Comes.destroyed_iff {out : Files × List TeardownError} (h : Comes locked W files out) (hw : files.WellFormed) :
    out.2 = [] ∧ out.1.at? W = none ↔ out.1.at? W = none := by
  refine ⟨fun h => h.2, fun hnone => ⟨h.errors.mpr fun hheld => ?_, hnone⟩⟩
  rw [h.pruned.kept W (.inr hheld)] at hnone
  obtain ⟨l, hle, hthere, -⟩ := hheld
  rw [hw.none_below hnone hle] at hthere
  cases hthere

/-- What teardown comes to, unless it is refused. -/
structure TornDown (around : Surroundings) (W : List String) (s : Store) (out : TeardownOutcome × Store) : Prop where
  refused : out.1.refused = none
  pruned : Pruned around.locked (W <+: ·) s.files out.2.files
  wellFormed : out.2.files.WellFormed
  destroyed : out.1.destroyed = true ↔ out.2.files.at? W = none
  cleared : out.2.workspacePath = if out.1.destroyed = true ∧ around.db = some true then none else s.workspacePath

theorem Found.tornDown (h : Found base baseDir scanId B s.files) (hpath : (given <|> workspacePathFor baseDir scanId) = some (join baseDir scanId))
    (hin : isInsideBase s.files baseDir (join baseDir scanId) = true) :
    TornDown around (B ++ [scanId]) s (destroyScanWorkspace around ⟨baseDir, scanId, given⟩ s) := by
  have hcomes : Comes around.locked (B ++ [scanId]) s.files
      (if Disk.pathExists s.files (join baseDir scanId) then Disk.removeEntry around.locked (s.files.height + 1) (join baseDir scanId) s.files
        else (s.files, [])) := by
    rw [h.pathExists]
    split
    · exact h.removeEntry
    · rename_i hnone
      exact .missing h.1.wellFormed (Option.not_isSome_iff_eq_none.mp hnone)
  unfold destroyScanWorkspace
  dsimp only
  rw [hpath]
  dsimp only
  rw [if_neg (by rw [hin]; exact Bool.noConfusion)]
  generalize (if Disk.pathExists s.files (join baseDir scanId) = true then _ else _) = out at hcomes ⊢
  obtain ⟨files, errors⟩ := out
  dsimp only
  have hafter := h.pruned hcomes.wellFormed hcomes.pruned
  have hgone : (decide (errors = []) && !Disk.pathExists files (join baseDir scanId)) = true ↔ files.at? (B ++ [scanId]) = none := by
    rw [hafter.pathExists, ← hcomes.destroyed_iff h.1.wellFormed]
    simp
  split
  · rename_i hdestroyed
    rcases hdb : around.db with _ | _ | _
    · exact ⟨rfl, hcomes.pruned, hcomes.wellFormed, ⟨fun _ => hgone.mp hdestroyed, fun _ => rfl⟩, by simp [hdb]⟩
    · exact ⟨rfl, hcomes.pruned, hcomes.wellFormed, ⟨fun _ => hgone.mp hdestroyed, fun _ => rfl⟩, by simp [hdb]⟩
    · exact ⟨rfl, hcomes.pruned, hcomes.wellFormed, ⟨fun _ => hgone.mp hdestroyed, fun _ => rfl⟩, by simp [hdb]⟩
  · rename_i hleft
    exact ⟨rfl, hcomes.pruned, hcomes.wellFormed, ⟨nofun, fun hnone => absurd (hgone.mpr hnone) hleft⟩, by simp⟩

theorem destroyScanWorkspace_refused {path : Path} (hpath : (given <|> workspacePathFor baseDir scanId) = some path)
    (hout : isInsideBase s.files baseDir path = false) :
    destroyScanWorkspace around ⟨baseDir, scanId, given⟩ s =
      (⟨some path, false, false, some .OUTSIDE_BASE, [.refused path baseDir]⟩, s) := by
  unfold destroyScanWorkspace
  dsimp only
  rw [hpath]
  exact if_pos hout

/-- What has been removed once is not removed again. -/
theorem Pruned.again {under : List String → Prop} (h : Pruned locked under files files') (h' : Pruned locked under files' files'') (l : List String) :
    files''.at? l = files'.at? l := by
  rcases hl : files'.at? l with _ | kind
  · rcases hl'' : files''.at? l with _ | kind
    · rfl
    · rw [← h'.at?_of_isSome (by rw [hl'']; rfl), hl''] at hl
      cases hl
  · rw [← hl]
    refine h'.kept l ?_
    by_contra hn
    obtain ⟨hunder, hheld⟩ := not_or.mp hn
    rw [h.gone l (not_not.mp hunder) fun hh => hheld (h.held_iff.mpr hh)] at hl
    cases hl

/-- **A second teardown changes nothing.** -/
theorem TornDown.again (h : Found base baseDir scanId B s.files) (hpath : (given <|> workspacePathFor baseDir scanId) = some (join baseDir scanId))
    {out : TeardownOutcome × Store} (ht : TornDown around (B ++ [scanId]) s out) :
    let later := (destroyScanWorkspace around ⟨baseDir, scanId, given⟩ out.2).2
    (∀ l, later.files.at? l = out.2.files.at? l) ∧ later.workspacePath = out.2.workspacePath := by
  rcases hin : isInsideBase out.2.files baseDir (join baseDir scanId) with _ | _
  · rw [destroyScanWorkspace_refused hpath hin]
    exact ⟨fun _ => rfl, rfl⟩
  · have ht' : TornDown around _ _ _ := (h.pruned ht.wellFormed ht.pruned).tornDown hpath hin
    have hfiles := ht.pruned.again ht'.pruned
    have hdestroyed := ht'.destroyed
    rw [hfiles, ← ht.destroyed] at hdestroyed
    refine ⟨hfiles, ?_⟩
    rw [ht'.cleared]
    split
    · rename_i hcleared
      rw [ht.cleared, if_pos ⟨hdestroyed.mp hcleared.1, hcleared.2⟩]
    · rfl

end Teardown

/-! ### Confined and complete -/

section Confined

variable {around : Surroundings} {files : Files} {baseDir path : Path} {scanId : String} {s : Store}

/-- What a path names is below the base directory. -/
def Inside (files : Files) (baseDir path : Path) : Prop :=
  ∃ baseReal rest, files.realpath baseDir = .ok baseReal ∧ rest ≠ [] ∧ files.entry path = .ok (baseReal ++ rest)

/-- What is let through is inside the base directory, where its names lead to the same entry as the path. -/
theorem inside_of_isInsideBase {location : List String} (h : isInsideBase files baseDir path = true) (hentry : files.entry path = .ok location)
    (hnames : files.entry path = files.entry (pathOf (lexical path))) : Inside files baseDir path := by
  unfold isInsideBase at h
  split at h
  · cases h
  · rename_i baseReal hbase
    split at h
    · cases h
    · rename_i hin
      have hne : lexical path ≠ [] := by
        intro hnil
        rw [hnil] at hin
        refine hin ?_
        rw [Option.any_eq_false]
        intro rest hrest
        have heq := (relative_eq_some_iff.mp hrest).1
        simpa using (List.append_eq_nil_iff.mp heq.symm).2
      obtain ⟨names, last, hlast⟩ : ∃ names last, lexical path = names ++ [last] := ⟨_, _, (List.dropLast_append_getLast hne).symm⟩
      rw [hentry, hlast, pathOf_append] at hnames
      obtain ⟨place, rfl, hleads⟩ := FileTree.leads_of_entry hnames.symm
      rw [hlast, List.dropLast_concat, hleads.1] at h
      obtain ⟨rest, hrest⟩ := Option.isSome_iff_exists.mp h
      obtain ⟨rfl, -⟩ := relative_eq_some_iff.mp hrest
      exact ⟨baseReal, rest ++ [last], hbase, by simp, by rw [hentry, List.append_assoc]⟩

/-- A path that is not inside the base directory. -/
theorem destroyScanWorkspace_outside (hnames : files.entry path = files.entry (pathOf (lexical path))) (hout : ¬ Inside files baseDir path)
    (hs : s.files = files) : (destroyScanWorkspace around ⟨baseDir, scanId, some path⟩ s).2.files = files := by
  subst hs
  rcases hin : isInsideBase s.files baseDir path with _ | _
  · rw [destroyScanWorkspace_refused rfl hin]
  · have habsent : pathExists s.files path = false := by
      unfold Disk.pathExists
      rcases hentry : s.files.entry path with e | location
      · rfl
      · exact absurd (inside_of_isInsideBase hin hentry hnames) hout
    unfold destroyScanWorkspace
    dsimp only
    rw [show (some path <|> workspacePathFor baseDir scanId) = some path from rfl]
    dsimp only
    rw [if_neg (by rw [hin]; exact Bool.noConfusion), habsent]
    simp only [Bool.false_eq_true, if_false]
    split
    · split <;> rfl
    · rfl

/-- A workspace is torn down: not refused, with everything at its path and below gone that can be removed and nothing else, and once and for all. -/
def Torn (around : Surroundings) (options : TeardownOptions) (W : List String) (s : Store) : Prop :=
  let out := destroyScanWorkspace around options s
  let later := (destroyScanWorkspace around options out.2).2
  TornDown around W s out ∧ (∀ l, later.files.at? l = out.2.files.at? l) ∧ later.workspacePath = out.2.workspacePath

/-- **Teardown is confined and complete**, whatever has been put into the workspace, where the real path of the base directory is on the way to
the base directory as it is written; and a recorded path outside the base directory removes nothing, where its names lead to the same entry. -/
theorem teardown_confined (around : Surroundings) (baseDir : Path) (scanId : String) (s : Store) (hs : s.files.WellFormed) :
    (∀ path existing s₁, createScanWorkspace baseDir scanId s = some (path, existing, s₁) →
      (existing = true → ∃ B, Apart s₁.files baseDir scanId B) →
      ∃ B, path = join baseDir scanId ∧ s₁.files.Leads (pathOf (lexical baseDir)) B ∧
        ∀ s₂ given, Planted (B ++ [scanId]) s₁.files s₂.files → given = none ∨ given = some path →
          (Torn around ⟨baseDir, scanId, given⟩ (B ++ [scanId]) s₂ ↔ Accepted s₂.files baseDir scanId B)) ∧
      ∀ recorded, s.files.entry recorded = s.files.entry (pathOf (lexical recorded)) → ¬ Inside s.files baseDir recorded →
        (destroyScanWorkspace around ⟨baseDir, scanId, some recorded⟩ s).2.files = s.files := by
  refine ⟨fun path existing s₁ hc hex => ?_, fun recorded hnames hout => destroyScanWorkspace_outside hnames hout rfl⟩
  obtain ⟨hid, rfl, hw, hfresh⟩ := createScanWorkspace_cases hs hc
  have hapart : ∃ B, Apart s₁.files baseDir scanId B := by
    cases existing with
    | false => exact hfresh rfl
    | true => exact hex rfl
  obtain ⟨B, hB⟩ := hapart
  obtain ⟨_, hfound₁⟩ := hB.found (.refl hw)
  refine ⟨B, rfl, hfound₁.leads, fun s₂ given hp hgiven => ?_⟩
  obtain ⟨base, hfound⟩ := hB.found hp
  have hpath : (given <|> workspacePathFor baseDir scanId) = some (join baseDir scanId) := by
    rcases hgiven with rfl | rfl
    · exact if_pos hid
    · rfl
  rw [← isInsideBase_join_iff hfound.leads]
  constructor
  · rintro ⟨htorn, -⟩
    by_contra hin
    have hrefused := htorn.refused
    rw [destroyScanWorkspace_refused hpath (Bool.not_eq_true _ ▸ hin)] at hrefused
    cases hrefused
  · intro hin
    have htorn : TornDown around _ _ _ := hfound.tornDown hpath hin
    exact ⟨htorn, htorn.again hfound hpath⟩

/-- A workspace with a link out of it and a dangling one, below `/b`, and a recorded path elsewhere. -/
theorem teardown_confined_planted :
    let s : Store := ⟨⟨[(["b"], .directory), (["etc"], .directory), (["etc", "passwd"], .file)]⟩, none⟩
    let s₁ : Store := ⟨s.files.insert ["b", "s1"] .directory, some (pathOf ["b", "s1"])⟩
    let s₂ : Store := ⟨(((s₁.files.insert ["b", "s1", "src"] .directory).insert ["b", "s1", "src", "out"] (.link true (pathOf ["etc"]))).insert
      ["b", "s1", "gone"] (.link false (pathOf ["nowhere"]))), s₁.workspacePath⟩
    Torn ⟨fun _ => false, some true⟩ ⟨pathOf ["b"], "s1", none⟩ ["b", "s1"] s₂ ∧
      (destroyScanWorkspace ⟨fun _ => false, some true⟩ ⟨pathOf ["b"], "s1", some (pathOf ["etc"])⟩ s).2.files = s.files := by
  intro s s₁ s₂
  have hs : s.files.WellFormed := ⟨by decide, by decide⟩
  obtain ⟨htorn, hrecorded⟩ := teardown_confined ⟨fun _ => false, some true⟩ (pathOf ["b"]) "s1" s hs
  obtain ⟨B, -, hleads, htorn⟩ := htorn (pathOf ["b", "s1"]) false s₁ (by rfl) nofun
  obtain rfl : ["b"] = B := Except.ok.inj hleads.1
  have hp₁ : Planted ["b", "s1"] s₁.files s₁.files := .refl ⟨by decide, by decide⟩
  have hp₂ : Planted ["b", "s1"] s₁.files s₂.files := by
    have hsrc : Planted ["b", "s1"] s₁.files (s₁.files.insert (["b", "s1"] ++ ["src"]) .directory) := hp₁.insert ⟨["src"], rfl⟩ rfl rfl
    have hout : Planted ["b", "s1"] s₁.files (FileTree.insert _ (["b", "s1", "src"] ++ ["out"]) (.link true (pathOf ["etc"]))) :=
      hsrc.insert ⟨["src", "out"], rfl⟩ rfl rfl
    have hgone : Planted ["b", "s1"] s₁.files (FileTree.insert _ (["b", "s1"] ++ ["gone"]) (.link false (pathOf ["nowhere"]))) :=
      hout.insert ⟨["gone"], rfl⟩ rfl rfl
    exact hgone
  refine ⟨(htorn s₂ none hp₂ (.inl rfl)).mpr ⟨["b"], rfl, ⟨"s1", [], rfl, by decide⟩, [], rfl, rfl⟩, hrecorded _ rfl ?_⟩
  rintro ⟨baseReal, rest, hbase, -, hentry⟩
  obtain rfl : ["b"] = baseReal := Except.ok.inj hbase
  have : ["etc"] = ["b"] ++ rest := Except.ok.inj hentry
  simp at this

/-- Below a base directory that is named through a link nothing is torn down, and a recorded path that ends in a separator removes what is
behind the link before it. -/
theorem refused_through_link :
    (∃ path s₁, createScanWorkspace (pathOf ["l"]) "s1" ⟨⟨[(["b"], .directory), (["l"], .link true (pathOf ["b"]))]⟩, none⟩ = some (path, false, s₁) ∧
      ∀ given ∈ [none, some path], (destroyScanWorkspace ⟨fun _ => false, none⟩ ⟨pathOf ["l"], "s1", given⟩ s₁).1.refused = some .OUTSIDE_BASE) ∧
    let s : Store := ⟨⟨[(["b"], .directory), (["etc"], .directory), (["etc", "passwd"], .file), (["b", "l"], .link true (pathOf ["etc"]))]⟩, none⟩
    ¬ Inside s.files (pathOf ["b"]) (pathOf ["b", "l"] ++ [.empty]) ∧
      (destroyScanWorkspace ⟨fun _ => false, none⟩ ⟨pathOf ["b"], "s1", some (pathOf ["b", "l"] ++ [.empty])⟩ s).2.files.at? ["etc", "passwd"] = none := by
  refine ⟨⟨pathOf ["l", "s1"], ⟨⟨[(["b"], .directory), (["l"], .link true (pathOf ["b"])), (["b", "s1"], .directory)]⟩, some (pathOf ["l", "s1"])⟩,
    by rfl, by decide⟩, ?_, by decide⟩
  rintro ⟨baseReal, rest, hbase, -, hentry⟩
  obtain rfl : ["b"] = baseReal := Except.ok.inj hbase
  have : ["etc"] = ["b"] ++ rest := Except.ok.inj hentry
  simp at this

end Confined

end WebAudit.Workspace.Disk
