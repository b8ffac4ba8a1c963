import Mathlib.Data.List.Dedup
import Mathlib.Data.List.Perm.Subperm
import WebAudit.Archive.Tree
import WebAudit.Intake.Entitlements
import WebAudit.Lib.Runs

/-!
# The source of a scan

`intake/materialise.ts`, with what it does to the scan's directory. The phase jobs of a scan and their redeliveries come
one after the other; each call of `materialiseSource` meets the directory as the call before it left it. A call may
throw at any step, and its process may die after any effect of the extraction: then what was done stays.

The directory counts as populated when it is not empty. Every source that is returned is the whole tree of the archive,
and the same one each time, in the runs in which no extraction is cut short without being taken back, and in which a
repository that was audited is not downloaded anew in another state (`sources_whole`).
-/

namespace WebAudit.Workspace

open WebAudit.Archive WebAudit.Intake WebAudit.Lib WebAudit.Lib.Uri

/-! ### The listing -/

structure CodeFile where
  path : Path
  sizeBytes : ℕ
  deriving DecidableEq

structure CodeTree where
  files : List CodeFile
  frameworks : List String
  deriving DecidableEq

/-- What the calls rely on. -/
structure Platform where
  /-- The path that `workspacePathFor` gives the scan. -/
  root : Path
  uploads : Text → Option Bytes
  inflate : Bytes → Stream
  race : Bytes → ℕ → Bool
  /-- The order in which a directory's names are read. -/
  order : List Text → List Text
  order_perm : ∀ names, (order names).Perm names
  /-- The names in `dependencies` and `devDependencies` of a `package.json`, none where it cannot be parsed. -/
  dependencyNames : Bytes → List Text

def skippedDirectories : List Text :=
  [".git", "node_modules", ".pnpm-store", "vendor", ".venv", "__pycache__", ".next/cache", ".turbo", ".cache"].map ascii

def maxListedFiles : ℕ := 20000

/-- The names in a directory. -/
def namesIn (tree : Tree) (dir : Path) : List Text :=
  (tree.filterMap fun entry => if dir <+: entry.1 then (entry.1.drop dir.length).head? else none).dedup

def Platform.readdir (p : Platform) (tree : Tree) (dir : Path) : List Text := p.order (namesIn tree dir)

def Platform.isEmptyDirectory (p : Platform) (tree : Tree) : Bool := (p.readdir tree p.root).length == 0

/-- The names of one directory: its files are listed, its directories join the queue. -/
def listDirectory (p : Platform) (tree : Tree) (dir : Path) (files : List CodeFile) (queue : List Path) :
    List Text → List CodeFile × List Path
  | [] => (files, queue)
  | name :: names =>
    if maxListedFiles ≤ files.length then (files, queue)
    else
      match tree.get (dir ++ [name]) with
      | some .dir =>
        if name ∈ skippedDirectories then listDirectory p tree dir files queue names
        else listDirectory p tree dir files (queue ++ [dir ++ [name]]) names
      | some (.file content) =>
        listDirectory p tree dir (files ++ [⟨(dir ++ [name]).drop p.root.length, content.length⟩]) queue names
      | none => listDirectory p tree dir files queue names

/-- The loop over the queue. -/
def walk (p : Platform) (tree : Tree) : ℕ → List CodeFile → List Path → List CodeFile
  | 0, files, _ => files
  | _ + 1, files, [] => files
  | fuel + 1, files, dir :: queue =>
    if files.length < maxListedFiles then
      let (files, queue) := listDirectory p tree dir files queue (p.readdir tree dir)
      walk p tree fuel files queue
    else files

def listFiles (p : Platform) (tree : Tree) : List CodeFile := walk p tree (tree.length + 1) [] [p.root]

/-- A dependency, and the framework it speaks for. -/
def dependencyFrameworks : List (String × String) :=
  [("next", "nextjs"), ("nuxt", "nuxt"), ("react", "react"), ("vue", "vue"), ("svelte", "svelte"), ("@angular/core", "angular"),
    ("astro", "astro"), ("tailwindcss", "tailwind"), ("express", "express")]

def detectFrameworks (p : Platform) (tree : Tree) (files : List CodeFile) : List String :=
  let has (path : String) : Bool := files.any fun file => file.path == [ascii path]
  let manifest := match tree.get (p.root ++ [ascii "package.json"]) with
    | some (.file content) => p.dependencyNames content
    | _ => []
  (if has "wp-config.php" then ["wordpress"] else []) ++ (if has "composer.json" then ["php"] else []) ++
    (if has "requirements.txt" || has "pyproject.toml" then ["python"] else []) ++ (if has "go.mod" then ["go"] else []) ++
    (if has "Gemfile" then ["ruby"] else []) ++
    if has "package.json" then
      "node" :: (dependencyFrameworks.filter fun pair => ascii pair.1 ∈ manifest).map Prod.snd
    else []

def codeTree (p : Platform) (tree : Tree) : CodeTree :=
  let files := listFiles p tree
  ⟨files, detectFrameworks p tree files⟩

/-! ### A call -/

structure Scan where
  inputType : InputType
  canonicalValue : Text

/-- How `createScanWorkspace` ends. -/
inductive Creation where
  /-- `mkdir` throws. -/
  | refused
  /-- The process dies with the directory made. -/
  | died
  /-- The row is not written: a directory that the call has made is removed, or that fails as well. -/
  | unrecorded (removed : Bool)
  | done
  deriving DecidableEq

inductive Interruption where
  | death
  /-- A step throws; in the middle of a file, the file is removed. -/
  | throw (inFile : Bool)
  deriving DecidableEq

/-- What a `destroy` gets done: a directory is removed once it is empty, and the removal may stop with only these paths
removed. -/
inductive Removal where
  | all
  | only (paths : List Path)
  deriving DecidableEq

/-- What happens to a call. -/
structure Call where
  creation : Creation
  /-- The directory can be read when it is checked for emptiness. -/
  readable : Bool
  /-- The upload's storage, the stored token and GitHub answer. -/
  available : Bool
  /-- The repository as GitHub sends it now. -/
  zipball : Bytes
  /-- After so many effects of the extraction. -/
  interruption : Option (ℕ × Interruption)
  removal : Removal
  deriving DecidableEq

/-- The tree afterwards, and whether the call goes on. -/
def createScanWorkspace (root : Path) (tree : Tree) : Creation → Tree × Bool
  | .refused => (tree, false)
  | .died => (if (tree.get root).isSome then tree else tree.put root .dir, false)
  | .unrecorded removed =>
    if (tree.get root).isSome then (tree, false) else (if removed then tree else tree.put root .dir, false)
  | .done => (if (tree.get root).isSome then tree else tree.put root .dir, true)

/-- `rmdir` refuses a directory that is not empty. -/
def removeEntry (root : Path) (tree : Tree) (path : Path) : Tree :=
  if root <+: path ∧ namesIn tree path = [] then tree.remove path else tree

def destroy (root : Path) (tree : Tree) : Removal → Tree
  | .all => tree.filter fun entry => !decide (root <+: entry.1)
  | .only paths => paths.foldl (removeEntry root) tree

/-- The bytes to extract. -/
def fetch (p : Platform) (scan : Scan) (call : Call) : Option Bytes :=
  if call.available then
    match scan.inputType with
    | .URL => none
    | .ARCHIVE => p.uploads scan.canonicalValue
    | .REPOSITORY => some call.zipball
  else none

/-- GitHub puts a directory around a repository. -/
def extraction (p : Platform) (scan : Scan) (bytes : Bytes) : Extraction where
  bytes := bytes
  limits := publishedLimits
  stripComponents := if scan.inputType = .REPOSITORY then 1 else 0
  inflate := p.inflate
  race := p.race bytes

inductive Ending where
  | complete
  | threw
  | died
  deriving DecidableEq

/-- What a step that throws leaves. -/
def caught (done : List Effect) (inFile : Bool) : List Effect :=
  match done.getLast? with
  | some (.create path) => if inFile then done ++ [.remove path] else done
  | some (.write _ path _) => if inFile then done ++ [.remove path] else done
  | _ => done

def extract (p : Platform) (scan : Scan) (bytes : Bytes) (tree : Tree) (interruption : Option (ℕ × Interruption)) : Tree × Ending :=
  let (disk, answer) := extractArchive (extraction p scan bytes) p.root (tree.fs p.root)
  match interruption with
  | none => (tree.replay disk.log, if answer.toBool then .complete else .threw)
  | some (effects, .death) => (tree.replay (disk.log.take effects), .died)
  | some (effects, .throw inFile) => (tree.replay (caught (disk.log.take effects) inFile), .threw)

/-- What a call leaves, what it has fetched, and the source that it returns. -/
structure Result where
  tree : Tree
  fetched : Option Bytes
  code : Option CodeTree

def materialiseSource (p : Platform) (scan : Scan) (call : Call) (tree : Tree) : Result :=
  if scan.inputType = .URL then ⟨tree, none, none⟩
  else
    match createScanWorkspace p.root tree call.creation with
    | (tree, false) => ⟨tree, none, none⟩
    | (tree, true) =>
      if p.isEmptyDirectory tree || !call.readable then
        match fetch p scan call with
        | none => ⟨destroy p.root tree call.removal, none, none⟩
        | some bytes =>
          match extract p scan bytes tree call.interruption with
          | (tree, .complete) => ⟨tree, some bytes, some (codeTree p tree)⟩
          | (tree, .threw) => ⟨destroy p.root tree call.removal, some bytes, none⟩
          | (tree, .died) => ⟨tree, some bytes, none⟩
      else ⟨tree, none, some (codeTree p tree)⟩

/-! ### The calls of a scan -/

structure State where
  tree : Tree
  /-- What has been fetched, in order. -/
  fetched : List Bytes
  returned : List CodeTree

def State.start : State := ⟨[], [], []⟩

def next (p : Platform) (scan : Scan) (s : State) (call : Call) : State :=
  let result := materialiseSource p scan call s.tree
  ⟨result.tree, s.fetched ++ result.fetched.toList, s.returned ++ result.code.toList⟩

def step (p : Platform) (scan : Scan) (s : State) (call : Call) (s' : State) : Prop := next p scan s call = s'

/-- An archive that can be extracted, and the tree it is extracted to. -/
def Accepted (p : Platform) (scan : Scan) (bytes : Bytes) : Prop :=
  (extractArchive (extraction p scan bytes) p.root (Tree.fs p.root [(p.root, .dir)])).2.toBool = true

def whole (p : Platform) (scan : Scan) (bytes : Bytes) : Tree :=
  Tree.replay [(p.root, .dir)] (extractArchive (extraction p scan bytes) p.root (Tree.fs p.root [(p.root, .dir)])).1.log

/-- The archive of the scan: the upload, or a state of the repository that was fetched for it. -/
def IsSource (p : Platform) (scan : Scan) (s : State) (bytes : Bytes) : Prop :=
  bytes ∈ s.fetched ∧ (scan.inputType = .ARCHIVE → p.uploads scan.canonicalValue = some bytes)

/-- Every phase audits the same complete source. -/
def SameCompleteSource (p : Platform) (scan : Scan) (s : State) : Prop :=
  (∀ code ∈ s.returned, ∃ bytes, IsSource p scan s bytes ∧ Accepted p scan bytes ∧
    code.files = listFiles p (whole p scan bytes)) ∧
    ∀ code ∈ s.returned, ∀ code' ∈ s.returned, code.files = code'.files

/-- Neither does the process die between the first and the last effect of an extraction, nor is one that throws taken back
in part. -/
def uncut (p : Platform) (scan : Scan) (call : Call) (bytes : Bytes) : Bool :=
  match call.interruption with
  | none => call.removal == .all
  | some (0, _) => true
  | some (effects, .death) =>
    let (disk, answer) := extractArchive (extraction p scan bytes) p.root (Tree.fs p.root [(p.root, .dir)])
    answer.toBool && disk.log.length ≤ effects
  | some (_, .throw _) => call.removal == .all

/-- A call that goes on past the directory can read it unless it is empty. When it is, the extraction is not cut, and a
repository of which a source was returned is as it was fetched before. -/
def sound (p : Platform) (scan : Scan) (s : State) (call : Call) : Bool :=
  match createScanWorkspace p.root s.tree call.creation with
  | (_, false) => true
  | (tree, true) =>
    if p.isEmptyDirectory tree then
      match fetch p scan call with
      | none => true
      | some bytes => uncut p scan call bytes && (s.returned.isEmpty || s.fetched.getLast? == some bytes)
    else call.readable

/-! ### The directory between two calls -/

section Directory

variable {p : Platform} {scan : Scan} {tree rest : Tree} {bytes : Bytes} {fetched : List Bytes} {root : Path}

/-- It is not there, empty, or holds the whole of what was fetched last. -/
inductive Shape (p : Platform) (scan : Scan) (fetched : List Bytes) : Tree → Prop where
  | gone : Shape p scan fetched []
  | bare : Shape p scan fetched [(p.root, .dir)]
  | whole {bytes : Bytes} (hlast : fetched.getLast? = some bytes) (haccepted : Accepted p scan bytes) :
      Shape p scan fetched (whole p scan bytes)

theorem get_root : Archive.Tree.get ((root, .dir) :: rest) root = some .dir := by
  unfold Archive.Tree.get
  rw [List.find?_cons_of_pos (by simp)]
  rfl

theorem whole_root (p : Platform) (scan : Scan) (bytes : Bytes) :
    ∃ rest, whole p scan bytes = (p.root, .dir) :: rest ∧ ∀ entry ∈ rest, Below p.root entry.1 :=
  Tree.replay_root (Tree.replay_extractArchive _ get_root).2 fun _ h => (List.not_mem_nil h).elim

theorem namesIn_root (hrest : ∀ entry ∈ rest, Below root entry.1) (h : namesIn ((root, .dir) :: rest) root = []) : rest = [] := by
  unfold namesIn at h
  rw [List.dedup_eq_nil, List.filterMap_eq_nil_iff] at h
  refine List.eq_nil_iff_forall_not_mem.mpr fun entry hmem => ?_
  obtain ⟨r, hr, heq⟩ := hrest entry hmem
  have hname := h entry (List.mem_cons_of_mem _ hmem)
  rw [heq, if_pos (List.prefix_append root r), List.drop_left, List.head?_eq_none_iff] at hname
  exact hr hname

theorem isEmptyDirectory_iff : p.isEmptyDirectory tree = true ↔ namesIn tree p.root = [] := by
  unfold Platform.isEmptyDirectory Platform.readdir
  rw [beq_iff_eq, List.length_eq_zero_iff]
  constructor
  · intro h
    have hperm := p.order_perm (namesIn tree p.root)
    rw [h] at hperm
    exact hperm.symm.eq_nil
  · intro h
    have hperm := p.order_perm (namesIn tree p.root)
    rw [h] at hperm ⊢
    exact hperm.eq_nil

theorem destroy_all (hrest : ∀ entry ∈ rest, Below root entry.1) : destroy root ((root, .dir) :: rest) .all = [] := by
  unfold destroy
  refine List.filter_eq_nil_iff.mpr fun entry hmem => ?_
  rcases List.mem_cons.mp hmem with rfl | hmem
  · simp
  · obtain ⟨r, -, heq⟩ := hrest entry hmem
    rw [heq]
    simp

/-- Of an empty directory, there is nothing to leave behind. -/
theorem destroy_bare (removal : Removal) : destroy root [(root, .dir)] removal = [] ∨ destroy root [(root, .dir)] removal = [(root, .dir)] := by
  cases removal with
  | all => exact .inl (destroy_all fun _ h => (List.not_mem_nil h).elim)
  | only paths =>
    have hnil (paths : List Path) : paths.foldl (removeEntry root) [] = [] := by
      induction paths with
      | nil => rfl
      | cons path paths ih =>
        rw [List.foldl_cons]
        have hstep : removeEntry root [] path = [] := by
          unfold removeEntry
          split
          · rfl
          · rfl
        rw [hstep]
        exact ih
    unfold destroy
    dsimp only
    induction paths with
    | nil => exact .inr rfl
    | cons path paths ih =>
      rw [List.foldl_cons]
      have hstep : removeEntry root [(root, .dir)] path = [] ∨ removeEntry root [(root, .dir)] path = [(root, .dir)] := by
        unfold removeEntry Tree.remove
        split
        · by_cases heq : root = path
          · subst heq
            exact .inl (by simp)
          · exact .inr (by simp [heq])
        · exact .inr rfl
      rcases hstep with hstep | hstep
      · rw [hstep]
        exact .inl (hnil paths)
      · rw [hstep]
        exact ih

theorem Shape.destroy_bare (removal : Removal) : Shape p scan fetched (destroy p.root [(p.root, .dir)] removal) := by
  rcases @Workspace.destroy_bare p.root removal with hgone | hbare
  · rw [hgone]
    exact .gone
  · rw [hbare]
    exact .bare

theorem Shape.create (h : Shape p scan fetched tree) (creation : Creation) :
    Shape p scan fetched (createScanWorkspace p.root tree creation).1 := by
  have hput (tree : Tree) (h : Shape p scan fetched tree) :
      Shape p scan fetched (if (tree.get p.root).isSome then tree else tree.put p.root .dir) := by
    cases h with
    | gone => exact .bare
    | bare =>
      rw [get_root]
      exact .bare
    | @whole bytes hlast haccepted =>
      obtain ⟨rest, hwhole, -⟩ := whole_root p scan bytes
      have hroot : Archive.Tree.get (Workspace.whole p scan bytes) p.root = some .dir := by rw [hwhole, get_root]
      rw [hroot]
      exact .whole hlast haccepted
  cases creation with
  | refused => exact h
  | died => exact hput tree h
  | done => exact hput tree h
  | unrecorded removed =>
    have hmade := hput tree h
    unfold createScanWorkspace
    dsimp only
    split
    · exact h
    · rename_i hthere
      rw [if_neg hthere] at hmade
      cases removed with
      | true => exact h
      | false => exact hmade

/-- A directory that looks empty is. -/
theorem Shape.bare_of_empty (h : Shape p scan fetched tree) (hthere : tree ≠ []) (hempty : p.isEmptyDirectory tree = true) :
    tree = [(p.root, .dir)] := by
  cases h with
  | gone => exact absurd rfl hthere
  | bare => rfl
  | @whole bytes hlast haccepted =>
    obtain ⟨rest, hwhole, hrest⟩ := whole_root p scan bytes
    rw [hwhole] at hempty ⊢
    rw [namesIn_root hrest (isEmptyDirectory_iff.mp hempty)]

theorem Shape.empty_of_not_whole (h : Shape p scan fetched tree) (hthere : tree ≠ []) (hfull : p.isEmptyDirectory tree = false) :
    ∃ bytes, fetched.getLast? = some bytes ∧ Accepted p scan bytes ∧ tree = Workspace.whole p scan bytes := by
  cases h with
  | gone => exact absurd rfl hthere
  | bare =>
    have hbare : namesIn [(p.root, Node.dir)] p.root = [] := by simp [namesIn]
    rw [isEmptyDirectory_iff.mpr hbare] at hfull
    cases hfull
  | @whole bytes hlast haccepted => exact ⟨bytes, hlast, haccepted, rfl⟩

theorem created_ne_nil {creation : Creation} (h : createScanWorkspace p.root tree creation = (rest, true)) : rest ≠ [] := by
  cases creation with
  | done =>
    obtain ⟨rfl, -⟩ := Prod.mk.inj h
    split
    · rintro rfl
      rename_i hthere
      cases hthere
    · simp [Tree.put]
  | refused => cases (Prod.mk.inj h).2
  | died => cases (Prod.mk.inj h).2
  | unrecorded removed =>
    unfold createScanWorkspace at h
    dsimp only at h
    split at h
    · cases (Prod.mk.inj h).2
    · cases (Prod.mk.inj h).2

theorem caught_below {done : List Effect} {inFile : Bool} (h : ∀ op ∈ done, Below root op.path) :
    ∀ op ∈ caught done inFile, Below root op.path := by
  have hremove (path : Path) (hpath : Below root path) : ∀ op ∈ (if inFile then done ++ [.remove path] else done), Below root op.path := by
    intro op hop
    split at hop
    · rcases List.mem_append.mp hop with hop | hop
      · exact h op hop
      · rw [List.mem_singleton.mp hop]
        exact hpath
    · exact h op hop
  unfold caught
  split
  · rename_i path hlast
    exact hremove path (h _ (List.mem_of_getLast? hlast))
  · rename_i member path bytes hlast
    exact hremove path (h _ (List.mem_of_getLast? hlast))
  · exact h

/-- An extraction into the empty directory that is not cut: it is whole, or nothing of it stays. -/
theorem extract_uncut {call : Call} {ending : Ending} (huncut : uncut p scan call bytes = true)
    (h : extract p scan bytes [(p.root, .dir)] call.interruption = (tree, ending)) :
    (ending = .complete → Accepted p scan bytes ∧ tree = Workspace.whole p scan bytes) ∧
      (ending = .threw → Shape p scan (fetched ++ [bytes]) (destroy p.root tree call.removal)) ∧
      (ending = .died → Shape p scan (fetched ++ [bytes]) tree) := by
  have hthere : Archive.Tree.get [(p.root, Node.dir)] p.root = some .dir := get_root
  have hlog := (Tree.replay_extractArchive (extraction p scan bytes) hthere).2
  have hlast : (fetched ++ [bytes]).getLast? = some bytes := List.getLast?_concat
  have hdestroyed (log : List Effect) (h : ∀ op ∈ log, Below p.root op.path) :
      Shape p scan (fetched ++ [bytes]) (destroy p.root (Tree.replay [(p.root, .dir)] log) .all) := by
    obtain ⟨rest, hreplay, hrest⟩ := @Tree.replay_root p.root [] log h fun _ h => (List.not_mem_nil h).elim
    rw [hreplay, destroy_all hrest]
    exact .gone
  unfold extract at h
  unfold uncut at huncut
  cases hstop : call.interruption with
  | none =>
    rw [hstop] at h huncut
    obtain ⟨rfl, hending⟩ := Prod.mk.inj h
    rw [show call.removal = .all from beq_iff_eq.mp huncut]
    by_cases hok : Accepted p scan bytes
    · obtain rfl := (if_pos hok).symm.trans hending
      exact ⟨fun _ => ⟨hok, rfl⟩, fun h => (nomatch h), fun h => (nomatch h)⟩
    · obtain rfl := (if_neg hok).symm.trans hending
      exact ⟨fun h => (nomatch h), fun _ => hdestroyed _ hlog, fun h => (nomatch h)⟩
  | some stop =>
    obtain ⟨effects, interruption⟩ := stop
    rw [hstop] at h huncut
    cases interruption with
    | death =>
      obtain ⟨rfl, rfl⟩ := Prod.mk.inj h
      refine ⟨fun h => (nomatch h), fun h => (nomatch h), fun _ => ?_⟩
      cases effects with
      | zero => exact .bare
      | succ effects =>
        obtain ⟨haccepted, hlength⟩ := Bool.and_eq_true _ _ |>.mp huncut
        rw [List.take_of_length_le (decide_eq_true_eq.mp hlength)]
        exact .whole hlast haccepted
    | throw inFile =>
      obtain ⟨rfl, rfl⟩ := Prod.mk.inj h
      refine ⟨fun h => (nomatch h), fun _ => ?_, fun h => (nomatch h)⟩
      cases effects with
      | zero => exact Shape.destroy_bare call.removal
      | succ effects =>
        rw [show call.removal = .all from beq_iff_eq.mp huncut]
        exact hdestroyed _ (caught_below fun op hop => hlog op (List.mem_of_mem_take hop))

end Directory

/-! ### Every phase the same source -/

section Runs

variable {p : Platform} {scan : Scan} {s s' : State} {call : Call}

/-- What was returned is the whole of what was fetched last. -/
structure Kept (p : Platform) (scan : Scan) (s : State) : Prop where
  shape : Shape p scan s.fetched s.tree
  returned : ∀ code ∈ s.returned, ∃ bytes, s.fetched.getLast? = some bytes ∧ Accepted p scan bytes ∧
    code.files = listFiles p (whole p scan bytes)
  fetched : ∀ bytes ∈ s.fetched, scan.inputType = .ARCHIVE → p.uploads scan.canonicalValue = some bytes

/-- What a sound call comes to. -/
inductive Comes (p : Platform) (scan : Scan) (s : State) (call : Call) : Result → Prop where
  /-- Nothing is fetched and nothing returned. -/
  | nothing {tree : Tree} (hshape : Shape p scan s.fetched tree) : Comes p scan s call ⟨tree, none, none⟩
  /-- The directory is populated. -/
  | again {bytes : Bytes} (hlast : s.fetched.getLast? = some bytes) (haccepted : Accepted p scan bytes) :
      Comes p scan s call ⟨whole p scan bytes, none, some (codeTree p (whole p scan bytes))⟩
  | extracted {bytes : Bytes} (hfetch : fetch p scan call = some bytes)
      (hsame : s.returned = [] ∨ s.fetched.getLast? = some bytes) (haccepted : Accepted p scan bytes) :
      Comes p scan s call ⟨whole p scan bytes, some bytes, some (codeTree p (whole p scan bytes))⟩
  | failed {tree : Tree} {bytes : Bytes} (hfetch : fetch p scan call = some bytes)
      (hsame : s.returned = [] ∨ s.fetched.getLast? = some bytes) (hshape : Shape p scan (s.fetched ++ [bytes]) tree) :
      Comes p scan s call ⟨tree, some bytes, none⟩

theorem materialiseSource_comes (hkept : Kept p scan s) (hsound : sound p scan s call = true) :
    Comes p scan s call (materialiseSource p scan call s.tree) := by
  unfold materialiseSource
  split
  · exact .nothing hkept.shape
  have hcreated := hkept.shape.create call.creation
  unfold sound at hsound
  cases hcreate : createScanWorkspace p.root s.tree call.creation with
  | mk tree goesOn =>
    rw [hcreate] at hcreated hsound
    cases goesOn with
    | false => exact .nothing hcreated
    | true =>
      have hthere := created_ne_nil hcreate
      dsimp only at hcreated hsound ⊢
      cases hempty : p.isEmptyDirectory tree with
      | false =>
        rw [hempty] at hsound
        rw [if_neg (by simpa using hsound)]
        obtain ⟨bytes, hlast, haccepted, rfl⟩ := hcreated.empty_of_not_whole hthere hempty
        exact .again hlast haccepted
      | true =>
        obtain rfl := hcreated.bare_of_empty hthere hempty
        rw [hempty] at hsound
        rw [if_pos rfl] at hsound
        rw [if_pos (by simp)]
        cases hfetch : fetch p scan call with
        | none =>
          exact .nothing (.destroy_bare call.removal)
        | some bytes =>
          rw [hfetch] at hsound
          dsimp only at hsound ⊢
          rw [Bool.and_eq_true, Bool.or_eq_true, List.isEmpty_iff, beq_iff_eq] at hsound
          obtain ⟨huncut, hsame⟩ := hsound
          cases hextract : extract p scan bytes [(p.root, .dir)] call.interruption with
          | mk tree ending =>
            obtain ⟨hcomplete, hthrew, hdied⟩ := @extract_uncut p scan tree bytes s.fetched call ending huncut hextract
            cases ending with
            | complete =>
              obtain ⟨haccepted, rfl⟩ := hcomplete rfl
              exact .extracted hfetch hsame haccepted
            | threw => exact .failed hfetch hsame (hthrew rfl)
            | died => exact .failed hfetch hsame (hdied rfl)

theorem fetch_archive {bytes : Bytes} (h : fetch p scan call = some bytes) (harchive : scan.inputType = .ARCHIVE) :
    p.uploads scan.canonicalValue = some bytes := by
  unfold fetch at h
  rw [harchive] at h
  split at h
  · exact h
  · cases h

/-- **The step.** -/
theorem Kept.next (h : Kept p scan s) (hsound : sound p scan s call = true) : Kept p scan (next p scan s call) := by
  have hcomes := materialiseSource_comes h hsound
  unfold Workspace.next
  -- what was returned before is the whole of what is now the last one fetched
  have hbefore {bytes : Bytes} (hsame : s.returned = [] ∨ s.fetched.getLast? = some bytes) : ∀ code ∈ s.returned,
      ∃ bytes', (s.fetched ++ [bytes]).getLast? = some bytes' ∧ Accepted p scan bytes' ∧
        code.files = listFiles p (whole p scan bytes') := fun code hcode => by
    rcases hsame with hnil | hlast
    · rw [hnil] at hcode
      exact (List.not_mem_nil hcode).elim
    · obtain ⟨bytes', hlast', hrest⟩ := h.returned code hcode
      cases hlast.symm.trans hlast'
      exact ⟨bytes, List.getLast?_concat, hrest⟩
  have hfetched {bytes : Bytes} (hfetch : fetch p scan call = some bytes) : ∀ bytes' ∈ s.fetched ++ [bytes],
      scan.inputType = .ARCHIVE → p.uploads scan.canonicalValue = some bytes' := fun bytes' hmem harchive => by
    rcases List.mem_append.mp hmem with hmem | hmem
    · exact h.fetched bytes' hmem harchive
    · rw [List.mem_singleton.mp hmem]
      exact fetch_archive hfetch harchive
  generalize materialiseSource p scan call s.tree = result at hcomes ⊢
  cases hcomes with
  | nothing hshape =>
    refine ⟨?_, ?_, ?_⟩
    · simpa using hshape
    · simpa using h.returned
    · simpa using h.fetched
  | @again bytes hlast haccepted =>
    refine ⟨?_, fun code hcode => ?_, ?_⟩
    · simpa using Shape.whole hlast haccepted
    · rcases List.mem_append.mp hcode with hcode | hcode
      · simpa using h.returned code hcode
      · obtain rfl : code = codeTree p (whole p scan bytes) := by simpa using hcode
        exact ⟨bytes, by simpa using hlast, haccepted, rfl⟩
    · simpa using h.fetched
  | @extracted bytes hfetch hsame haccepted =>
    refine ⟨.whole List.getLast?_concat haccepted, fun code hcode => ?_, hfetched hfetch⟩
    rcases List.mem_append.mp hcode with hcode | hcode
    · exact hbefore hsame code hcode
    · obtain rfl : code = codeTree p (whole p scan bytes) := by simpa using hcode
      exact ⟨bytes, List.getLast?_concat, haccepted, rfl⟩
  | @failed tree bytes hfetch hsame hshape =>
    refine ⟨hshape, fun code hcode => hbefore hsame code ?_, hfetched hfetch⟩
    simpa using hcode

theorem kept_start : Kept p scan .start := ⟨.gone, fun _ h => (List.not_mem_nil h).elim, fun _ h => (List.not_mem_nil h).elim⟩

/-- **The source of every phase.** In a run whose calls are all sound, each source that is returned lists the whole tree
of the scan's archive, and all of them list the same. -/
theorem sources_whole (h : Reaches (Guarded (step p scan) fun s call _ => sound p scan s call = true) .start s) :
    SameCompleteSource p scan s := by
  have hkept : Kept p scan s := h.inv kept_start fun _ _ _ hu hs => by
    obtain ⟨rfl, hsound⟩ := hs
    exact hu.next hsound
  refine ⟨fun code hcode => ?_, fun code hcode code' hcode' => ?_⟩
  · obtain ⟨bytes, hlast, haccepted, hfiles⟩ := hkept.returned code hcode
    have hmem := List.mem_of_getLast? hlast
    exact ⟨bytes, ⟨hmem, hkept.fetched bytes hmem⟩, haccepted, hfiles⟩
  · obtain ⟨bytes, hlast, -, hfiles⟩ := hkept.returned code hcode
    obtain ⟨bytes', hlast', -, hfiles'⟩ := hkept.returned code' hcode'
    cases hlast.symm.trans hlast'
    rw [hfiles, hfiles']

end Runs

/-! ### Cut after the first file -/

def linuxPlatform : Platform where
  root := [ascii "work", ascii "scan"]
  uploads key := if key = ascii "u" then some (sampleZip [0x61] [0x62]) else none
  inflate bytes := ⟨[bytes], none⟩
  race _ _ := false
  order names := names
  order_perm _ := .refl _
  dependencyNames _ := []

def archiveScan : Scan := ⟨.ARCHIVE, ascii "u"⟩

def undisturbed : Call := ⟨.done, true, true, [], none, .all⟩

/-- Two phases of a scan, undisturbed. -/
theorem sources_whole_two : ∃ s : State, s.returned.length = 2 ∧ (∀ code ∈ s.returned, code.files.length = 2) ∧
    SameCompleteSource linuxPlatform archiveScan s := by
  obtain ⟨s, hs, hlength, hfiles⟩ := Reaches.exists_of_play (fun s call => some (next linuxPlatform archiveScan s call))
    (sound linuxPlatform archiveScan) .start [undisturbed, undisturbed]
    (fun s => s.returned.length = 2 ∧ ∀ code ∈ s.returned, code.files.length = 2) (by decide +kernel)
  exact ⟨s, hlength, hfiles, sources_whole (hs.mono fun _ _ _ h => ⟨Option.some.inj h.1, h.2⟩)⟩

/-- The process dies when the first of two files is there; the redelivered job returns that one. -/
theorem sources_partial : ∃ s : State, Reaches (step linuxPlatform archiveScan) .start s ∧
    ¬ SameCompleteSource linuxPlatform archiveScan s := by
  obtain ⟨s, hs, hfetched, hcode⟩ := Reaches.exists_of_play (fun s call => some (next linuxPlatform archiveScan s call))
    (fun _ _ => true) .start [{ undisturbed with interruption := some (1, .death) }, undisturbed]
    (fun s => s.fetched = [sampleZip [0x61] [0x62]] ∧ ∃ code ∈ s.returned, code.files.length ≠
      (listFiles linuxPlatform (whole linuxPlatform archiveScan (sampleZip [0x61] [0x62]))).length) (by decide +kernel)
  refine ⟨s, hs.of_guarded.mono fun _ _ _ h => Option.some.inj h, fun hsame => ?_⟩
  obtain ⟨code, hmem, hne⟩ := hcode
  obtain ⟨bytes, ⟨hbytes, -⟩, -, hfiles⟩ := hsame.1 code hmem
  rw [hfetched] at hbytes
  rw [hfiles, List.mem_singleton.mp hbytes] at hne
  exact hne rfl

end WebAudit.Workspace
