import Mathlib.Algebra.GroupWithZero.Nat
import Mathlib.Data.List.Infix
import WebAudit.Workspace.Teardown

/-!
# Reads of a workspace

`resolveInsideWorkspace`, `readFile` and `glob` of `context.ts`, and `listFiles` of `intake/materialise.ts`, on a tree of files with symbolic
links. What is read and what is found is below the real path of the root, and every file that is listed can be read but those whose path
begins with two dots.

## The model

The tree stands still during a call. `content` is what the files hold. `fsGlob` finds whatever it does; `listFiles` goes through so many
directories at most.
-/

namespace WebAudit.Workspace.Disk

open WebAudit.Lib

/-! ### Reading -/

/-- A step of a path, as it is written. -/
def stepOf (text : List Char) : PathStep String :=
  if text = [] then .empty
  else if text = ['.'] then .here
  else if text = ['.', '.'] then .up
  else .name (String.ofList text)

def steps (path : String) : Path := (path.toList.splitOn '/').map stepOf

/-- The code units of a string. -/
def codeUnits (s : String) : List ℕ :=
  s.toList.flatMap fun c =>
    if c.toNat < 0x10000 then [c.toNat] else [0xD800 + (c.toNat - 0x10000) / 0x400, 0xDC00 + (c.toNat - 0x10000) % 0x400]

/-- The length of the text of an absolute path. -/
def pathLength (names : List String) : ℕ := if names = [] then 1 else (names.map fun name => (codeUnits name).length + 1).sum

inductive ContextError where
  | WorkspaceEscapeError (requested reason : String)
  /-- Of the file system. -/
  | failed (e : Errno)
  deriving DecidableEq

def isAbsolute (path : String) : Bool := path.toList.head? = some '/'

/-- Up to the nearest path that exists, whose real path stays inside; the last name comes first. -/
def staysInside (files : Files) (rootReal : List String) : List String → Bool
  | [] =>
    match files.realpath [] with
    | .ok real => (relative rootReal real).isSome
    | .error _ => true
  | name :: parents =>
    match files.realpath (pathOf (name :: parents).reverse) with
    | .ok real => (relative rootReal real).isSome
    | .error _ => pathLength parents.reverse < pathLength rootReal || staysInside files rootReal parents

def resolveInsideWorkspace (files : Files) (root : Path) (relPath : String) : Except ContextError (List String) :=
  if isAbsolute relPath then .error (.WorkspaceEscapeError relPath "absolute paths are not permitted")
  else if '\x00' ∈ relPath.toList then .error (.WorkspaceEscapeError relPath "path contains a NUL byte")
  else
    match files.realpath root with
    | .error e => .error (.failed e)
    | .ok rootReal =>
      let candidate := lexical (pathOf rootReal ++ steps relPath)
      if (relative rootReal candidate).any (· ≠ []) = false then
        .error (.WorkspaceEscapeError relPath "resolves outside the scan workspace")
      else if staysInside files rootReal candidate.reverse then .ok candidate
      else .error (.WorkspaceEscapeError relPath "a symlink on this path leaves the workspace")

abbrev Content := List String → List UInt8

def fsReadFile (files : Files) (content : Content) (path : Path) : Except ContextError (List UInt8) :=
  match files.realpath path with
  | .error e => .error (.failed e)
  | .ok location => if files.at? location = some .file then .ok (content location) else .error (.failed .isDirectory)

def readFile (files : Files) (content : Content) (root : Option Path) (relPath : String) : Except ContextError (List UInt8) :=
  match root with
  | none => .error (.WorkspaceEscapeError relPath "this scan has no attached source")
  | some root =>
    match resolveInsideWorkspace files root relPath with
    | .error e => .error e
    | .ok absolute => fsReadFile files content (pathOf absolute)

/-- What is found for a pattern from a directory on. -/
abbrev Glob := String → List String → Except Errno (List String)

def glob (files : Files) (fsGlob : Glob) (root : Option Path) (pattern : String) : Except ContextError (List String) :=
  match root with
  | none => .error (.WorkspaceEscapeError pattern "this scan has no attached source")
  | some root =>
    if isAbsolute pattern || ['.', '.'] <:+: pattern.toList then
      .error (.WorkspaceEscapeError pattern "a glob must stay inside the workspace")
    else
      match files.realpath root with
      | .error e => .error (.failed e)
      | .ok rootReal =>
        match fsGlob pattern rootReal with
        | .error e => .error (.failed e)
        | .ok found =>
          .ok ((found.filter fun entry => (resolveInsideWorkspace files (pathOf rootReal) entry).toOption.isSome).mergeSort
            fun a b => ¬ codeUnits b < codeUnits a)

/-! ### Listing -/

structure CodeFile where
  path : String
  sizeBytes : ℕ
  deriving DecidableEq

def skippedDirectories : List String :=
  [".git", "node_modules", ".pnpm-store", "vendor", ".venv", "__pycache__", ".next/cache", ".turbo", ".cache"]

def maxListedFiles : ℕ := 20000

/-- The names of `relative(from, to)`. -/
def relativeNames : List String → List String → List String
  | a :: start, b :: location => if a = b then relativeNames start location else (a :: start).map (fun _ => "..") ++ b :: location
  | start, location => start.map (fun _ => "..") ++ location

/-- The names with separators between them. -/
def pathText (names : List String) : String := String.ofList (['/'].intercalate (names.map String.toList))

/-- `readdir` with `withFileTypes`. -/
def readdirEntries (files : Files) (dir : Path) : Except Errno (List (String × EntryKind String)) :=
  match files.realpath dir with
  | .error e => .error e
  | .ok location =>
    if files.at? location = some .directory then
      .ok ((files.names location).filterMap fun name => (files.at? (location ++ [name])).map (name, ·))
    else .error .notDirectory

/-- The entries of one directory. -/
def listDirectory (files : Files) (content : Content) (root dir : Path) (listed : List CodeFile) (queue : List Path) :
    List (String × EntryKind String) → List CodeFile × List Path
  | [] => (listed, queue)
  | (name, kind) :: entries =>
    if maxListedFiles ≤ listed.length then (listed, queue)
    else
      match kind with
      | .directory =>
        if name ∈ skippedDirectories then listDirectory files content root dir listed queue entries
        else listDirectory files content root dir listed (queue ++ [join dir name]) entries
      | .link _ _ => listDirectory files content root dir listed queue entries
      | .file =>
        match files.realpath (join dir name) with
        | .error _ => listDirectory files content root dir listed queue entries
        | .ok location =>
          listDirectory files content root dir
            (listed ++ [⟨pathText (relativeNames (lexical root) (lexical (join dir name))), (content location).length⟩]) queue entries

def listQueue (files : Files) (content : Content) (root : Path) : ℕ → List CodeFile → List Path → List CodeFile
  | 0, listed, _ => listed
  | _ + 1, listed, [] => listed
  | rounds + 1, listed, dir :: queue =>
    if listed.length < maxListedFiles then
      match readdirEntries files dir with
      | .error _ => listQueue files content root rounds listed queue
      | .ok entries =>
        let (listed, queue) := listDirectory files content root dir listed queue entries
        listQueue files content root rounds listed queue
    else listed

def listFiles (files : Files) (content : Content) (root : Path) (rounds : ℕ) : List CodeFile :=
  listQueue files content root rounds [] [root]

/-! ### What is read -/

section Reading

variable {files : Files} {content : Content} {root : Path} {relPath : String} {rootReal names : List String}

theorem staysInside_of_ok {real : List String} (h : files.realpath (pathOf names) = .ok real) :
    staysInside files rootReal names.reverse = (relative rootReal real).isSome := by
  obtain ⟨probe, rfl⟩ : ∃ probe, names = List.reverse probe := ⟨_, (List.reverse_reverse names).symm⟩
  rw [List.reverse_reverse]
  cases probe with
  | nil =>
    unfold staysInside
    rw [show files.realpath [] = .ok real from h]
  | cons name parents =>
    unfold staysInside
    rw [h]

/-- What `resolveInsideWorkspace` lets through is a path below the real root. -/
theorem resolveInsideWorkspace_ok {candidate : List String} (h : resolveInsideWorkspace files root relPath = .ok candidate) :
    ∃ rootReal names, files.realpath root = .ok rootReal ∧ lexical (pathOf rootReal ++ steps relPath) = rootReal ++ names ∧ names ≠ [] ∧
      candidate = rootReal ++ names ∧ staysInside files rootReal candidate.reverse = true := by
  unfold resolveInsideWorkspace at h
  split at h
  · cases h
  · split at h
    · cases h
    · split at h
      · cases h
      · rename_i rootReal hroot
        dsimp only at h
        split at h
        · cases h
        · rename_i hrel
          split at h
          · rename_i hstays
            obtain rfl := Except.ok.inj h
            obtain ⟨names, hnames, hne⟩ := (Option.any_eq_true _ _).mp (Bool.not_eq_false _ ▸ hrel)
            obtain ⟨heq, -⟩ := relative_eq_some_iff.mp hnames
            exact ⟨rootReal, names, hroot, heq, of_decide_eq_true hne, heq, hstays⟩
          · cases h

/-- The place that a path below the real root leads to is there too. -/
theorem within_of_staysInside (hw : files.WellFormed) (hroot : files.realpath root = .ok rootReal) (hne : names ≠ [])
    (hstays : staysInside files rootReal (rootReal ++ names).reverse = true) {location : List String}
    (hreal : files.realpath (pathOf (rootReal ++ names)) = .ok location) :
    ∃ rest, location = rootReal ++ rest ∧ (files.at? location = some .file → rest ≠ []) := by
  rw [staysInside_of_ok hreal] at hstays
  obtain ⟨rest, hrest⟩ := Option.isSome_iff_exists.mp hstays
  obtain ⟨rfl, -⟩ := relative_eq_some_iff.mp hrest
  refine ⟨rest, rfl, ?_⟩
  rintro hfile rfl
  rw [List.append_nil] at hfile
  -- a root that is a file has nothing below it
  obtain ⟨dir, name, rfl⟩ : ∃ dir name, rootReal = dir ++ [name] := by
    rcases List.eq_nil_or_concat' rootReal with rfl | h
    · cases hfile
    · exact h
  have hleads := hw.leads_pathOf (hw.parent (by rw [hfile]; rfl))
  have hsplit : pathOf (dir ++ [name] ++ names) = pathOf dir ++ .name name :: pathOf names := by
    rw [List.append_assoc, pathOf_append]
    rfl
  rw [hsplit, hleads.file hfile, if_neg (by simpa [pathOf] using hne)] at hreal
  cases hreal

theorem readFile_ok (hw : files.WellFormed) {bytes : List UInt8} (h : readFile files content (some root) relPath = .ok bytes) :
    ∃ rootReal names, files.realpath root = .ok rootReal ∧ names ≠ [] ∧ files.at? (rootReal ++ names) = some .file ∧
      files.realpath (pathOf (lexical (pathOf rootReal ++ steps relPath))) = .ok (rootReal ++ names) ∧ bytes = content (rootReal ++ names) := by
  unfold readFile at h
  dsimp only at h
  split at h
  · cases h
  · rename_i absolute habsolute
    obtain ⟨rootReal, names, hroot, hlexical, hne, rfl, hstays⟩ := resolveInsideWorkspace_ok habsolute
    unfold fsReadFile at h
    split at h
    · cases h
    · rename_i location hreal
      split at h
      · rename_i hfile
        obtain ⟨rest, rfl, hrest⟩ := within_of_staysInside hw hroot hne hstays hreal
        exact ⟨rootReal, rest, hroot, hrest hfile, hfile, hlexical ▸ hreal, (Except.ok.inj h).symm⟩
      · cases h

/-- What is read does not depend on what is outside the root. -/
theorem readFile_congr (hw : files.WellFormed) {content' : Content}
    (h : ∀ rootReal names, files.realpath root = .ok rootReal → names ≠ [] → content (rootReal ++ names) = content' (rootReal ++ names)) :
    readFile files content (some root) relPath = readFile files content' (some root) relPath := by
  unfold readFile
  dsimp only
  split
  · rfl
  · rename_i absolute habsolute
    obtain ⟨rootReal, names, hroot, -, hne, rfl, hstays⟩ := resolveInsideWorkspace_ok habsolute
    unfold fsReadFile
    split
    · rfl
    · rename_i location hreal
      split
      · rename_i hfile
        obtain ⟨rest, rfl, hrest⟩ := within_of_staysInside hw hroot hne hstays hreal
        rw [h rootReal rest hroot (hrest hfile)]
      · rfl

theorem mem_glob (hw : files.WellFormed) {fsGlob : Glob} {pattern : String} {found : List String}
    (h : glob files fsGlob (some root) pattern = .ok found) (hmem : relPath ∈ found) :
    ∃ rootReal names, files.realpath root = .ok rootReal ∧ names ≠ [] ∧ lexical (pathOf rootReal ++ steps relPath) = rootReal ++ names ∧
      ∀ location, files.realpath (pathOf (rootReal ++ names)) = .ok location →
        ∃ rest, location = rootReal ++ rest ∧ (files.at? location = some .file → rest ≠ []) := by
  unfold glob at h
  dsimp only at h
  split at h
  · cases h
  · split at h
    · cases h
    · rename_i rootReal hroot
      split at h
      · cases h
      · obtain rfl := Except.ok.inj h
        obtain ⟨-, hok⟩ := List.mem_filter.mp (List.mem_mergeSort.mp hmem)
        obtain ⟨candidate, hcandidate⟩ : ∃ candidate, resolveInsideWorkspace files (pathOf rootReal) relPath = .ok candidate := by
          rcases hr : resolveInsideWorkspace files (pathOf rootReal) relPath with e | candidate
          · rw [hr] at hok
            cases hok
          · exact ⟨candidate, rfl⟩
        obtain ⟨rootReal', names, hroot', hlexical, hne, rfl, hstays⟩ := resolveInsideWorkspace_ok hcandidate
        rw [hw.realpath_pathOf (hw.walk_kind FileTree.at?_nil hroot)] at hroot'
        obtain rfl := Except.ok.inj hroot'
        exact ⟨rootReal, names, hroot, hne, hlexical, fun _ hreal => within_of_staysInside hw hroot hne hstays hreal⟩

end Reading

/-! ### What is listed -/

/-- A name in a directory. -/
structure LegalName (name : String) : Prop where
  ne_empty : name ≠ ""
  ne_dot : name ≠ "."
  ne_dots : name ≠ ".."
  slash : '/' ∉ name.toList
  nul : '\x00' ∉ name.toList

def LegalNames (files : Files) : Prop := ∀ e ∈ files.entries, ∀ name ∈ e.1, LegalName name

section Texts

variable {names : List String} {name : String}

theorem relativeNames_append (start names : List String) : relativeNames start (start ++ names) = names := by
  induction start with
  | nil => cases names <;> rfl
  | cons a start ih =>
    rw [List.cons_append, relativeNames, if_pos rfl]
    exact ih

theorem stepOf_toList (h : LegalName name) : stepOf name.toList = .name name := by
  have hne {text : List Char} (hne : name ≠ String.ofList text) : name.toList ≠ text := by
    rintro rfl
    exact hne (String.ofList_toList).symm
  unfold stepOf
  rw [if_neg (hne h.ne_empty), if_neg (hne h.ne_dot), if_neg (hne h.ne_dots), String.ofList_toList]

/-- The text of a path is read as its names. -/
theorem steps_pathText (hne : names ≠ []) (h : ∀ name ∈ names, LegalName name) : steps (pathText names) = pathOf names := by
  have hsplit : (['/'].intercalate (names.map String.toList)).splitOn '/' = names.map String.toList := by
    refine List.splitOn_intercalate '/' (fun text htext => ?_) (by simpa using hne)
    obtain ⟨name, hname, rfl⟩ := List.mem_map.mp htext
    exact (h name hname).slash
  unfold steps pathText
  rw [String.toList_ofList, hsplit, List.map_map]
  exact List.map_congr_left fun name hname => stepOf_toList (h name hname)

theorem pathText_cons (names : List String) (hname : LegalName name) : ∃ c text, name.toList = c :: text ∧ c ≠ '/' ∧
    ∃ rest, (pathText (name :: names)).toList = c :: text ++ rest ∧ (rest = [] ∨ rest.head? = some '/') := by
  rcases htext : name.toList with _ | ⟨c, text⟩
  · exact absurd (String.toList_inj.mp htext) hname.ne_empty
  · refine ⟨c, text, rfl, fun heq => hname.slash (htext ▸ heq ▸ List.mem_cons_self ..), ?_⟩
    unfold pathText
    rw [String.toList_ofList, List.map_cons, htext]
    cases names with
    | nil => exact ⟨[], by simp [List.intercalate], .inl rfl⟩
    | cons name' names =>
      rw [List.map_cons, List.intercalate_cons_cons, List.append_assoc]
      exact ⟨_, rfl, .inr rfl⟩

/-- A path begins with two dots if its first name does. -/
theorem dots_pathText (hname : LegalName name) : dots (pathText (name :: names)) = dots name := by
  obtain ⟨c, text, htext, -, rest, hpath, hrest⟩ := pathText_cons names hname
  unfold dots
  rw [hpath, htext]
  cases text with
  | cons c' text => rfl
  | nil =>
    rcases hrest with rfl | hrest
    · rfl
    · cases rest with
      | nil => rfl
      | cons d rest =>
        obtain rfl := Option.some.inj hrest
        simp

theorem isAbsolute_pathText (hname : LegalName name) : isAbsolute (pathText (name :: names)) = false := by
  obtain ⟨c, text, -, hne, rest, hpath, -⟩ := pathText_cons names hname
  unfold isAbsolute
  rw [hpath]
  simpa using hne

theorem nul_notMem_pathText (h : ∀ name ∈ names, LegalName name) : '\x00' ∉ (pathText names).toList := by
  unfold pathText
  rw [String.toList_ofList]
  induction names with
  | nil => simp
  | cons name names ih =>
    have hrest := ih fun n hn => h n (List.mem_cons_of_mem _ hn)
    have hname := (h name (List.mem_cons_self ..)).nul
    cases names with
    | nil => simpa using hname
    | cons name' names =>
      rw [List.map_cons] at hrest
      rw [List.map_cons, List.map_cons, List.intercalate_cons_cons]
      simp only [List.mem_append, not_or]
      exact ⟨⟨hname, by decide⟩, hrest⟩

end Texts

section Listing

variable {files : Files} {content : Content} {root dir : Path} {W rootReal names : List String} {listed : List CodeFile} {queue : List Path}

/-- A path of the queue leads to a directory below the real root, by the names it has below the root. -/
def Queued (files : Files) (W rootReal : List String) (dir : Path) : Prop :=
  ∃ names, dir = pathOf (W ++ names) ∧ files.at? (rootReal ++ names) = some .directory

/-- So is a file that is listed. -/
def Listed (files : Files) (rootReal : List String) (file : CodeFile) : Prop :=
  ∃ names, names ≠ [] ∧ file.path = pathText names ∧ files.at? (rootReal ++ names) = some .file

theorem Queued.leads (hw : files.WellFormed) (hroot : files.Leads (pathOf W) rootReal) (hdir : files.at? (rootReal ++ names) = some .directory) :
    files.Leads (pathOf (W ++ names)) (rootReal ++ names) := by
  rw [pathOf_append]
  refine hroot.append fun s hs => ?_
  by_cases heq : s = names
  · rw [heq]
    exact hdir
  · exact hw.directory (by rw [hdir]; rfl) ((List.prefix_append_right_inj _).mpr hs) fun h => heq (List.append_cancel_left h)

theorem listDirectory_spec {entries : List (String × EntryKind String)} (hentries : ∀ e ∈ entries, files.at? (rootReal ++ names ++ [e.1]) = some e.2)
    (hlisted : ∀ file ∈ listed, Listed files rootReal file) (hqueue : ∀ d ∈ queue, Queued files W rootReal d) :
    let out := listDirectory files content (pathOf W) (pathOf (W ++ names)) listed queue entries
    (∀ file ∈ out.1, Listed files rootReal file) ∧ ∀ d ∈ out.2, Queued files W rootReal d := by
  induction entries generalizing listed queue with
  | nil => exact ⟨hlisted, hqueue⟩
  | cons e entries ih =>
    obtain ⟨name, kind⟩ := e
    have hat : files.at? (rootReal ++ (names ++ [name])) = some kind := by
      rw [← List.append_assoc]
      exact hentries _ (List.mem_cons_self ..)
    have hjoin : join (pathOf (W ++ names)) name = pathOf (W ++ (names ++ [name])) := by
      unfold join
      rw [lexical_pathOf, List.append_assoc]
    have hrest := fun e he => hentries e (List.mem_cons_of_mem _ he)
    dsimp only
    unfold listDirectory
    split
    · exact ⟨hlisted, hqueue⟩
    · cases kind with
      | directory =>
        dsimp only
        split
        · exact ih hrest hlisted hqueue
        · refine ih hrest hlisted fun d hd => ?_
          rcases List.mem_append.mp hd with hd | hd
          · exact hqueue d hd
          · exact ⟨names ++ [name], (List.mem_singleton.mp hd).trans hjoin, hat⟩
      | link absolute target => exact ih hrest hlisted hqueue
      | file =>
        dsimp only
        split
        · exact ih hrest hlisted hqueue
        · refine ih hrest (fun file hfile => ?_) hqueue
          rcases List.mem_append.mp hfile with hfile | hfile
          · exact hlisted file hfile
          · obtain rfl := List.mem_singleton.mp hfile
            refine ⟨names ++ [name], by simp, ?_, hat⟩
            dsimp only
            rw [hjoin, lexical_pathOf, lexical_pathOf, relativeNames_append]

theorem listQueue_spec (hw : files.WellFormed) (hroot : files.Leads (pathOf W) rootReal) {rounds : ℕ}
    (hlisted : ∀ file ∈ listed, Listed files rootReal file) (hqueue : ∀ d ∈ queue, Queued files W rootReal d) :
    ∀ file ∈ listQueue files content (pathOf W) rounds listed queue, Listed files rootReal file := by
  induction rounds generalizing listed queue with
  | zero => exact hlisted
  | succ rounds ih =>
    cases queue with
    | nil => exact hlisted
    | cons dir queue =>
      have hrest := fun d hd => hqueue d (List.mem_cons_of_mem _ hd)
      unfold listQueue
      split
      · obtain ⟨names, rfl, hdir⟩ := hqueue dir (List.mem_cons_self ..)
        split
        · exact ih hlisted hrest
        · rename_i entries hread
          unfold readdirEntries at hread
          rw [(Queued.leads hw hroot hdir).1] at hread
          dsimp only at hread
          rw [if_pos hdir] at hread
          obtain rfl := Except.ok.inj hread
          refine (fun h => ih h.1 h.2) (listDirectory_spec (fun e he => ?_) hlisted hrest)
          obtain ⟨name, -, hname⟩ := List.mem_filterMap.mp he
          obtain ⟨kind, hkind, rfl⟩ := Option.map_eq_some_iff.mp hname
          exact hkind
      · exact hlisted

/-- What is listed are files below the real root, by the names they have there. -/
theorem mem_listFiles (hw : files.WellFormed) {rounds : ℕ} {file : CodeFile} (hmem : file ∈ listFiles files content (pathOf W) rounds) :
    ∃ rootReal names, files.realpath (pathOf W) = .ok rootReal ∧ names ≠ [] ∧ file.path = pathText names ∧
      files.at? (rootReal ++ names) = some .file := by
  unfold listFiles at hmem
  by_cases hroot : ∃ rootReal, files.Leads (pathOf W) rootReal
  · obtain ⟨rootReal, hroot⟩ := hroot
    have hqueue : ∀ d ∈ [pathOf W], Queued files W rootReal d := by
      intro d hd
      exact ⟨[], (List.mem_singleton.mp hd).trans (by rw [List.append_nil]), by rw [List.append_nil]; exact hroot.2⟩
    obtain ⟨names, hne, hpath, hfile⟩ := listQueue_spec hw hroot (fun _ h => absurd h List.not_mem_nil) hqueue file hmem
    exact ⟨rootReal, names, hroot.1, hne, hpath, hfile⟩
  · have hread : ∃ e, readdirEntries files (pathOf W) = .error e := by
      unfold readdirEntries
      split
      · exact ⟨_, rfl⟩
      · rename_i location hreal
        rw [if_neg fun hdir => hroot ⟨location, hreal, hdir⟩]
        exact ⟨_, rfl⟩
    obtain ⟨e, hread⟩ := hread
    cases rounds with
    | zero => cases hmem
    | succ rounds =>
      rw [listQueue, if_pos (by decide), hread] at hmem
      cases rounds <;> cases hmem

theorem LegalNames.of_file (h : LegalNames files) (hfile : files.at? (rootReal ++ names) = some .file) : ∀ name ∈ names, LegalName name := by
  intro name hname
  rcases FileTree.at?_isSome_iff.mp (by rw [hfile]; rfl) with hnil | ⟨e, he, heq⟩
  · rw [(List.append_eq_nil_iff.mp hnil).2] at hname
    cases hname
  · exact h e he name (heq ▸ List.mem_append_right _ hname)

/-- A file is read under the text of its path, but for one that begins with two dots. -/
theorem readFile_pathText (hw : files.WellFormed) (hlegal : LegalNames files) (hroot : files.realpath root = .ok rootReal) (hne : names ≠ [])
    (hfile : files.at? (rootReal ++ names) = some .file) :
    readFile files content (some root) (pathText names) =
      if dots (pathText names) then .error (.WorkspaceEscapeError (pathText names) "resolves outside the scan workspace")
      else .ok (content (rootReal ++ names)) := by
  have hnames := hlegal.of_file hfile
  obtain ⟨name, rest, rfl⟩ := List.exists_cons_of_ne_nil hne
  have hname := hnames name (List.mem_cons_self ..)
  have hlexical : lexical (pathOf rootReal ++ steps (pathText (name :: rest))) = rootReal ++ name :: rest := by
    rw [steps_pathText hne hnames, ← pathOf_append, lexical_pathOf]
  have hreal := hw.realpath_pathOf (.inr hfile)
  unfold readFile resolveInsideWorkspace
  dsimp only
  rw [if_neg (by rw [isAbsolute_pathText hname]; exact Bool.false_ne_true), if_neg (nul_notMem_pathText hnames), hroot]
  dsimp only
  rw [hlexical, dots_pathText hname]
  cases hdots : dots name with
  | true =>
    have hrel : relative rootReal (rootReal ++ name :: rest) = none := by
      rcases hrel : relative rootReal (rootReal ++ name :: rest) with _ | names
      · rfl
      · obtain ⟨heq, hfalse⟩ := relative_eq_some_iff.mp hrel
        rw [← List.append_cancel_left heq, List.head?_cons, Option.any_some, hdots] at hfalse
        cases hfalse
    rw [hrel]
    rfl
  | false =>
    have hrel : relative rootReal (rootReal ++ name :: rest) = some (name :: rest) := relative_eq_some_iff.mpr ⟨rfl, hdots⟩
    rw [staysInside_of_ok hreal, hrel]
    unfold fsReadFile
    rw [if_neg (by simp), if_pos (show (some (name :: rest)).isSome = true from rfl)]
    dsimp only
    rw [hreal]
    simp [hfile]

end Listing

/-! ### Confined and complete -/

/-- What `readFile` and `glob` give is below the real path of the root, and what is elsewhere does not matter to them. -/
structure Confined (files : Files) (root : Path) : Prop where
  read : ∀ content relPath bytes, readFile files content (some root) relPath = .ok bytes →
    ∃ rootReal names, files.realpath root = .ok rootReal ∧ names ≠ [] ∧ files.at? (rootReal ++ names) = some .file ∧
      files.realpath (pathOf (lexical (pathOf rootReal ++ steps relPath))) = .ok (rootReal ++ names) ∧ bytes = content (rootReal ++ names)
  unseen : ∀ (content content' : Content) relPath,
    (∀ rootReal names, files.realpath root = .ok rootReal → names ≠ [] → content (rootReal ++ names) = content' (rootReal ++ names)) →
      readFile files content (some root) relPath = readFile files content' (some root) relPath
  glob : ∀ fsGlob pattern found, glob files fsGlob (some root) pattern = .ok found → ∀ entry ∈ found,
    ∃ rootReal names, files.realpath root = .ok rootReal ∧ names ≠ [] ∧ lexical (pathOf rootReal ++ steps entry) = rootReal ++ names ∧
      ∀ location, files.realpath (pathOf (rootReal ++ names)) = .ok location →
        ∃ rest, location = rootReal ++ rest ∧ (files.at? location = some .file → rest ≠ [])

theorem workspacePathFor_eq {baseDir root : Path} {scanId : String} (h : workspacePathFor baseDir scanId = some root) :
    ∃ W, root = pathOf W := by
  unfold workspacePathFor at h
  split at h
  · exact ⟨_, (Option.some.inj h).symm⟩
  · cases h

/-- **Reads of a workspace are confined**, whatever links there are, and a file that is listed is read under its path exactly if the path does
not begin with two dots. -/
theorem reads_confined (files : Files) (hw : files.WellFormed) (hlegal : LegalNames files) :
    (∀ root, Confined files root) ∧
      ∀ (content : Content) baseDir scanId root rounds, workspacePathFor baseDir scanId = some root →
        ∀ file ∈ listFiles files content root rounds, ∃ rootReal names, files.realpath root = .ok rootReal ∧ names ≠ [] ∧
          file.path = pathText names ∧ files.at? (rootReal ++ names) = some .file ∧
            (readFile files content (some root) file.path = .ok (content (rootReal ++ names)) ↔ dots file.path = false) := by
  refine ⟨fun root => ⟨fun _ _ _ => readFile_ok hw, fun _ _ _ => readFile_congr hw, fun _ _ _ hfound _ => mem_glob hw hfound⟩, ?_⟩
  intro content baseDir scanId root rounds hroot file hmem
  obtain ⟨W, rfl⟩ := workspacePathFor_eq hroot
  obtain ⟨rootReal, names, hreal, hne, hpath, hfile⟩ := mem_listFiles hw hmem
  refine ⟨rootReal, names, hreal, hne, hpath, hfile, ?_⟩
  rw [hpath, readFile_pathText hw hlegal hreal hne hfile]
  cases dots (pathText names) with
  | true => exact ⟨fun h => (nomatch h), fun h => (nomatch h)⟩
  | false => exact ⟨fun _ => rfl, fun _ => rfl⟩

/-- A workspace with a file in a directory, one whose name begins with two dots, and a link to a file outside. -/
def dottedWorkspace : Files :=
  ⟨[(["b"], .directory), (["b", "s1"], .directory), (["b", "s1", "src"], .directory), (["b", "s1", "src", "a.ts"], .file),
    (["b", "s1", "..env"], .file), (["etc"], .directory), (["etc", "shadow"], .file),
    (["b", "s1", "out"], .link true (pathOf ["etc", "shadow"]))]⟩

theorem reads_confined_dotted :
    readFile dottedWorkspace (fun _ => [1]) (some (pathOf ["b", "s1"])) "src/a.ts" = .ok [1] := by
  have hlegal : LegalNames dottedWorkspace := by
    have h : ∀ e ∈ dottedWorkspace.entries, ∀ name ∈ e.1,
        name ≠ "" ∧ name ≠ "." ∧ name ≠ ".." ∧ '/' ∉ name.toList ∧ '\x00' ∉ name.toList := by decide
    intro e he name hname
    obtain ⟨h₁, h₂, h₃, h₄, h₅⟩ := h e he name hname
    exact ⟨h₁, h₂, h₃, h₄, h₅⟩
  obtain ⟨-, hlisted⟩ := reads_confined dottedWorkspace ⟨by decide, by decide⟩ hlegal
  obtain ⟨rootReal, names, -, -, -, -, hread⟩ :=
    hlisted (fun _ => [1]) (pathOf ["b"]) "s1" (pathOf ["b", "s1"]) 3 (by decide) ⟨"src/a.ts", 1⟩ (by decide)
  exact hread.mpr (by decide)

/-- A file that is listed, and is refused to be read: its name looks like a way out. -/
theorem listed_file_refused :
    ⟨"..env", 1⟩ ∈ listFiles dottedWorkspace (fun _ => [1]) (pathOf ["b", "s1"]) 3 ∧
      readFile dottedWorkspace (fun _ => [1]) (some (pathOf ["b", "s1"])) "..env" =
        .error (.WorkspaceEscapeError "..env" "resolves outside the scan workspace") := by
  decide

end WebAudit.Workspace.Disk
