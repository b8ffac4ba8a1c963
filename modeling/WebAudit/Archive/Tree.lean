import WebAudit.Archive.Collisions

/-!
# What an extraction leaves on the disk, effect by effect

The log of a disk says what has been done to it. Played back on the tree that was there before, any first part of a log
is what a process that dies then leaves behind; the whole log is the disk the extraction ends with
(`Tree.replay_extractArchive`).
-/

namespace WebAudit.Archive

open WebAudit.Lib.Uri

/-- Strictly below a directory. -/
def Below (root q : Path) : Prop := ∃ r, r ≠ [] ∧ q = root ++ r

def Effect.path : Effect → Path
  | .mkdir path => path
  | .create path => path
  | .write _ path _ => path
  | .remove path => path

/-! ### Trees -/

/-- What is on the disk, in the order in which it was put there. -/
abbrev Tree := List (Path × Node)

def Node.append (bytes : Bytes) : Node → Node
  | .file content => .file (content ++ bytes)
  | .dir => .dir

namespace Tree

def get (tree : Tree) (path : Path) : Option Node := (tree.find? fun entry => entry.1 == path).map Prod.snd

def remove (tree : Tree) (path : Path) : Tree := tree.filter fun entry => entry.1 != path

def put (tree : Tree) (path : Path) (node : Node) : Tree := tree.remove path ++ [(path, node)]

def apply (tree : Tree) : Effect → Tree
  | .mkdir path => tree.put path .dir
  | .create path => tree.put path (.file [])
  | .write _ path bytes => tree.map fun entry => if entry.1 = path then (entry.1, entry.2.append bytes) else entry
  | .remove path => tree.remove path

def replay (tree : Tree) (log : List Effect) : Tree := log.foldl apply tree

/-- As a file system, in which the root is in directories. -/
def fs (root : Path) (tree : Tree) : Fs := fun q =>
  if q.length < root.length ∧ q = root.take q.length then some .dir else tree.get q

section Get

variable {tree : Tree} {path q : Path} {node : Node} {bytes : Bytes} {i : ℕ}

@[simp] theorem get_remove : (tree.remove path).get q = if q = path then none else tree.get q := by
  unfold get remove
  rw [List.find?_filter]
  split
  · rename_i heq
    subst heq
    rw [List.find?_eq_none.mpr fun entry _ => by simp]
    rfl
  · rename_i hne
    congr 1
    refine congrArg (List.find? · tree) (funext fun entry => ?_)
    by_cases heq : entry.1 = q
    · simp [heq, hne]
    · simp [heq]

@[simp] theorem get_put : (tree.put path node).get q = if q = path then some node else tree.get q := by
  have hget := @get_remove tree path q
  unfold put get at *
  rw [List.find?_append]
  by_cases heq : q = path
  · subst heq
    rw [if_pos rfl, Option.map_eq_none_iff] at hget
    simp [hget]
  · rw [if_neg heq] at hget ⊢
    have hlast : [(path, node)].find? (fun entry => entry.1 == q) = none := by simp [Ne.symm heq]
    rw [hlast, Option.or_none]
    exact hget

@[simp] theorem get_write : (tree.apply (.write i path bytes)).get q =
    if q = path then (tree.get q).map (Node.append bytes) else tree.get q := by
  unfold apply get
  dsimp only
  rw [List.find?_map]
  have hsame : ((fun entry : Path × Node => entry.1 == q) ∘
      fun entry => if entry.1 = path then (entry.1, entry.2.append bytes) else entry) = fun entry => entry.1 == q := by
    funext entry
    simp only [Function.comp_apply]
    split <;> rfl
  rw [hsame]
  cases hfind : tree.find? (fun entry => entry.1 == q) with
  | none => simp
  | some entry =>
    obtain rfl : entry.1 = q := by simpa using List.find?_some hfind
    simp only [Option.map_some]
    split <;> rfl

theorem replay_append {log log' : List Effect} : tree.replay (log ++ log') = (tree.replay log).replay log' :=
  List.foldl_append

end Get

/-! ### Played back, a log is the disk -/

section Replay

variable {root path : Path} {tree : Tree} {disk : Disk} {x : Extraction} {s : ExtractState}
  {central : List (List Text × ZipCentralEntry)} {entry : InspectedEntry} {entries : List InspectedEntry} {i : ℕ}
  {segments : List Text}

/-- From what was there, the log leads to what the disk holds now. -/
def Follows (root : Path) (tree : Tree) (disk : Disk) : Prop :=
  fs root (tree.replay disk.log) = disk.fs ∧ ∀ op ∈ disk.log, Below root op.path

theorem below_not_above (h : Below root path) : ¬ (path.length < root.length ∧ path = root.take path.length) := by
  rintro ⟨hlength, -⟩
  obtain ⟨r, -, rfl⟩ := h
  rw [List.length_append] at hlength
  omega

theorem fs_put (h : Below root path) {node : Node} {q : Path} :
    fs root (tree.put path node) q = if q = path then some node else fs root tree q := by
  unfold fs
  rw [get_put]
  by_cases heq : q = path
  · subst heq
    rw [if_neg (below_not_above h), if_pos rfl, if_pos rfl]
  · rw [if_neg heq, if_neg heq]

theorem fs_remove (h : Below root path) {q : Path} :
    fs root (tree.remove path) q = if q = path then none else fs root tree q := by
  unfold fs
  rw [get_remove]
  by_cases heq : q = path
  · subst heq
    rw [if_neg (below_not_above h), if_pos rfl, if_pos rfl]
  · rw [if_neg heq, if_neg heq]

theorem Follows.mkdir (h : Follows root tree disk) (hbelow : Below root path) : Follows root tree (disk.mkdir path) := by
  refine ⟨?_, fun op hop => ?_⟩
  · unfold Disk.mkdir
    rw [replay_append]
    funext q
    change fs root ((tree.replay disk.log).put path .dir) q = _
    rw [fs_put hbelow, h.1]
    rfl
  · rcases List.mem_append.mp hop with hop | hop
    · exact h.2 op hop
    · obtain rfl := List.mem_singleton.mp hop
      exact hbelow

theorem Follows.remove (h : Follows root tree disk) (hbelow : Below root path) : Follows root tree (disk.remove path) := by
  refine ⟨?_, fun op hop => ?_⟩
  · unfold Disk.remove
    rw [replay_append]
    funext q
    change fs root ((tree.replay disk.log).remove path) q = _
    rw [fs_remove hbelow, h.1]
    rfl
  · rcases List.mem_append.mp hop with hop | hop
    · exact h.2 op hop
    · obtain rfl := List.mem_singleton.mp hop
      exact hbelow

/-- The chunks of a file, one after the other. -/
theorem get_replay_writes {content : Bytes} {chunks : List Bytes} {q : Path} (h : tree.get path = some (.file content)) :
    (tree.replay (chunks.map (.write i path))).get q =
      if q = path then some (.file (content ++ chunks.flatten)) else tree.get q := by
  induction chunks generalizing tree content with
  | nil =>
    rw [List.flatten_nil, List.append_nil]
    split
    · rename_i heq
      subst heq
      exact h
    · rfl
  | cons chunk chunks ih =>
    have hwritten : (tree.apply (.write i path chunk)).get path = some (.file (content ++ chunk)) := by
      rw [get_write, if_pos rfl, h]
      rfl
    refine (ih hwritten).trans ?_
    rw [List.flatten_cons, List.append_assoc]
    split
    · rfl
    · rename_i hne
      rw [get_write, if_neg hne]

theorem Follows.writeFile (h : Follows root tree disk) (hbelow : Below root path) (chunks : List Bytes) :
    Follows root tree (disk.writeFile i path chunks) := by
  refine ⟨?_, fun op hop => ?_⟩
  · funext q
    change fs root (tree.replay (disk.log ++ .create path :: chunks.map (.write i path))) q = _
    rw [replay_append]
    change fs root (((tree.replay disk.log).put path (.file [])).replay (chunks.map (.write i path))) q = _
    have hfile : ((tree.replay disk.log).put path (.file [])).get path = some (.file []) := by rw [get_put, if_pos rfl]
    have hafter := fun q => @get_replay_writes path _ i [] chunks q hfile
    unfold fs
    rw [hafter, List.nil_append]
    change _ = if q = path then some (.file chunks.flatten) else disk.fs q
    by_cases heq : q = path
    · subst heq
      rw [if_neg (below_not_above hbelow), if_pos rfl, if_pos rfl]
    · rw [if_neg heq, if_neg heq, get_put, if_neg heq, ← h.1]
      rfl
  · rcases List.mem_append.mp hop with hop | hop
    · exact h.2 op hop
    · rcases List.mem_cons.mp hop with rfl | hop
      · exact hbelow
      · obtain ⟨chunk, -, rfl⟩ := List.mem_map.mp hop
        exact hbelow

theorem Follows.mkdirp (h : Follows root tree disk) (base : List Text) :
    Follows root tree (Archive.mkdirp disk (root ++ base) segments).1 := by
  induction segments generalizing disk base with
  | nil => exact h
  | cons segment rest ih =>
    have hbelow : Below root (root ++ base ++ [segment]) := ⟨base ++ [segment], by simp, List.append_assoc _ _ _⟩
    unfold Archive.mkdirp
    split
    · rw [List.append_assoc]
      exact ih h _
    · exact h
    · have hmade := h.mkdir hbelow
      rw [List.append_assoc] at hmade ⊢
      exact ih hmade _

theorem Follows.writeEntry (h : Follows root tree s.disk) (hbelow : Below root path) (stripped : List Text) (stream : Stream) :
    Follows root tree (Archive.writeEntry x s i path entry stripped stream).1.disk := by
  unfold Archive.writeEntry
  dsimp only
  split
  · exact h
  · exact h.remove hbelow
  · split
    · exact (h.writeFile hbelow _).remove hbelow
    · exact h.writeFile hbelow _

/-- **The step**: whatever becomes of a member. -/
theorem Follows.extractEntry (h : Follows root tree s.disk) (hready : Ready root s.disk.fs) (hclean : Clean entry.path) :
    Follows root tree (Archive.extractEntry x root central s i entry).1.disk := by
  have hclean' : Clean (entry.path.drop x.stripComponents) := fun segment hmem => hclean segment (List.mem_of_mem_drop hmem)
  unfold Archive.extractEntry
  dsimp only
  split
  · exact h
  rename_i hne
  split
  · exact h
  rename_i absolute habsolute
  obtain rfl := destinationFor_ok hclean' habsolute
  have hmkdir : (if entry.isDirectory = true then root ++ entry.path.drop x.stripComponents
      else (root ++ entry.path.drop x.stripComponents).dropLast) =
      root ++ if entry.isDirectory = true then entry.path.drop x.stripComponents
        else (entry.path.drop x.stripComponents).dropLast := by
    split
    · rfl
    · exact List.dropLast_append_of_ne_nil hne
  rw [hmkdir, hready.through]
  have hdirs : Follows root tree (Archive.mkdirp s.disk root (if entry.isDirectory = true then entry.path.drop x.stripComponents
      else (entry.path.drop x.stripComponents).dropLast)).1 := by
    have hmade := @Follows.mkdirp root tree s.disk (if entry.isDirectory = true then entry.path.drop x.stripComponents
      else (entry.path.drop x.stripComponents).dropLast) h []
    rwa [List.append_nil] at hmade
  generalize Archive.mkdirp s.disk root _ = result at hdirs
  obtain ⟨disk, blocked⟩ := result
  dsimp only at hdirs ⊢
  split
  · exact hdirs
  split
  · exact hdirs
  split
  · exact hdirs
  · exact Follows.writeEntry hdirs ⟨_, hne, rfl⟩ _ _

/-- **The run**. -/
theorem Follows.extractEntries (h : Follows root tree s.disk) (hready : Ready root s.disk.fs)
    (hclean : ∀ entry ∈ entries, Clean entry.path) :
    Follows root tree (Archive.extractEntries x root central s i entries).1.disk := by
  induction entries generalizing s i with
  | nil => exact h
  | cons entry entries ih =>
    have hstep := @Follows.extractEntry root tree x s central entry i h hready (hclean entry List.mem_cons_self)
    obtain ⟨-, hready'⟩ := extractEntry_adds x central i hready (hclean entry List.mem_cons_self)
    unfold Archive.extractEntries
    split
    · rename_i heq
      rw [heq] at hstep
      exact hstep
    · rename_i heq
      rw [heq] at hstep hready'
      exact ih hstep hready' fun e he => hclean e (List.mem_cons_of_mem _ he)

end Replay

/-- The tree as a destination: its root is a directory. -/
def destination (root : Path) (tree : Tree) (h : tree.get root = some .dir) : Destination where
  root := root
  fs := fs root tree
  ready q hq := by
    unfold fs
    split
    · rfl
    · rename_i hnot
      obtain rfl : q = root := by
        refine hq.eq_of_length (by_contra fun hne => hnot ⟨lt_of_le_of_ne hq.length_le hne, ?_⟩)
        exact (List.prefix_iff_eq_take.mp hq)
      exact h

/-- **Played back, the log of an extraction is the disk it ends with**, and it touches nothing but what is below the root. -/
theorem replay_extractArchive (x : Extraction) {root : Path} {tree : Tree} (h : tree.get root = some .dir) :
    fs root (tree.replay (extractArchive x root (fs root tree)).1.log) = (extractArchive x root (fs root tree)).1.fs ∧
      ∀ op ∈ (extractArchive x root (fs root tree)).1.log, Below root op.path := by
  have hstart : Follows root tree ⟨fs root tree, []⟩ := ⟨rfl, nofun⟩
  cases hinspect : inspectArchive x.bytes x.limits with
  | error failure =>
    have herror := extractArchive_error (destination root tree h) hinspect
    change extractArchive x root (fs root tree) = _ at herror
    rw [herror]
    exact hstart
  | ok inspection =>
    have hok := extractArchive_ok (destination root tree h) hinspect
    change extractArchive x root (fs root tree) = _ at hok
    rw [hok]
    exact Follows.extractEntries hstart (destination root tree h).ready (inspectArchive_directory hinspect).2.1

/-- What is done below the root leaves the root where it is. -/
theorem replay_root {root : Path} {rest : Tree} {log : List Effect} (hlog : ∀ op ∈ log, Below root op.path)
    (hrest : ∀ entry ∈ rest, Below root entry.1) :
    ∃ rest', replay ((root, .dir) :: rest) log = (root, .dir) :: rest' ∧ ∀ entry ∈ rest', Below root entry.1 := by
  induction log generalizing rest with
  | nil => exact ⟨rest, rfl, hrest⟩
  | cons op log ih =>
    have hop := hlog op List.mem_cons_self
    have hne : root ≠ op.path := by
      obtain ⟨r, hr, heq⟩ := hop
      rw [heq]
      exact fun h => hr (by simpa using h)
    have hremove : remove ((root, .dir) :: rest) op.path = (root, .dir) :: rest.remove op.path := by
      unfold remove
      rw [List.filter_cons_of_pos (by simpa using hne)]
    have hkept : ∀ entry ∈ rest.remove op.path, Below root entry.1 := fun entry h => hrest entry (List.mem_filter.mp h).1
    have hput (node : Node) : ∀ entry ∈ rest.remove op.path ++ [(op.path, node)], Below root entry.1 := fun entry h => by
      rcases List.mem_append.mp h with h | h
      · exact hkept entry h
      · rw [List.mem_singleton.mp h]
        exact hop
    have hstep : ∃ rest', apply ((root, .dir) :: rest) op = (root, .dir) :: rest' ∧ ∀ entry ∈ rest', Below root entry.1 := by
      cases op with
      | mkdir path => exact ⟨_, congrArg (· ++ [(path, Node.dir)]) hremove, hput _⟩
      | create path => exact ⟨_, congrArg (· ++ [(path, Node.file [])]) hremove, hput _⟩
      | remove path => exact ⟨_, hremove, hkept⟩
      | write member path bytes =>
        refine ⟨_, congrArg₂ List.cons (if_neg hne) rfl, fun entry h => ?_⟩
        obtain ⟨before, hmem, rfl⟩ := List.mem_map.mp h
        have hbefore := hrest before hmem
        split
        · exact hbefore
        · exact hbefore
    obtain ⟨rest', happly, hrest'⟩ := hstep
    have hlater := ih (fun op' h => hlog op' (List.mem_cons_of_mem _ h)) hrest'
    rw [← happly] at hlater
    exact hlater

end Tree

end WebAudit.Archive
