import Mathlib.Data.List.Induction
import Mathlib.Data.List.Nodup

/-!
# File trees

A tree of files, directories and symbolic links, as the list of its entries; an entry is known by its location, the
names on the way to it from the root. A path is a list of steps, and walking along one from the root follows the
links it meets, so that a path may lead somewhere else than its names say. `FileTree.entry` is what a path names when its
last link is not followed.
-/

namespace WebAudit.Lib

/-- A step of a path: a name, `.`, `..`, or nothing between two separators or after the last. -/
inductive PathStep (ν : Type) where
  | name (n : ν)
  | here
  | up
  | empty
  deriving DecidableEq

inductive EntryKind (ν : Type) where
  | file
  | directory
  /-- A symbolic link. -/
  | link (absolute : Bool) (target : List (PathStep ν))
  deriving DecidableEq

/-- Why a call of the file system fails. -/
inductive Errno where
  /-- `ENOENT`. -/
  | missing
  /-- `ENOTDIR`. -/
  | notDirectory
  /-- `ELOOP`. -/
  | loop
  /-- `EISDIR`. -/
  | isDirectory
  /-- `ENOTEMPTY`. -/
  | notEmpty
  /-- `EINVAL`. -/
  | invalid
  /-- `EBUSY`. -/
  | busy
  /-- `EEXIST`. -/
  | existing
  /-- `EPERM`. -/
  | denied
  deriving DecidableEq

structure FileTree (ν : Type) where
  entries : List (List ν × EntryKind ν)
  deriving DecidableEq

/-- As many links are followed on the way as Linux follows. -/
def linkBudget : ℕ := 40

/-- The path of a location. -/
def pathOf {ν : Type} (names : List ν) : List (PathStep ν) := names.map .name

/-- What a path comes to by its names alone: `path.resolve`, for an absolute path. -/
def lexical {ν : Type} (path : List (PathStep ν)) : List ν :=
  path.foldl (fun names step =>
    match step with
    | .name n => names ++ [n]
    | .up => names.dropLast
    | .here => names
    | .empty => names) []

section Paths

variable {ν : Type}

@[simp] theorem pathOf_append (a b : List ν) : pathOf (a ++ b) = pathOf a ++ pathOf b := List.map_append

theorem lexical_pathOf (names : List ν) : lexical (pathOf names) = names := by
  have h (start : List ν) : (pathOf names).foldl (fun names step =>
      match step with
      | .name n => names ++ [n]
      | .up => names.dropLast
      | .here => names
      | .empty => names) start = start ++ names := by
    induction names generalizing start with
    | nil => exact (List.append_nil start).symm
    | cons n names ih => exact (ih _).trans (List.append_assoc start [n] names)
  exact (h []).trans (List.nil_append names)

end Paths

namespace FileTree

section Operations

variable {ν : Type} [DecidableEq ν] (t : FileTree ν)

/-- What is at a location; the root is a directory. -/
def at? (location : List ν) : Option (EntryKind ν) :=
  if location = [] then some .directory else (t.entries.find? fun e => e.1 = location).map (·.2)

/-- The names in a directory. -/
def names (location : List ν) : List ν :=
  t.entries.filterMap fun e => if e.1.dropLast = location then e.1.getLast? else none

def insert (location : List ν) (kind : EntryKind ν) : FileTree ν := ⟨t.entries ++ [(location, kind)]⟩

def remove (location : List ν) : FileTree ν := ⟨t.entries.filter fun e => e.1 ≠ location⟩

/-- Along the steps; at a link `expand` goes on. -/
def walkOn (expand : List ν → List (PathStep ν) → Except Errno (List ν)) : List ν → List (PathStep ν) → Except Errno (List ν)
  | location, [] => .ok location
  | location, .here :: rest => walkOn expand location rest
  | location, .empty :: rest => walkOn expand location rest
  | location, .up :: rest => walkOn expand location.dropLast rest
  | location, .name n :: rest =>
    match t.at? (location ++ [n]) with
    | none => .error .missing
    | some .directory => walkOn expand (location ++ [n]) rest
    | some .file => if rest = [] then .ok (location ++ [n]) else .error .notDirectory
    | some (.link absolute target) => expand (if absolute then [] else location) (target ++ rest)

/-- Along the steps, over so many links at most. -/
def walk : ℕ → List ν → List (PathStep ν) → Except Errno (List ν)
  | 0 => t.walkOn fun _ _ => .error .loop
  | budget + 1 => t.walkOn (walk budget)

/-- `realpath`, for an absolute path. -/
def realpath (path : List (PathStep ν)) : Except Errno (List ν) := t.walk linkBudget [] path

/-- The location of a name in the directory that a path leads to. -/
def child (path : List (PathStep ν)) (n : ν) : Except Errno (List ν) :=
  match t.realpath path with
  | .error e => .error e
  | .ok location => if t.at? location = some .directory then .ok (location ++ [n]) else .error .notDirectory

/-- The location of what a path names: a link at its end is not followed. -/
def entry (path : List (PathStep ν)) : Except Errno (List ν) :=
  match path.getLast? with
  | some (.name n) =>
    match t.child path.dropLast n with
    | .error e => .error e
    | .ok location => if (t.at? location).isSome then .ok location else .error .missing
  | _ => t.realpath path

/-- Without what says nothing at the end of a path. -/
def trimmed (path : List (PathStep ν)) : List (PathStep ν) := (path.reverse.dropWhile (· = .empty)).reverse

/-- `unlink`; some entries cannot be removed. -/
def unlink (locked : List ν → Bool) (path : List (PathStep ν)) : Except Errno (FileTree ν) :=
  match t.entry path with
  | .error e => .error e
  | .ok location =>
    if t.at? location = some .directory then .error .isDirectory
    else if locked location then .error .denied
    else .ok (t.remove location)

/-- `rmdir`. -/
def rmdir (locked : List ν → Bool) (path : List (PathStep ν)) : Except Errno (FileTree ν) :=
  match (trimmed path).getLast? with
  | none => .error .busy
  | some .here => .error .invalid
  | some .up => .error .notEmpty
  | some .empty => .error .invalid
  | some (.name _) =>
    match t.entry (trimmed path) with
    | .error e => .error e
    | .ok location =>
      if locked location then .error .denied
      else if t.at? location ≠ some .directory then .error .notDirectory
      else if t.names location ≠ [] then .error .notEmpty
      else .ok (t.remove location)

/-- `readdir`. -/
def readdir (path : List (PathStep ν)) : Except Errno (List ν) :=
  match t.realpath path with
  | .error e => .error e
  | .ok location => if t.at? location = some .directory then .ok (t.names location) else .error .notDirectory

/-- `mkdir`. -/
def mkdir (path : List (PathStep ν)) (n : ν) : Except Errno (FileTree ν) :=
  match t.child path n with
  | .error e => .error e
  | .ok location => if (t.at? location).isSome then .error .existing else .ok (t.insert location .directory)

/-- No entry is deeper. -/
def height : ℕ := t.entries.foldr (fun e depth => max e.1.length depth) 0

/-- No location occurs twice, and each is in a directory. -/
structure WellFormed (t : FileTree ν) : Prop where
  nodup : (t.entries.map (·.1)).Nodup
  inDirectory : ∀ e ∈ t.entries, e.1 ≠ [] ∧ t.at? e.1.dropLast = some .directory

/-- What is in one tree is in the other. -/
def Within (t t' : FileTree ν) : Prop := ∀ location kind, t.at? location = some kind → t'.at? location = some kind

end Operations

/-! ### Entries -/

section Entries

variable {ν : Type} [DecidableEq ν] {t t' : FileTree ν} {location place : List ν} {kind : EntryKind ν} {n : ν}

@[simp] theorem at?_nil : t.at? [] = some .directory := rfl

theorem at?_isSome_iff : (t.at? location).isSome = true ↔ location = [] ∨ ∃ e ∈ t.entries, e.1 = location := by
  unfold at?
  by_cases h : location = []
  · simp [h]
  · simp [h]

theorem at?_eq_none_iff : t.at? location = none ↔ location ≠ [] ∧ ∀ e ∈ t.entries, e.1 ≠ location := by
  rw [← Option.not_isSome_iff_eq_none, at?_isSome_iff]
  push Not
  exact Iff.rfl

theorem at?_remove (h : location ≠ []) : (t.remove location).at? place = if place = location then none else t.at? place := by
  unfold at? remove
  by_cases hplace : place = []
  · subst hplace
    rw [if_pos rfl, if_neg (Ne.symm h), if_pos rfl]
  · rw [if_neg hplace, if_neg hplace]
    split
    · rename_i heq
      subst heq
      rw [Option.map_eq_none_iff, List.find?_eq_none]
      intro e he
      have := (List.mem_filter.mp he).2
      simpa using this
    · rename_i hne
      congr 1
      rw [List.find?_filter]
      congr 1
      funext e
      by_cases he : e.1 = place
      · simp [he, hne]
      · simp [he]

theorem at?_insert (h : t.at? location = none) : (t.insert location kind).at? place = if place = location then some kind else t.at? place := by
  obtain ⟨hne, hfresh⟩ := at?_eq_none_iff.mp h
  unfold at? insert
  by_cases hplace : place = []
  · subst hplace
    rw [if_pos rfl, if_neg (Ne.symm hne), if_pos rfl]
  · rw [if_neg hplace, if_neg hplace, List.find?_append]
    split
    · rename_i heq
      subst heq
      have hnone : t.entries.find? (fun e => e.1 = place) = none := List.find?_eq_none.mpr fun e he => by simpa using hfresh e he
      rw [hnone]
      simp
    · rename_i hne'
      simp [Ne.symm hne']

theorem mem_names_iff : n ∈ t.names location ↔ (t.at? (location ++ [n])).isSome = true := by
  rw [at?_isSome_iff]
  unfold names
  rw [List.mem_filterMap]
  constructor
  · rintro ⟨e, he, h⟩
    split at h
    · rename_i hdir
      refine .inr ⟨e, he, ?_⟩
      rw [← hdir]
      exact (List.dropLast_append_getLast? n h).symm
    · cases h
  · rintro (h | ⟨e, he, heq⟩)
    · simp at h
    · exact ⟨e, he, by rw [heq, List.dropLast_concat, if_pos rfl, List.getLast?_concat]⟩

theorem length_le_height (h : (t.at? location).isSome = true) : location.length ≤ t.height := by
  rcases at?_isSome_iff.mp h with rfl | ⟨e, he, rfl⟩
  · exact Nat.zero_le _
  · clear h
    unfold height
    obtain ⟨entries⟩ := t
    dsimp only at he ⊢
    induction entries with
    | nil => cases he
    | cons a entries ih =>
      rcases List.mem_cons.mp he with rfl | he
      · exact Nat.le_max_left _ _
      · exact Nat.le_trans (ih he) (Nat.le_max_right _ _)

end Entries

/-! ### Walks -/

section Walks

variable {ν : Type} [DecidableEq ν] {t t' : FileTree ν} {location place : List ν} {path rest : List (PathStep ν)} {n : ν} {budget : ℕ}

theorem walk_eq (t : FileTree ν) (budget : ℕ) : t.walk budget =
    t.walkOn (match budget with | 0 => fun _ _ => .error .loop | budget + 1 => t.walk budget) := by
  cases budget <;> rfl

theorem walk_nil : t.walk budget location [] = .ok location := by
  rw [walk_eq]
  rfl

theorem walk_name : t.walk budget location (.name n :: rest) =
    match t.at? (location ++ [n]) with
    | none => .error .missing
    | some .directory => t.walk budget (location ++ [n]) rest
    | some .file => if rest = [] then .ok (location ++ [n]) else .error .notDirectory
    | some (.link absolute target) =>
      match budget with
      | 0 => .error .loop
      | budget + 1 => t.walk budget (if absolute then [] else location) (target ++ rest) := by
  rw [walk_eq, walkOn]
  cases budget <;> rfl

theorem walkOn_name {expand : List ν → List (PathStep ν) → Except Errno (List ν)} : t.walkOn expand location (.name n :: rest) =
    match t.at? (location ++ [n]) with
    | none => .error .missing
    | some .directory => t.walkOn expand (location ++ [n]) rest
    | some .file => if rest = [] then .ok (location ++ [n]) else .error .notDirectory
    | some (.link absolute target) => expand (if absolute then [] else location) (target ++ rest) := rfl

theorem Within.walkOn {expand expand' : List ν → List (PathStep ν) → Except Errno (List ν)} (h : t.Within t')
    (he : ∀ location path, expand location path = .ok place → expand' location path = .ok place)
    (hw : t.walkOn expand location path = .ok place) : t'.walkOn expand' location path = .ok place := by
  induction path generalizing location with
  | nil => exact hw
  | cons step rest ih =>
    cases step with
    | name n =>
      rw [walkOn_name] at hw ⊢
      split at hw
      · cases hw
      · rename_i hat
        rw [h _ _ hat]
        exact ih hw
      · rename_i hat
        rw [h _ _ hat]
        exact hw
      · rename_i hat
        rw [h _ _ hat]
        exact he _ _ hw
    | here => exact ih hw
    | up => exact ih hw
    | empty => exact ih hw

/-- **A walk leads to the same place** in every tree that has what it met. -/
theorem Within.walk (h : t.Within t') (hw : t.walk budget location path = .ok place) : t'.walk budget location path = .ok place := by
  induction budget generalizing location path with
  | zero => exact h.walkOn (fun _ _ (he : Except.error Errno.loop = .ok place) => nomatch he) hw
  | succ budget ih => exact h.walkOn (fun _ _ he => ih he) hw

theorem walkOn_append {expand expand' : List ν → List (PathStep ν) → Except Errno (List ν)} {r : Except Errno (List ν)}
    (hplace : t.at? place = some .directory) (hrest : t.walkOn expand' place rest = r)
    (he : ∀ location path, expand location path = .ok place → expand' location (path ++ rest) = r)
    (hw : t.walkOn expand location path = .ok place) : t.walkOn expand' location (path ++ rest) = r := by
  induction path generalizing location with
  | nil =>
    obtain rfl : location = place := Except.ok.inj hw
    exact hrest
  | cons step more ih =>
    cases step with
    | name n =>
      rw [List.cons_append, walkOn_name]
      rw [walkOn_name] at hw
      split at hw
      · cases hw
      · exact ih hw
      · rename_i hat
        split at hw
        · obtain rfl := Except.ok.inj hw
          rw [hat] at hplace
          cases hplace
        · cases hw
      · rw [← List.append_assoc]
        exact he _ _ hw
    | here => exact ih hw
    | up => exact ih hw
    | empty => exact ih hw

/-- A walk to a directory is gone on from there. -/
theorem walk_append {r : Except Errno (List ν)} (hplace : t.at? place = some .directory) (hrest : ∀ budget, t.walk budget place rest = r)
    (hw : t.walk budget location path = .ok place) : t.walk budget location (path ++ rest) = r := by
  induction budget generalizing location path with
  | zero => exact walkOn_append hplace (hrest 0) (fun _ _ (he : Except.error Errno.loop = .ok place) => nomatch he) hw
  | succ budget ih => exact walkOn_append hplace (hrest (budget + 1)) (fun _ _ he => ih he) hw

/-- Along directories no link is met. -/
theorem walk_directories {names : List ν} (h : ∀ s, s <+: names → t.at? (location ++ s) = some .directory) :
    t.walk budget location (pathOf names) = .ok (location ++ names) := by
  induction names generalizing location with
  | nil =>
    rw [List.append_nil]
    exact walk_nil
  | cons n names ih =>
    have hn := h [n] ⟨names, rfl⟩
    have hrest : ∀ s, s <+: names → t.at? (location ++ [n] ++ s) = some .directory := by
      rintro s ⟨tail, rfl⟩
      rw [List.append_assoc]
      exact h (n :: s) ⟨tail, rfl⟩
    have hcons : pathOf (n :: names) = .name n :: pathOf names := rfl
    rw [hcons, walk_name, hn]
    dsimp only
    rw [ih hrest, List.append_assoc]
    rfl

end Walks

/-! ### What a path names -/

section Names

variable {ν : Type} [DecidableEq ν] {t t' : FileTree ν} {location place base : List ν} {path : List (PathStep ν)} {n : ν} {names : List ν}

/-- A path leads to this directory. -/
def Leads (t : FileTree ν) (path : List (PathStep ν)) (place : List ν) : Prop := t.realpath path = .ok place ∧ t.at? place = some .directory

theorem Within.leads (h : t.Within t') (hl : t.Leads path place) : t'.Leads path place := ⟨h.walk hl.1, h _ _ hl.2⟩

/-- So does every path that goes on along directories. -/
theorem Leads.append (h : t.Leads path place) (hd : ∀ s, s <+: names → t.at? (place ++ s) = some .directory) :
    t.Leads (path ++ pathOf names) (place ++ names) :=
  ⟨walk_append h.2 (fun _ => walk_directories hd) h.1, hd names List.prefix_rfl⟩

theorem child_of_leads (h : t.Leads path place) : t.child path n = .ok (place ++ [n]) := by
  unfold child
  rw [h.1]
  exact if_pos h.2

theorem leads_of_child (h : t.child path n = .ok location) : ∃ place, location = place ++ [n] ∧ t.Leads path place := by
  unfold child at h
  split at h
  · cases h
  · rename_i place hplace
    split at h
    · rename_i hdir
      exact ⟨place, (Except.ok.inj h).symm, hplace, hdir⟩
    · cases h

theorem entry_concat : t.entry (path ++ [.name n]) =
    match t.child path n with
    | .error e => .error e
    | .ok location => if (t.at? location).isSome then .ok location else .error .missing := by
  unfold entry
  rw [List.getLast?_concat, List.dropLast_concat]

/-- The entry of a name in a directory. -/
theorem entry_of_leads (h : t.Leads path place) :
    t.entry (path ++ [.name n]) = if (t.at? (place ++ [n])).isSome then .ok (place ++ [n]) else .error .missing := by
  rw [entry_concat, child_of_leads h]

theorem leads_of_entry (h : t.entry (path ++ [.name n]) = .ok location) : ∃ place, location = place ++ [n] ∧ t.Leads path place := by
  rw [entry_concat] at h
  split at h
  · cases h
  · rename_i l hl
    split at h
    · obtain rfl := Except.ok.inj h
      exact leads_of_child hl
    · cases h

theorem trimmed_concat : trimmed (path ++ [.name n]) = path ++ [.name n] := by
  unfold trimmed
  rw [List.reverse_append]
  simp

end Names

/-! ### Well-formed trees -/

section WellFormedTrees

variable {ν : Type} [DecidableEq ν] {t : FileTree ν} {location place : List ν} {kind : EntryKind ν} {n : ν}

theorem WellFormed.parent (h : t.WellFormed) (hs : (t.at? (location ++ [n])).isSome = true) : t.at? location = some .directory := by
  rcases at?_isSome_iff.mp hs with hnil | ⟨e, he, heq⟩
  · simp at hnil
  · have := (h.inDirectory e he).2
    rwa [heq, List.dropLast_concat] at this

/-- What is on the way to an entry is a directory. -/
theorem WellFormed.directory (h : t.WellFormed) (hs : (t.at? place).isSome = true) (hle : location <+: place) (hne : location ≠ place) :
    t.at? location = some .directory := by
  obtain ⟨tail, rfl⟩ := hle
  induction tail using List.reverseRecOn with
  | nil => exact absurd (List.append_nil location).symm hne
  | append_singleton tail n ih =>
    rw [← List.append_assoc] at hs
    have hparent := h.parent hs
    by_cases htail : tail = []
    · subst htail
      rwa [List.append_nil] at hparent
    · refine ih (by rw [hparent]; rfl) fun heq => htail ?_
      exact List.append_cancel_left (heq.symm.trans (List.append_nil location).symm)

/-- Nothing is below what is not there. -/
theorem WellFormed.none_below (h : t.WellFormed) (hn : t.at? location = none) (hle : location <+: place) : t.at? place = none := by
  by_contra hs
  have hs := Option.isSome_iff_ne_none.mpr hs
  by_cases heq : location = place
  · rw [← heq, hn] at hs
    cases hs
  · rw [h.directory hs hle heq] at hn
    cases hn

/-- A walk ends at a directory or a file. -/
theorem WellFormed.walk_kind (h : t.WellFormed) {budget : ℕ} {path : List (PathStep ν)} (hdir : t.at? location = some .directory)
    (hw : t.walk budget location path = .ok place) : t.at? place = some .directory ∨ t.at? place = some .file := by
  have hon {expand : List ν → List (PathStep ν) → Except Errno (List ν)}
      (he : ∀ location path, t.at? location = some .directory → expand location path = .ok place → t.at? place = some .directory ∨ t.at? place = some .file)
      {location : List ν} {path : List (PathStep ν)} (hdir : t.at? location = some .directory) (hw : t.walkOn expand location path = .ok place) :
      t.at? place = some .directory ∨ t.at? place = some .file := by
    induction path generalizing location with
    | nil =>
      obtain rfl : location = place := Except.ok.inj hw
      exact .inl hdir
    | cons step rest ih =>
      cases step with
      | name n =>
        rw [walkOn_name] at hw
        split at hw
        · cases hw
        · rename_i hat
          exact ih hat hw
        · rename_i hat
          split at hw
          · obtain rfl := Except.ok.inj hw
            exact .inr hat
          · cases hw
        · refine he _ _ ?_ hw
          split
          · rfl
          · exact hdir
      | here => exact ih hdir hw
      | up =>
        refine ih ?_ hw
        by_cases hnil : location = []
        · subst hnil
          rfl
        · refine h.parent (n := location.getLast hnil) ?_
          rw [List.dropLast_append_getLast, hdir]
          rfl
      | empty => exact ih hdir hw
  induction budget generalizing location path with
  | zero => exact hon (fun _ _ _ (he : Except.error Errno.loop = .ok place) => nomatch he) hdir hw
  | succ budget ih => exact hon (fun _ _ hdir he => ih hdir he) hdir hw

/-- The names of a directory are the way to it. -/
theorem WellFormed.leads_pathOf (h : t.WellFormed) (hdir : t.at? place = some .directory) : t.Leads (pathOf place) place := by
  refine ⟨walk_directories fun s hs => ?_, hdir⟩
  rw [List.nil_append]
  by_cases heq : s = place
  · rw [heq]
    exact hdir
  · exact h.directory (by rw [hdir]; rfl) hs heq

/-- From a directory to a file in it, and no further. -/
theorem Leads.file {path rest : List (PathStep ν)} (h : t.Leads path location) (hfile : t.at? (location ++ [n]) = some .file) :
    t.realpath (path ++ .name n :: rest) = if rest = [] then .ok (location ++ [n]) else .error .notDirectory := by
  refine walk_append h.2 (fun budget => ?_) h.1
  rw [walk_name, hfile]

/-- The names of what is neither missing nor a link lead to it. -/
theorem WellFormed.realpath_pathOf (h : t.WellFormed) (hk : t.at? place = some .directory ∨ t.at? place = some .file) :
    t.realpath (pathOf place) = .ok place := by
  rcases hk with hdir | hfile
  · exact (h.leads_pathOf hdir).1
  · rcases List.eq_nil_or_concat' place with rfl | ⟨names, n, rfl⟩
    · cases hfile
    · rw [pathOf_append]
      exact (h.leads_pathOf (h.parent (by rw [hfile]; rfl))).file hfile

/-- What has nothing below it may go. -/
theorem WellFormed.remove (h : t.WellFormed) (hne : location ≠ []) (hempty : t.names location = []) : (t.remove location).WellFormed := by
  refine ⟨h.nodup.sublist (List.filter_sublist.map _), fun e he => ?_⟩
  obtain ⟨he, -⟩ := List.mem_filter.mp he
  obtain ⟨hnil, hdir⟩ := h.inDirectory e he
  refine ⟨hnil, ?_⟩
  rw [at?_remove hne, if_neg fun heq => ?_]
  · exact hdir
  · have hmem : e.1.getLast hnil ∈ t.names location := by
      rw [mem_names_iff, ← heq, List.dropLast_append_getLast]
      exact at?_isSome_iff.mpr (.inr ⟨e, he, rfl⟩)
    rw [hempty] at hmem
    cases hmem

theorem WellFormed.insert (h : t.WellFormed) (hfresh : t.at? (location ++ [n]) = none) (hdir : t.at? location = some .directory) :
    (t.insert (location ++ [n]) kind).WellFormed := by
  have hkeep {l : List ν} (hl : t.at? l = some .directory) : (t.insert (location ++ [n]) kind).at? l = some .directory := by
    rw [at?_insert hfresh, if_neg fun heq => ?_]
    · exact hl
    · rw [heq, hfresh] at hl
      cases hl
  refine ⟨?_, fun e he => ?_⟩
  · unfold FileTree.insert
    rw [List.map_append, List.nodup_append]
    refine ⟨h.nodup, List.nodup_singleton _, fun a ha b hb => ?_⟩
    obtain ⟨e, he, rfl⟩ := List.mem_map.mp ha
    obtain rfl := List.mem_singleton.mp hb
    exact (at?_eq_none_iff.mp hfresh).2 e he
  · rcases List.mem_append.mp he with he | he
    · exact ⟨(h.inDirectory e he).1, hkeep (h.inDirectory e he).2⟩
    · obtain rfl := List.mem_singleton.mp he
      refine ⟨by simp, ?_⟩
      rw [List.dropLast_concat]
      exact hkeep hdir

theorem within_insert (hfresh : t.at? location = none) : t.Within (t.insert location kind) := by
  intro place k hk
  rw [at?_insert hfresh, if_neg fun heq => ?_]
  · exact hk
  · rw [heq, hfresh] at hk
    cases hk

/-- What is not a directory has no names in it. -/
theorem WellFormed.names_eq_nil (h : t.WellFormed) (hk : t.at? location ≠ some .directory) : t.names location = [] := by
  rw [List.eq_nil_iff_forall_not_mem]
  exact fun n hn => hk (h.parent (mem_names_iff.mp hn))

end WellFormedTrees

end FileTree

end WebAudit.Lib
