import Mathlib.Data.List.Basic
import Mathlib.Order.Nat

/-!
# Tables under READ COMMITTED

A statement sees the rows as they are committed when it begins. An update visits the rows of its
snapshot that match: where another transaction has written the row it waits, and then looks at the
row again. What it writes is locked until its own transaction ends. A row that is inserted meanwhile
is not visited, so what an update achieves is `Swept`.

What the steps of others leave alone is `Spares`.
-/

namespace WebAudit.Lib

/-- A row as it is committed, and the transaction under way that has written it. -/
structure Tuple (ρ : Type) where
  row : ρ
  xmax : Option ℕ
  deriving DecidableEq

/-- The id of a row is its position. -/
abbrev Table (ρ : Type) := List (Tuple ρ)

/-- An update under way: the rows it has yet to visit, and how many rows its snapshot has. -/
structure Cursor where
  todo : List ℕ
  seen : ℕ
  deriving DecidableEq

inductive Visit where
  | waits
  | misses
  | takes
  deriving DecidableEq

namespace Table

variable {ρ : Type} (table : Table ρ)

/-- The committed rows. -/
def rows : List ρ := table.map Tuple.row

/-- An update of the rows that satisfy `p` begins. -/
def scan (p : ρ → Bool) : Cursor :=
  ⟨(List.range table.length).filter fun i => table[i]?.any fun u => p u.row, table.length⟩

/-- It comes to row `i`. -/
def visit (p : ρ → Bool) (i : ℕ) : Visit :=
  match table[i]? with
  | none => .misses
  | some u => if u.xmax.isSome then .waits else if p u.row then .takes else .misses

/-- An update goes on to row `i` of those it has yet to visit, and says whether it writes it. -/
def advance (p : ρ → Bool) (cursor : Cursor) (i : ℕ) : Option (Cursor × Bool) :=
  if i ∈ cursor.todo then
    match table.visit p i with
    | .waits => none
    | .misses => some (⟨cursor.todo.erase i, cursor.seen⟩, false)
    | .takes => some (⟨cursor.todo.erase i, cursor.seen⟩, true)
  else none

def lock (me i : ℕ) : Table ρ := table.modify i fun u => { u with xmax := some me }

/-- A transaction that has written `f` to the rows it has locked is committed; it is rolled back with `id`. -/
def commit (me : ℕ) (f : ρ → ρ) : Table ρ := table.map fun u => if u.xmax = some me then ⟨f u.row, none⟩ else u

def insert (row : ρ) : Table ρ := table ++ [⟨row, none⟩]

end Table

section Steps

variable {ρ : Type} {table : Table ρ} {p : ρ → Bool} {f : ρ → ρ} {me i j : ℕ} {u : Tuple ρ} {row : ρ}

theorem visit_takes (h : table.visit p i = .takes) : ∃ row, table[i]? = some ⟨row, none⟩ ∧ p row = true := by
  unfold Table.visit at h
  split at h
  · cases h
  rename_i u hu
  split at h
  · cases h
  rename_i hxmax
  split at h
  · rename_i hp
    obtain ⟨row, xmax⟩ := u
    obtain rfl : xmax = none := by simpa using hxmax
    exact ⟨row, hu, hp⟩
  · cases h

theorem visit_misses (h : table.visit p i = .misses) (hu : table[i]? = some u) : p u.row = false := by
  unfold Table.visit at h
  rw [hu] at h
  dsimp only at h
  split at h
  · cases h
  split at h
  · cases h
  · rename_i hp
    simpa using hp

@[simp] theorem lock_length : (table.lock me i).length = table.length := List.length_modify ..

@[simp] theorem commit_length : (table.commit me f).length = table.length := List.length_map ..

@[simp] theorem insert_length : (table.insert row).length = table.length + 1 := by
  simp [Table.insert]

theorem lock_cases (h : (table.lock me i)[j]? = some u) :
    (j = i ∧ ∃ v, table[i]? = some v ∧ u = { v with xmax := some me }) ∨ j ≠ i ∧ table[j]? = some u := by
  unfold Table.lock at h
  rw [List.getElem?_modify] at h
  obtain ⟨v, hv, rfl⟩ := Option.map_eq_some_iff.mp h
  by_cases hij : i = j
  · subst hij
    exact .inl ⟨rfl, v, hv, if_pos rfl⟩
  · exact .inr ⟨Ne.symm hij, by rw [if_neg hij]; exact hv⟩

theorem commit_cases (h : (table.commit me f)[j]? = some u) :
    ∃ v, table[j]? = some v ∧ (v.xmax = some me ∧ u = ⟨f v.row, none⟩ ∨ v.xmax ≠ some me ∧ u = v) := by
  unfold Table.commit at h
  rw [List.getElem?_map] at h
  obtain ⟨v, hv, rfl⟩ := Option.map_eq_some_iff.mp h
  refine ⟨v, hv, ?_⟩
  by_cases hxmax : v.xmax = some me
  · exact .inl ⟨hxmax, if_pos hxmax⟩
  · exact .inr ⟨hxmax, if_neg hxmax⟩

theorem insert_cases (h : (table.insert row)[j]? = some u) :
    (j = table.length ∧ u = ⟨row, none⟩) ∨ j < table.length ∧ table[j]? = some u := by
  unfold Table.insert at h
  by_cases hj : j < table.length
  · rw [List.getElem?_append_left hj] at h
    exact .inr ⟨hj, h⟩
  · rw [List.getElem?_append_right (not_lt.mp hj), List.getElem?_singleton] at h
    split at h
    · exact .inl ⟨by omega, (Option.some.inj h).symm⟩
    · cases h

/-- A lock shows nothing. -/
@[simp] theorem rows_lock : (table.lock me i).rows = table.rows := by
  refine List.ext_getElem? fun j => ?_
  simp only [Table.rows, Table.lock, List.getElem?_map, List.getElem?_modify, Option.map_eq_map, Option.map_map]
  congr 1
  funext u
  dsimp only [Function.comp]
  split <;> rfl

end Steps

/-! ### What others leave alone -/

section Others

variable {ρ : Type} {table table' : Table ρ} {p : ρ → Bool} {f : ρ → ρ} {me other i : ℕ} {row : ρ} {cursor : Cursor}

/-- No row is lost, what `me` has locked is left as it is, and no row comes to match `p`. -/
structure Spares (me : ℕ) (p : ρ → Bool) (table table' : Table ρ) : Prop where
  length : table.length ≤ table'.length
  each : ∀ (i : ℕ) u', i < table.length → table'[i]? = some u' →
    ∃ u, table[i]? = some u ∧ (u.xmax = some me → u' = u) ∧ (p u'.row = true → p u.row = true)

theorem Spares.refl : Spares me p table table := ⟨le_rfl, fun _ u _ hu => ⟨u, hu, fun _ => rfl, id⟩⟩

/-- A free row is locked. -/
theorem spares_lock (hfree : ∀ u, table[i]? = some u → u.xmax = none) : Spares me p table (table.lock other i) := by
  refine ⟨lock_length.ge, fun j u' _ hu' => ?_⟩
  rcases lock_cases hu' with ⟨rfl, u, hu, rfl⟩ | ⟨-, hu⟩
  · refine ⟨u, hu, fun hxmax => ?_, id⟩
    cases (hfree u hu).symm.trans hxmax
  · exact ⟨u', hu, fun _ => rfl, id⟩

/-- Another transaction ends. -/
theorem spares_commit (hne : other ≠ me) (hf : ∀ row, p (f row) = true → p row = true) : Spares me p table (table.commit other f) := by
  refine ⟨commit_length.ge, fun j u' _ hu' => ?_⟩
  obtain ⟨u, hu, ⟨hxmax, rfl⟩ | ⟨-, rfl⟩⟩ := commit_cases hu'
  · refine ⟨u, hu, fun hme => absurd (Option.some.inj (hxmax.symm.trans hme)) hne, hf _⟩
  · exact ⟨u', hu, fun _ => rfl, id⟩

theorem spares_insert : Spares me p table (table.insert row) := by
  refine ⟨by simp, fun j u' hj hu' => ?_⟩
  rcases insert_cases hu' with ⟨rfl, -⟩ | ⟨-, hu⟩
  · exact absurd hj (lt_irrefl _)
  · exact ⟨u', hu, fun _ => rfl, id⟩

theorem Spares.trans {table'' : Table ρ} (h : Spares me p table table') (h' : Spares me p table' table'') :
    Spares me p table table'' := by
  refine ⟨h.length.trans h'.length, fun i u'' hi hu'' => ?_⟩
  obtain ⟨u', hu', hkeeps', hmatches'⟩ := h'.each i u'' (hi.trans_le h.length) hu''
  obtain ⟨u, hu, hkeeps, hmatches⟩ := h.each i u' hi hu'
  refine ⟨u, hu, fun hxmax => ?_, hmatches ∘ hmatches'⟩
  obtain rfl := hkeeps hxmax
  exact hkeeps' hxmax

/-! ### A row that is held -/

/-- `me` has written a row whose committed version still matches. -/
def Held (p : ρ → Bool) (table : Table ρ) (me i : ℕ) : Prop := ∃ u, table[i]? = some u ∧ u.xmax = some me ∧ p u.row = true

variable (me) in
theorem held_lock (h : table.visit p i = .takes) : Held p (table.lock me i) me i := by
  obtain ⟨row, hrow, hp⟩ := visit_takes h
  refine ⟨⟨row, some me⟩, ?_, rfl, hp⟩
  unfold Table.lock
  rw [List.getElem?_modify, hrow, Option.map_eq_map, Option.map_some, if_pos rfl]

theorem Held.lt_length (h : Held p table me i) : i < table.length := by
  obtain ⟨u, hu, -⟩ := h
  exact (List.getElem?_eq_some_iff.mp hu).1

theorem Held.spares (h : Held p table me i) (hspares : Spares me p table table') : Held p table' me i := by
  obtain ⟨u, hu, hxmax, hp⟩ := h
  have hi : i < table.length := (List.getElem?_eq_some_iff.mp hu).1
  obtain ⟨u', hu'⟩ : ∃ u', table'[i]? = some u' := ⟨_, List.getElem?_eq_getElem (hi.trans_le hspares.length)⟩
  obtain ⟨v, hv, hkeeps, -⟩ := hspares.each i u' hi hu'
  cases hu.symm.trans hv
  obtain rfl := hkeeps hxmax
  exact ⟨u', hu', hxmax, hp⟩

/-! ### What an update achieves -/

/-- The rows of the snapshot that still match are locked, but for those that are yet to be visited. -/
structure Swept (p : ρ → Bool) (table : Table ρ) (me : ℕ) (cursor : Cursor) : Prop where
  length : cursor.seen ≤ table.length
  each : ∀ (i : ℕ) u, i < cursor.seen → table[i]? = some u → p u.row = true → i ∈ cursor.todo ∨ u.xmax = some me

theorem swept_scan : Swept p table me (table.scan p) := by
  refine ⟨le_rfl, fun i u hi hu hp => .inl (List.mem_filter.mpr ⟨List.mem_range.mpr hi, ?_⟩)⟩
  rw [hu]
  exact hp

theorem Swept.spares (h : Swept p table me cursor) (hspares : Spares me p table table') : Swept p table' me cursor := by
  refine ⟨h.length.trans hspares.length, fun i u' hi hu' hp => ?_⟩
  obtain ⟨u, hu, hkeeps, hmatches⟩ := hspares.each i u' (hi.trans_le h.length) hu'
  refine (h.each i u hi hu (hmatches hp)).imp_right fun hxmax => ?_
  rw [hkeeps hxmax]
  exact hxmax

/-- An update goes on. -/
theorem Swept.advance {cursor' : Cursor} {locks : Bool} (h : Swept p table me cursor)
    (hadvance : table.advance p cursor i = some (cursor', locks)) :
    Swept p (if locks then table.lock me i else table) me cursor' ∧ cursor'.seen = cursor.seen ∧
      (locks = true → ∀ u, table[i]? = some u → u.xmax = none) := by
  unfold Table.advance at hadvance
  split at hadvance
  · cases hvisit : table.visit p i with
    | waits => simp [hvisit] at hadvance
    | misses =>
      rw [hvisit] at hadvance
      cases hadvance
      refine ⟨⟨h.length, fun j u hj hu hp => ?_⟩, rfl, nofun⟩
      refine (h.each j u hj hu hp).imp_left fun htodo => (List.mem_erase_of_ne ?_).mpr htodo
      rintro rfl
      have hmisses := visit_misses hvisit hu
      rw [hp] at hmisses
      cases hmisses
    | takes =>
      rw [hvisit] at hadvance
      cases hadvance
      refine ⟨⟨lock_length.symm ▸ h.length, fun j u hj hu hp => ?_⟩, rfl, fun _ u hu => ?_⟩
      · rcases lock_cases hu with ⟨rfl, v, -, rfl⟩ | ⟨hne, hu⟩
        · exact .inr rfl
        · exact (h.each j u hj hu hp).imp_left fun htodo => (List.mem_erase_of_ne hne).mpr htodo
      · obtain ⟨row, hrow, -⟩ := visit_takes hvisit
        cases hu.symm.trans hrow
        rfl
  · cases hadvance

/-- **What an update achieves**: once it is committed, no row of its snapshot matches. -/
theorem Swept.commit {seen : ℕ} (h : Swept p table me ⟨[], seen⟩) (hf : ∀ row, p (f row) = false) :
    ∀ (i : ℕ) u, i < seen → (table.commit me f)[i]? = some u → p u.row = false := by
  intro i u hi hu
  obtain ⟨v, hv, ⟨-, rfl⟩ | ⟨hxmax, rfl⟩⟩ := commit_cases hu
  · exact hf _
  · refine (Bool.not_eq_true _).mp fun hp => ?_
    rcases h.each i u hi hv hp with htodo | hlocked
    · exact (List.not_mem_nil htodo).elim
    · exact hxmax hlocked

end Others

end WebAudit.Lib
