import WebAudit.Lib.Choices
import WebAudit.Lib.Concat
import WebAudit.Planning.Cycles

/-!
# The order of the units is the least one

The units that are ready are at every time those that might come next, and they are sorted: so
the sort always takes the least (`Chosen`), and its order comes first of all orders in which
units come after those they depend on. Which these are does not depend on how units and
edges are listed, so the order does not either (`topologicalOrder_least`).
-/

namespace WebAudit.Planning

open WebAudit.Lib

/-! ### Ids in order -/

/-- The id comes first where ids are sorted. -/
def IdLt (s t : String) : Prop := codeUnits s < codeUnits t

instance : Std.Asymm IdLt := ⟨fun _ _ => lt_asymm⟩

/-- A character beyond the first plane begins with a unit that is no character. -/
theorem utf16Units_cases (c : Char) :
    (utf16Units c = [c.toNat] ∧ (c.toNat < 0xD800 ∨ 0xDC00 ≤ c.toNat)) ∨
      ∃ high low, utf16Units c = [high, low] ∧ 0xD800 ≤ high ∧ high < 0xDC00 ∧
        c.toNat = 0x10000 + (high - 0xD800) * 0x400 + (low - 0xDC00) := by
  have hc : c.toNat < 0xD800 ∨ 0xDFFF < c.toNat ∧ c.toNat < 0x110000 := c.valid
  unfold utf16Units
  split
  · exact .inl ⟨rfl, by omega⟩
  · exact .inr ⟨_, _, rfl, by omega, by omega, by omega⟩

theorem utf16Units_prefixFree : PrefixFree (Set.range utf16Units) := by
  rintro _ ⟨c, rfl⟩ _ ⟨d, rfl⟩ ⟨rest, h⟩
  rcases utf16Units_cases c with ⟨hc, hcr⟩ | ⟨ch, cl, hc, -, -, -⟩ <;>
    rcases utf16Units_cases d with ⟨hd, -⟩ | ⟨dh, dl, hd, hlow, hhigh, -⟩ <;> rw [hc, hd] at h ⊢
  · simp_all
  · obtain ⟨e, -⟩ := List.cons_eq_cons.mp h
    omega
  · simp at h
  · simp_all

theorem utf16Units_injective : Function.Injective utf16Units := by
  intro c d h
  suffices hnat : c.toNat = d.toNat from Char.toNat_inj.mp hnat
  rcases utf16Units_cases c with ⟨hc, hcr⟩ | ⟨ch, cl, hc, hclow, hchigh, hcn⟩ <;>
    rcases utf16Units_cases d with ⟨hd, hdr⟩ | ⟨dh, dl, hd, hdlow, hdhigh, hdn⟩ <;> rw [hc, hd] at h
  · simpa using h
  · simp at h
  · simp at h
  · obtain ⟨rfl, rfl⟩ : ch = dh ∧ cl = dl := by simpa using h
    rw [hcn, hdn]

theorem codeUnits_injective : Function.Injective codeUnits := by
  intro s t h
  refine String.toList_inj.mp (flatMap_injective (fun c => ?_) (fun hread => ?_) h)
  · unfold utf16Units
    split <;> nofun
  · exact (utf16Units_prefixFree.append_inj ⟨_, rfl⟩ ⟨_, rfl⟩ hread).imp_left (utf16Units_injective ·)

theorem idLt_of_le {s t : String} (h : codeUnits s ≤ codeUnits t) : t = s ∨ IdLt s t := by
  rcases h.lt_or_eq with hlt | heq
  · exact .inr hlt
  · exact .inl (codeUnits_injective heq).symm

theorem sortIds_pairwise (ids : List String) : (sortIds ids).Pairwise fun s t => codeUnits s ≤ codeUnits t := by
  have : Std.Total fun s t => codeUnits s ≤ codeUnits t := ⟨fun s t => le_total (codeUnits s) (codeUnits t)⟩
  have : IsTrans String fun s t => codeUnits s ≤ codeUnits t := ⟨fun _ _ _ => le_trans⟩
  exact List.pairwise_insertionSort _ _

/-! ### The choices of the sort -/

variable {units units' : List GraphUnit} {edges edges' : List GraphEdge} {s : Sorting} {order other : List String}

/-- All units, each after those it depends on. -/
structure IsTopological (units : List GraphUnit) (edges : List GraphEdge) (order : List String) : Prop where
  perm : order.Perm (units.map (·.id))
  after : ∀ e ∈ edges, ∀ before rest, order = before ++ e.unitId :: rest → e.dependsOnUnitId ∈ before

/-- The unit is not listed, and all are that it depends on. -/
def MayCome (ids : List String) (edges : List GraphEdge) (order : List String) (id : String) : Prop :=
  id ∈ ids ∧ id ∉ order ∧ ∀ p ∈ predecessorsOf edges id, p ∈ order

/-- In an order of all units every one might have come where it stands. -/
theorem IsTopological.admitted (hunique : (units.map (·.id)).Nodup) (h : IsTopological units edges order) :
    Admitted (MayCome (units.map (·.id)) edges) order := by
  rintro before id rest rfl
  refine ⟨h.perm.mem_iff.mp (by simp), fun hmem => ?_, fun p hp => h.after _ (mem_predecessorsOf.mp hp) before rest rfl⟩
  have hnd := (List.nodup_append.mp (h.perm.nodup_iff.mpr hunique)).2.2
  exact hnd id hmem id (List.mem_cons_self ..) rfl

/-- The units that are ready are those that may come next. -/
theorem Sorted.ready_iff {ids : List String} (h : Sorted ids edges s) (id : String) : id ∈ s.ready ↔ MayCome ids edges s.order id := by
  rw [h.ready]
  constructor
  · rintro ⟨hid, hzero, hnew⟩
    refine ⟨hid, hnew, fun p hp => ?_⟩
    have hcount := h.remaining id hid
    rw [hzero, eq_comm, Nat.cast_eq_zero, List.countP_eq_zero] at hcount
    simpa using hcount p hp
  · rintro ⟨hid, hnew, hall⟩
    refine ⟨hid, ?_, hnew⟩
    rw [h.remaining id hid, List.countP_eq_zero.mpr fun p hp => by simpa using hall p hp]
    rfl

/-- What is known of the order while it grows. -/
structure Chosen (ids : List String) (edges : List GraphEdge) (s : Sorting) : Prop where
  sorted : Sorted ids edges s
  ready : s.ready.Pairwise fun a b => codeUnits a ≤ codeUnits b
  choices : Choices (MayCome ids edges) IdLt s.order

theorem release_ready (h : s.ready.Pairwise fun a b => codeUnits a ≤ codeUnits b) (dependents : List String) :
    (dependents.foldl Sorting.release s).ready.Pairwise fun a b => codeUnits a ≤ codeUnits b := by
  induction dependents generalizing s with
  | nil => exact h
  | cons d ds ih =>
    refine ih (s := s.release d) ?_
    unfold Sorting.release
    dsimp only
    split
    · exact sortIds_pairwise _
    · exact h

/-- A round takes the least of the units that are ready. -/
theorem Chosen.round {ids ready : List String} {id : String} (hvalid : Valid units edges) (hids : ids = units.map (·.id))
    (h : Chosen ids edges s) (hready : s.ready = id :: ready) :
    Chosen ids edges ((dependentsOf edges id).foldl Sorting.release { s with ready, order := s.order ++ [id] }) := by
  have hnext := h.sorted.round (predecessorsOf_nodup hvalid.once) (dependentsOf_nodup hvalid.once)
    (fun e he => hids ▸ (hvalid.known e he).1) hready
  have hpairwise := h.ready
  rw [hready, List.pairwise_cons] at hpairwise
  refine ⟨hnext, release_ready hpairwise.2 _, ?_⟩
  rw [(foldl_release (dependentsOf_nodup hvalid.once id) _).1]
  refine h.choices.snoc ((h.sorted.ready_iff id).mp (hready ▸ List.mem_cons_self ..)) fun b hb => ?_
  have hmem := (h.sorted.ready_iff b).mpr hb
  rw [hready] at hmem
  rcases List.mem_cons.mp hmem with rfl | hmem
  · exact .inl rfl
  · exact idLt_of_le (hpairwise.1 b hmem)

/-- The order of an accepted graph is put together by taking the least unit each time. -/
theorem choices_of_topologicalOrder (h : topologicalOrder units edges = .ok order) :
    Choices (MayCome (units.map (·.id)) edges) IdLt order := by
  have hok := validate_of_topologicalOrder h
  have hvalid := valid_of_ok hok
  rw [topologicalOrder_eq hok, Except.ok.injEq] at h
  subst h
  refine (Sorting.run_rule (P := Chosen (units.map (·.id)) edges) (fun s id ready hs => hs.round hvalid rfl) ?_).choices
  exact ⟨sorted_start hvalid.ids, sortIds_pairwise _, .nil⟩

theorem isTopological_of_ok (h : topologicalOrder units edges = .ok order) : IsTopological units edges order := by
  obtain ⟨-, hlisting, hperm⟩ := topologicalOrder_ok h
  exact ⟨hperm, fun e he before rest heq => (heq ▸ hlisting).before (mem_predecessorsOf.mpr he)⟩

theorem least_of_ok (h : topologicalOrder units edges = .ok order) (hother : IsTopological units edges other) :
    order = other ∨ List.Lex IdLt order other := by
  obtain ⟨hvalid, -, hperm⟩ := topologicalOrder_ok h
  have hlen : order.length = other.length := hperm.length_eq.trans hother.perm.length_eq.symm
  rcases (choices_of_topologicalOrder h).least (hother.admitted hvalid.ids) hlen.le with hfront | hless
  · exact .inl (hfront.eq_of_length hlen)
  · exact .inr hless.lex

/-! ### Other lists of the same units and edges -/

theorem IsExecutionGraph.perm (h : IsExecutionGraph units edges) (hu : units'.Perm units) (he : edges'.Perm edges) :
    IsExecutionGraph units' edges' := by
  have hids : (units'.map (·.id)).Perm (units.map (·.id)) := hu.map _
  refine ⟨fun u hmem => h.named u (hu.mem_iff.mp hmem), hids.nodup_iff.mpr h.unique, fun e hmem => ?_,
    fun e hmem => h.distinct e (he.mem_iff.mp hmem), he.nodup_iff.mpr h.once, h.acyclic.mono fun a b => he.mem_iff.mp⟩
  rw [hids.mem_iff, hids.mem_iff]
  exact h.known e (he.mem_iff.mp hmem)

theorem validate_perm (h : validateExecutionGraph units edges = .ok ()) (hu : units'.Perm units) (he : edges'.Perm edges) :
    validateExecutionGraph units' edges' = .ok () := by
  rw [validateExecutionGraph_iff_keys] at h ⊢
  exact ⟨h.1.perm hu he, (he.map edgeKey).nodup_iff.mpr h.2⟩

theorem IsTopological.relist (h : IsTopological units edges order) (hu : units.Perm units') (he : edges'.Perm edges) :
    IsTopological units' edges' order :=
  ⟨h.perm.trans (hu.map _), fun e hmem => h.after e (he.mem_iff.mp hmem)⟩

/-- **The order of a graph** that is accepted lists all units, each after those it depends on; it comes first of all such
orders; and it is the same for every other list of the same units and edges. -/
theorem topologicalOrder_least (units : List GraphUnit) (edges : List GraphEdge) (h : validateExecutionGraph units edges = .ok ()) :
    ∃ order, topologicalOrder units edges = .ok order ∧ IsTopological units edges order ∧
      (∀ other, IsTopological units edges other → order = other ∨ List.Lex IdLt order other) ∧
      ∀ units' edges', units'.Perm units → edges'.Perm edges → topologicalOrder units' edges' = .ok order := by
  have horder := topologicalOrder_eq h
  refine ⟨_, horder, isTopological_of_ok horder, fun other => least_of_ok horder, fun units' edges' hu he => ?_⟩
  have horder' := topologicalOrder_eq (validate_perm h hu he)
  rw [horder']
  refine congrArg _ (@eq_of_lex _ IdLt _ _ _ ?_ ?_)
  · exact least_of_ok horder' ((isTopological_of_ok horder).relist hu.symm he)
  · exact least_of_ok horder ((isTopological_of_ok horder').relist hu he.symm)

/-- A unit that depends on two others, and these in the order of their ids. -/
theorem topologicalOrder_least_two :
    ∃ order, topologicalOrder [⟨"c", .PASSIVE_HTTP⟩, ⟨"b", .PASSIVE_HTTP⟩, ⟨"a", .PASSIVE_HTTP⟩] [⟨"a", "c"⟩, ⟨"a", "b"⟩] =
      .ok order ∧ ∀ other, IsTopological [⟨"c", .PASSIVE_HTTP⟩, ⟨"b", .PASSIVE_HTTP⟩, ⟨"a", .PASSIVE_HTTP⟩] [⟨"a", "c"⟩, ⟨"a", "b"⟩]
        other → order = other ∨ List.Lex IdLt order other := by
  obtain ⟨order, hok, -, hleast, -⟩ := topologicalOrder_least
    [⟨"c", .PASSIVE_HTTP⟩, ⟨"b", .PASSIVE_HTTP⟩, ⟨"a", .PASSIVE_HTTP⟩] [⟨"a", "c"⟩, ⟨"a", "b"⟩] (by decide)
  exact ⟨order, hok, hleast⟩

end WebAudit.Planning
