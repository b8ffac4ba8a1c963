import Mathlib.Data.List.Chain
import WebAudit.Lib.Listing

/-!
# Directed graphs without cycles

A relation is `Acyclic` if nothing is related to itself in any number of steps. A cycle is written
down as the list of what it goes through, the first entry repeated at the end (`IsCycle`). A
relation of which there is a cycle is not acyclic (`IsCycle.not_acyclic`), and one whose
entries can be listed each after all it is related to is (`Listing.acyclic`).
-/

namespace WebAudit.Lib

open Relation

variable {α : Type} {r s : α → α → Prop} {l : List α} {a b : α}

/-- Nothing is related to itself in any number of steps. -/
def Acyclic (r : α → α → Prop) : Prop := ∀ a, ¬ TransGen r a a

/-- The list goes from an entry through different ones back to it. -/
structure IsCycle (r : α → α → Prop) (l : List α) : Prop where
  chain : l.IsChain r
  closed : l.head? = l.getLast?
  long : 2 ≤ l.length
  once : l.dropLast.Nodup

/-- Along a chain the first entry is related to the last. -/
theorem transGen_of_isChain (h : (a :: l).IsChain r) (hl : l ≠ []) : TransGen r a (l.getLast hl) := by
  induction l generalizing a with
  | nil => exact absurd rfl hl
  | cons b l ih =>
    obtain ⟨hab, h⟩ := List.isChain_cons_cons.mp h
    cases l with
    | nil => exact .single hab
    | cons c l => exact .head hab (ih h (List.cons_ne_nil _ _))

theorem IsCycle.not_acyclic (h : IsCycle r l) : ¬ Acyclic r := by
  obtain ⟨hchain, hclosed, hlong, -⟩ := h
  rcases l with _ | ⟨a, _ | ⟨b, l⟩⟩
  · simp at hlong
  · simp at hlong
  · intro hacyclic
    have htrans := transGen_of_isChain hchain (List.cons_ne_nil b l)
    rw [List.head?_cons, List.getLast?_eq_getLast_of_ne_nil (List.cons_ne_nil _ _), Option.some.injEq,
      List.getLast_cons (List.cons_ne_nil b l)] at hclosed
    rw [← hclosed] at htrans
    exact hacyclic a htrans

/-- What an entry comes to in some steps is listed too, and comes to nothing but what is before it. -/
theorem Listing.acc (h : Listing r l) : ∀ a ∈ l, Acc (fun b a => r a b) a :=
  h.rule fun _ _ hdeps => .intro _ fun b hb => (hdeps b hb).2

/-- **A relation whose entries can be listed** each after all it is related to has no cycle. -/
theorem Listing.acyclic (h : Listing r l) (hall : ∀ a b, r a b → a ∈ l) : Acyclic r := by
  intro a hcycle
  obtain ⟨b, hab, -⟩ := TransGen.head'_iff.mp hcycle
  have hacc : Acc (TransGen fun b a => r a b) a := (h.acc a (hall a b hab)).transGen
  have hself : TransGen (fun b a => r a b) a a := transGen_swap.mpr hcycle
  induction hacc with
  | intro a _ ih => exact ih a hself hcycle hab hself

/-- Fewer relations. -/
theorem Acyclic.mono (h : Acyclic r) (hs : ∀ a b, s a b → r a b) : Acyclic s :=
  fun a hcycle => h a (hcycle.lift id hs)

end WebAudit.Lib
