import Mathlib.Data.List.Infix
import Mathlib.Data.Set.Operations

/-!
# Reading a concatenation apart

A list that was put together from parts without separators can be read apart again where
the parts are of a kind that shows where they end: a code no word of which begins another
(`PrefixFree`), words with their length in front (`frame`), a run of letters of one kind followed by a letter of another
(`run_append_inj`), or a marker that occurs once (`Marks`).
-/

namespace WebAudit.Lib

variable {α : Type} {x y r s : List α}

/-- No word of the code begins another one. -/
def PrefixFree (code : Set (List α)) : Prop := ∀ x ∈ code, ∀ y ∈ code, x <+: y → x = y

/-- A word of a prefix-free code is read off the front. -/
theorem PrefixFree.append_inj {code : Set (List α)} (hc : PrefixFree code) (hx : x ∈ code) (hy : y ∈ code)
    (h : x ++ r = y ++ s) : x = y ∧ r = s := by
  have hxy : x = y := by
    rcases List.prefix_or_prefix_of_prefix ⟨r, h⟩ (List.prefix_append y s) with hp | hp
    · exact hc x hx y hy hp
    · exact (hc y hy x hx hp).symm
  subst hxy
  exact ⟨rfl, List.append_cancel_left h⟩

/-- Words that can be read off the front can be read apart. -/
theorem flatMap_injective {β : Type} {f : β → List α} (hne : ∀ b, f b ≠ [])
    (hread : ∀ {a b : β} {r s : List α}, f a ++ r = f b ++ s → a = b ∧ r = s) : Function.Injective fun l : List β => l.flatMap f := by
  intro l l' h
  induction l generalizing l' with
  | nil =>
    rcases l' with _ | ⟨b, l'⟩
    · rfl
    · exact absurd (List.append_eq_nil_iff.mp h.symm).1 (hne b)
  | cons a l ih =>
    rcases l' with _ | ⟨b, l'⟩
    · exact absurd (List.append_eq_nil_iff.mp h).1 (hne a)
    · obtain ⟨rfl, hrest⟩ := hread (by simpa only [List.flatMap_cons] using h)
      rw [ih hrest]

/-- The rest begins with a letter that is none of `P`, or is over. -/
def Ends (P : α → Prop) (r : List α) : Prop := ∀ a ∈ r.head?, ¬ P a

/-- A run of letters of `P` is read off the front, if what follows is no letter of `P`. -/
theorem run_append_inj {P : α → Prop} (hx : ∀ a ∈ x, P a) (hy : ∀ a ∈ y, P a) (hr : Ends P r) (hs : Ends P s)
    (h : x ++ r = y ++ s) : x = y ∧ r = s := by
  induction x generalizing y with
  | nil =>
    cases y with
    | nil => exact ⟨rfl, h⟩
    | cons b y =>
      have hb : r.head? = some b := by
        rw [show r = b :: y ++ s from h]
        rfl
      exact absurd (hy b (List.mem_cons_self ..)) (hr b hb)
  | cons a x ih =>
    cases y with
    | nil =>
      have ha : s.head? = some a := by
        rw [show s = a :: x ++ r from h.symm]
        rfl
      exact absurd (hx a (List.mem_cons_self ..)) (hs a ha)
    | cons b y =>
      rw [List.cons_append, List.cons_append, List.cons.injEq] at h
      obtain ⟨rfl, h⟩ := h
      obtain ⟨rfl, hrs⟩ := ih (fun c hc => hx c (List.mem_cons_of_mem _ hc)) (fun c hc => hy c (List.mem_cons_of_mem _ hc)) h
      exact ⟨rfl, hrs⟩

/-! ### Lengths in front -/

section Frames

variable {numeral : ℕ → List α} {separator : α}

/-- A word with its length in front, set off by a separator. -/
def frame (numeral : ℕ → List α) (separator : α) (word : List α) : List α := numeral word.length ++ separator :: word

theorem frame_ne_nil (word : List α) : frame numeral separator word ≠ [] := by
  unfold frame
  simp

/-- A framed word is read off the front: its numeral first, and then so many letters. -/
theorem frame_append_inj (hnumeral : Function.Injective numeral) (hfree : ∀ n, separator ∉ numeral n)
    (h : frame numeral separator x ++ r = frame numeral separator y ++ s) : x = y ∧ r = s := by
  unfold frame at h
  simp only [List.append_assoc, List.cons_append] at h
  have hends (t : List α) : Ends (· ≠ separator) (separator :: t) := by
    intro a ha
    simpa using ha.symm
  have hletters (n : ℕ) : ∀ a ∈ numeral n, a ≠ separator := fun a ha heq => hfree n (heq ▸ ha)
  obtain ⟨hlength, hrest⟩ := run_append_inj (hletters _) (hletters _) (hends _) (hends _) h
  exact List.append_inj (List.cons.inj hrest).2 (hnumeral hlength)

/-- **Framed words are read apart again.** -/
theorem flatMap_frame_injective (hnumeral : Function.Injective numeral) (hfree : ∀ n, separator ∉ numeral n) :
    Function.Injective fun words : List (List α) => words.flatMap (frame numeral separator) :=
  flatMap_injective frame_ne_nil (frame_append_inj hnumeral hfree)

end Frames

/-! ### Markers -/

/-- The marker occurs in the list at one place at most. -/
def Marks (marker l : List α) : Prop :=
  ∀ x r y s, l = x ++ (marker ++ r) → l = y ++ (marker ++ s) → x = y

/-- What stands before and after a marker that occurs once. -/
theorem Marks.append_inj {marker : List α} (hm : Marks marker (x ++ (marker ++ r)))
    (h : x ++ (marker ++ r) = y ++ (marker ++ s)) : x = y ∧ r = s := by
  obtain rfl := hm x r y s rfl h
  exact ⟨rfl, List.append_cancel_left (List.append_cancel_left h)⟩

/-- Looking for the marker at every place finds it at one. -/
theorem marks_of_position [BEq α] [LawfulBEq α] {marker l : List α} {i : ℕ}
    (h : ((List.range (l.length + 1)).filter fun n => marker.isPrefixOf (l.drop n)) = [i]) : Marks marker l := by
  have hat : ∀ x r, l = x ++ (marker ++ r) → x.length = i := by
    intro x r hl
    have hmem : x.length ∈ (List.range (l.length + 1)).filter fun n => marker.isPrefixOf (l.drop n) := by
      refine List.mem_filter.mpr ⟨List.mem_range.mpr ?_, ?_⟩
      · rw [hl, List.length_append]
        omega
      · rw [hl, List.drop_left]
        exact List.isPrefixOf_iff_prefix.mpr (List.prefix_append marker r)
    rw [h] at hmem
    exact List.mem_singleton.mp hmem
  intro x r y s hx hy
  exact List.append_inj_left (hx.symm.trans hy) ((hat x r hx).trans (hat y s hy).symm)

/-- A word of a code no word of which ends another one is read off the end. -/
theorem suffix_append_inj {code : Set (List α)} (hc : ∀ x ∈ code, ∀ y ∈ code, x <:+ y → x = y) (hx : x ∈ code)
    (hy : y ∈ code) (h : r ++ x = s ++ y) : r = s ∧ x = y := by
  have hxy : x = y := by
    rcases List.suffix_or_suffix_of_suffix ⟨r, h⟩ (List.suffix_append s y) with hp | hp
    · exact hc x hx y hy hp
    · exact (hc y hy x hx hp).symm
  subst hxy
  exact ⟨List.append_cancel_right h, rfl⟩

end WebAudit.Lib
