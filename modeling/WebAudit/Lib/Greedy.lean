import Mathlib.Data.List.Induction
import Mathlib.Order.Basic

/-!
# Greedy choice

`greedy conflict xs` goes through a list and keeps what conflicts with nothing that it has kept. In a list
in which who beats another comes first, what is kept is what wins: a candidate wins if all those lose that
beat it and conflict with it (`greedy_wins`). Which of several candidates with the same key is kept
depends on their order, but what their keys have in common does not (`exists_greedy_iff`).
-/

namespace WebAudit.Lib

variable {α κ : Type}

def greedyStep (conflict : α → α → Bool) (kept : List α) (x : α) : List α :=
  if kept.any fun a => conflict a x then kept else kept ++ [x]

def greedy (conflict : α → α → Bool) (xs : List α) : List α := xs.foldl (greedyStep conflict) []

/-- Who wins (`true`) and who loses (`false`) among the candidates. -/
inductive Contest (beats : α → α → Prop) (conflict : α → α → Bool) (xs : List α) : α → Bool → Prop where
  | wins {c : α} (h : ∀ a ∈ xs, beats a c → conflict a c = true → Contest beats conflict xs a false) :
      Contest beats conflict xs c true
  | loses {a c : α} (ha : a ∈ xs) (hwins : Contest beats conflict xs a true) (hbeats : beats a c) (hconflict : conflict a c = true) :
      Contest beats conflict xs c false

section Greedy

variable {beats : α → α → Prop} {conflict : α → α → Bool} {xs : List α} {c : α} {b : Bool} {key : α → κ}

theorem Contest.exclusive (h : Contest beats conflict xs c b) : ¬ Contest beats conflict xs c !b := by
  induction h with
  | wins _ ih =>
    intro hloses
    cases hloses with
    | loses ha hwins hbeats hconflict => exact ih _ ha hbeats hconflict hwins
  | loses ha _ hbeats hconflict ih =>
    intro hwins
    cases hwins with
    | wins h => exact ih (h _ ha hbeats hconflict)

/-- Only who the candidates are matters. -/
theorem Contest.congr {ys : List α} (h : Contest beats conflict xs c b) (hmem : ∀ a, a ∈ ys ↔ a ∈ xs) : Contest beats conflict ys c b := by
  induction h with
  | wins _ ih => exact .wins fun a ha hbeats hconflict => ih a ((hmem a).mp ha) hbeats hconflict
  | loses ha _ hbeats hconflict ih => exact .loses ((hmem _).mpr ha) ih hbeats hconflict

/-- What is kept has been a candidate, and two that are kept do not conflict. -/
theorem greedy_pairwise : (∀ a ∈ greedy conflict xs, a ∈ xs) ∧ (greedy conflict xs).Pairwise fun a b => conflict a b = false := by
  unfold greedy
  induction xs using List.reverseRecOn with
  | nil => exact ⟨fun _ h => h, .nil⟩
  | append_singleton xs x ih =>
    obtain ⟨hmem, hpairwise⟩ := ih
    rw [List.foldl_append]
    change (∀ a ∈ greedyStep conflict _ x, _) ∧ (greedyStep conflict _ x).Pairwise _
    generalize xs.foldl (greedyStep conflict) [] = kept at hmem hpairwise ⊢
    unfold greedyStep
    split
    · exact ⟨fun a ha => List.mem_append_left _ (hmem a ha), hpairwise⟩
    · rename_i hfree
      refine ⟨fun a ha => ?_, List.pairwise_append.mpr ⟨hpairwise, List.pairwise_singleton _ _, fun a ha b hb => ?_⟩⟩
      · rcases List.mem_append.mp ha with ha | ha
        · exact List.mem_append_left _ (hmem a ha)
        · exact List.mem_append_right _ ha
      · obtain rfl := List.mem_singleton.mp hb
        exact (Bool.not_eq_true _).mp fun hconflict => hfree (List.any_eq_true.mpr ⟨a, ha, hconflict⟩)

/-- **What is kept wins**, and what is not loses, or something with the same key is kept. -/
theorem greedy_wins (hirrefl : ∀ a, ¬ beats a a) (hsorted : xs.Pairwise fun a b => ¬ beats b a)
    (hties : ∀ a ∈ xs, ∀ b ∈ xs, ¬ beats a b → ¬ beats b a → key a = key b)
    (hkey : ∀ a b c, key a = key b → conflict a c = conflict b c) :
    (∀ a ∈ greedy conflict xs, Contest beats conflict xs a true) ∧
      ∀ c ∈ xs, (∃ a ∈ greedy conflict xs, key a = key c) ∨ Contest beats conflict xs c false := by
  -- of the candidates that have been seen, in a prefix of the list
  suffices h : ∀ before, before <+: xs →
      (∀ a ∈ greedy conflict before, Contest beats conflict xs a true) ∧
        ∀ c ∈ before, (∃ a ∈ greedy conflict before, key a = key c) ∨ Contest beats conflict xs c false from h xs List.prefix_rfl
  intro before
  induction before using List.reverseRecOn with
  | nil => exact fun _ => ⟨fun _ h => (List.not_mem_nil h).elim, fun _ h => (List.not_mem_nil h).elim⟩
  | append_singleton before x ih =>
    intro hpre
    obtain ⟨hwins, hseen⟩ := ih ((List.prefix_append before [x]).trans hpre)
    obtain ⟨after, hxs⟩ := hpre
    have hx : x ∈ xs := by simp [← hxs]
    have hbefore : ∀ a ∈ before, a ∈ xs := fun a ha => by simp [← hxs, ha]
    have hfirst : ∀ a ∈ before, ¬ beats x a := by
      rw [← hxs] at hsorted
      obtain ⟨hsorted, -, -⟩ := List.pairwise_append.mp hsorted
      exact fun a ha => (List.pairwise_append.mp hsorted).2.2 a ha x (List.mem_singleton_self x)
    have hkept : ∀ a ∈ greedy conflict before, a ∈ before := greedy_pairwise.1
    have hstep : greedy conflict (before ++ [x]) = greedyStep conflict (greedy conflict before) x := by
      unfold greedy
      rw [List.foldl_append]
      rfl
    rw [hstep]
    unfold greedyStep
    split
    · rename_i hany
      refine ⟨hwins, fun c hc => ?_⟩
      rcases List.mem_append.mp hc with hc | hc
      · exact hseen c hc
      · obtain rfl := List.mem_singleton.mp hc
        obtain ⟨a, ha, hconflict⟩ := List.any_eq_true.mp hany
        by_cases hbeats : beats a c
        · exact .inr (.loses (hbefore a (hkept a ha)) (hwins a ha) hbeats hconflict)
        · exact .inl ⟨a, ha, hties a (hbefore a (hkept a ha)) c hx hbeats (hfirst a (hkept a ha))⟩
    · rename_i hfree
      have hwinner : Contest beats conflict xs x true := by
        refine .wins fun a ha hbeats hconflict => ?_
        have hmem : a ∈ before := by
          rw [← hxs, List.append_assoc] at ha
          rcases List.mem_append.mp ha with ha | ha
          · exact ha
          rw [← hxs, List.append_assoc] at hsorted
          rcases List.mem_cons.mp ha with rfl | hafter
          · exact absurd hbeats (hirrefl a)
          · have hrest := (List.pairwise_append.mp hsorted).2.1
            exact absurd hbeats ((List.pairwise_cons.mp hrest).1 a hafter)
        rcases hseen a hmem with ⟨a', ha', hsame⟩ | hloses
        · rw [← hkey a' a x hsame] at hconflict
          exact absurd (List.any_eq_true.mpr ⟨a', ha', hconflict⟩) hfree
        · exact hloses
      refine ⟨fun a ha => ?_, fun c hc => ?_⟩
      · rcases List.mem_append.mp ha with ha | ha
        · exact hwins a ha
        · obtain rfl := List.mem_singleton.mp ha
          exact hwinner
      · rcases List.mem_append.mp hc with hc | hc
        · refine (hseen c hc).imp_left fun ⟨a, ha, hsame⟩ => ⟨a, List.mem_append_left _ ha, hsame⟩
        · obtain rfl := List.mem_singleton.mp hc
          exact .inl ⟨c, List.mem_append_right _ hc, rfl⟩

/-- The keys of what is kept are those of what wins. -/
theorem exists_greedy_iff (hirrefl : ∀ a, ¬ beats a a) (hsorted : xs.Pairwise fun a b => ¬ beats b a)
    (hties : ∀ a ∈ xs, ∀ b ∈ xs, ¬ beats a b → ¬ beats b a → key a = key b)
    (hkey : ∀ a b c, key a = key b → conflict a c = conflict b c) (P : κ → Prop) :
    (∃ a ∈ greedy conflict xs, P (key a)) ↔ ∃ c ∈ xs, Contest beats conflict xs c true ∧ P (key c) := by
  obtain ⟨hwins, hall⟩ := greedy_wins hirrefl hsorted hties hkey
  constructor
  · rintro ⟨a, ha, hp⟩
    exact ⟨a, greedy_pairwise.1 a ha, hwins a ha, hp⟩
  · rintro ⟨c, hc, hwinner, hp⟩
    rcases hall c hc with ⟨a, ha, hsame⟩ | hloses
    · exact ⟨a, ha, hsame ▸ hp⟩
    · exact absurd hloses hwinner.exclusive

end Greedy

end WebAudit.Lib
