import WebAudit.Runner.Harmless

/-!
# A capability among others

With a capability and without it, a run says the same of the others. It says so if it comes to its end; and it does,
with a result that can be stored, if and only if no capability's answers hurt it (`hurtsOnlyItself_iff`).
-/

namespace WebAudit.Runner

open WebAudit.Lib WebAudit.Lib.Uri WebAudit.Lib.Values WebAudit.Scans

/-- Two results whose capabilities have these shares, `own` being that of the one that the second run does not have. -/
structure Beside (before own after : Share) (result result' : ModuleRunResult) : Prop where
  executions : result.executions = before.outcomes ++ own.outcomes ++ after.outcomes ++ (before.skips ++ own.skips ++ after.skips)
  executions' : result'.executions = before.outcomes ++ after.outcomes ++ (before.skips ++ after.skips)
  measured : ∃ secrets, result.measured = before.measured ++ own.measured ++ after.measured ++ secrets ∧
    ∀ facts ∈ secrets, facts.checkId = secretCheckId
  measured' : ∃ secrets, result'.measured = before.measured ++ after.measured ++ secrets ∧ ∀ facts ∈ secrets, facts.checkId = secretCheckId

section Containment

variable (platform : Platform) (options : RunModuleOptions) (before : List Capability) (capability : Capability) (after : List Capability)

/-- Whatever the model answers, the run comes to its end with a result that can be stored, and says of the other
capabilities what it says without this one. -/
def HurtsOnlyItself : Prop :=
  ∀ executor : AiResult, executor.isStorable = true →
    ∃ result, runModule platform options (before ++ capability :: after) executor = some result ∧ result.isStorable = true ∧
      ∀ executor' : AiResult, ∃ result', runModule platform options (before ++ after) executor' = some result' ∧
        ∃ a own b, shareOf platform options before = some a ∧ shareOf platform options [capability] = some own ∧
          shareOf platform options after = some b ∧ Beside a own b result result'

variable {platform options}

theorem shareOf_of_harmless {capabilities : List Capability} (h : ∀ c ∈ capabilities, c.isHarmless platform options = true) :
    ∃ share, shareOf platform options capabilities = some share := by
  have hall : (measure options capabilities).any (·.isHarmless platform options) = true := by
    rw [measure_isHarmless]
    exact List.all_eq_true.mpr h
  obtain ⟨m, hm, hharmless⟩ := (Option.any_eq_true _ _).mp hall
  have hfacts : (m.measured.mapM (measuredFacts platform options.context)).isSome = true := by
    rw [isSome_mapM, List.all_eq_true]
    intro finding hfinding
    obtain ⟨outcome, houtcome, hfinding⟩ := List.mem_flatMap.mp hfinding
    have hone := List.all_eq_true.mp ((Bool.and_eq_true _ _).mp hharmless).1 outcome houtcome
    have hparts := List.all_eq_true.mp ((Bool.and_eq_true _ _).mp hone).2 finding hfinding
    rw [isSome_measuredFacts]
    exact ((Bool.and_eq_true _ _).mp hparts).1
  obtain ⟨facts, hfacts⟩ := Option.isSome_iff_exists.mp hfacts
  unfold shareOf
  rw [hm, Option.bind_some, hfacts]
  exact ⟨_, rfl⟩

theorem run_of_harmless {capabilities : List Capability} (executor : AiResult) (h : ∀ c ∈ capabilities, c.isHarmless platform options = true) :
    ∃ result, runModule platform options capabilities executor = some result := by
  obtain ⟨share, hshare⟩ := shareOf_of_harmless h
  refine Option.isSome_iff_exists.mp ?_
  rw [isSome_runModule, hshare]
  rfl

variable {before capability after}

/-- **With a capability and without it**, a run says the same of the others. -/
theorem beside_of_shares {a own b : Share} {executor executor' : AiResult} {result result' : ModuleRunResult}
    (ha : shareOf platform options before = some a) (hown : shareOf platform options [capability] = some own)
    (hb : shareOf platform options after = some b) (h : runModule platform options (before ++ capability :: after) executor = some result)
    (h' : runModule platform options (before ++ after) executor' = some result') : Beside a own b result result' := by
  have hall : shareOf platform options (before ++ capability :: after) = some (a.append (own.append b)) := by
    rw [shareOf_append, ha, ← List.singleton_append, shareOf_append, hown, hb]
    rfl
  have hothers : shareOf platform options (before ++ after) = some (a.append b) := by
    rw [shareOf_append, ha, hb]
    rfl
  obtain ⟨hexecutions, secrets, hmeasured, hsecrets⟩ := run_of_share platform options hall h
  obtain ⟨hexecutions', secrets', hmeasured', hsecrets'⟩ := run_of_share platform options hothers h'
  refine ⟨?_, hexecutions', ⟨secrets, ?_, hsecrets⟩, ⟨secrets', hmeasured', hsecrets'⟩⟩
  · rw [hexecutions]
    simp only [Share.append, List.append_assoc]
  · rw [hmeasured]
    simp only [Share.append, List.append_assoc]

variable (platform options before capability after)

/-- **A capability hurts only itself** if and only if what the capabilities of the run answer can be read and stored. -/
theorem hurtsOnlyItself_iff : HurtsOnlyItself platform options before capability after ↔
    ∀ c ∈ before ++ capability :: after, c.isHarmless platform options = true := by
  constructor
  · intro h
    obtain ⟨result, hrun, hstorable, -⟩ := h (.refused .DISABLED []) rfl
    rw [isStorable_run rfl hrun] at hstorable
    exact List.all_eq_true.mp hstorable
  · intro h executor hai
    obtain ⟨result, hrun⟩ := run_of_harmless executor h
    refine ⟨result, hrun, ?_, fun executor' => ?_⟩
    · rw [isStorable_run hai hrun]
      exact List.all_eq_true.mpr h
    · have hbefore : ∀ c ∈ before, c.isHarmless platform options = true := fun c hc => h c (List.mem_append_left _ hc)
      have hafter : ∀ c ∈ after, c.isHarmless platform options = true :=
        fun c hc => h c (List.mem_append_right _ (List.mem_cons_of_mem _ hc))
      have hown : ∀ c ∈ [capability], c.isHarmless platform options = true := fun c hc =>
        h c (List.mem_append_right _ (List.mem_singleton.mp hc ▸ List.mem_cons_self))
      obtain ⟨a, ha⟩ := shareOf_of_harmless hbefore
      obtain ⟨own, hown⟩ := shareOf_of_harmless hown
      obtain ⟨b, hb⟩ := shareOf_of_harmless hafter
      obtain ⟨result', hrun'⟩ := run_of_harmless executor' fun c hc => (List.mem_append.mp hc).elim (hbefore c) (hafter c)
      exact ⟨result', hrun', a, own, b, ha, hown, hb, beside_of_shares ha hown hb hrun hrun'⟩

end Containment

/-! ### An error that cannot be read -/

/-- It throws an object whose `name` throws. -/
def thrower : Capability := silent (ascii "thrower") (.rejected (.object none none none none) 0)

/-- The run with the capability rejects, and the run without it does not. -/
theorem thrower_hurts_all : ¬ HurtsOnlyItself somePlatform someOptions [] thrower [quiet] ∧
    (runModule somePlatform someOptions [quiet] (.refused .DISABLED [])).isSome = true := by
  constructor
  · intro h
    obtain ⟨result, hrun, -⟩ := h (.refused .DISABLED []) rfl
    have hsome := isSome_runModule somePlatform someOptions [thrower, quiet] (.refused .DISABLED [])
    have hnone : (shareOf somePlatform someOptions [thrower, quiet]).isSome = false := by decide
    have hrun' : runModule somePlatform someOptions [thrower, quiet] (.refused .DISABLED []) = some result := hrun
    rw [hnone, hrun'] at hsome
    cases hsome
  · rw [isSome_runModule]
    decide

end WebAudit.Runner
