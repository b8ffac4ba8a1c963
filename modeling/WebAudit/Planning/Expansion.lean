import Mathlib.Data.List.Flatten
import WebAudit.Lib.Refusals
import WebAudit.Planning.Least
import WebAudit.Scans.States

/-!
# The units of a plan and the edges between them

`services/planning/engine-registry.ts` and step 4 of `resolvePlan` in `services/planning/resolver.ts`:
the templates that the engines have registered for a domain and a class of units become units, with an
edge for every key that a template depends on.

A key is "unique within one (domain, class) expansion", and `dependsOnKeys` are "keys of templates in the same
expansion". `resolvePlan` looks a key up among all units of the domain, and what it finds is the last of them that has
the key. So an edge stays in its expansion exactly where no later class of the domain declares the key
(`expand_in_expansion_iff`).

## The model

* A key of a `Map` is its text; a `Map` is a function to `Option`.
* What a template's `skipWhen` is asked about is of any type.
* The `n`-th call of `randomUUID` returns `uuid n`, and no id is returned twice.
* `resolvePlan`'s answers are `Except`, a refusal being its reason.
-/

namespace WebAudit.Planning

open WebAudit.Lib WebAudit.Scans

/-! ### Texts -/

/-- The text of a domain. -/
def domainText : ModuleType → String
  | .PERFORMANCE => "PERFORMANCE"
  | .SECURITY => "SECURITY"
  | .UI => "UI"
  | .TESTING => "TESTING"
  | .SEO => "SEO"

/-- The text of a class. -/
def classText : ExecutionUnitClass → String
  | .PASSIVE_HTTP => "PASSIVE_HTTP"
  | .SOURCE_STATIC => "SOURCE_STATIC"
  | .BROWSER => "BROWSER"
  | .CRAWLER => "CRAWLER"
  | .SOURCE_EXECUTION => "SOURCE_EXECUTION"
  | .ACTIVE_SECURITY => "ACTIVE_SECURITY"
  | .AUTHENTICATED_WORKFLOW => "AUTHENTICATED_WORKFLOW"
  | .LOAD_CAPACITY => "LOAD_CAPACITY"
  | .TELEMETRY => "TELEMETRY"

theorem domainText_injective : Function.Injective domainText := by
  intro d d' h
  cases d <;> cases d' <;> first | rfl | exact absurd h (by decide)

theorem classText_injective : Function.Injective classText := by
  intro c c' h
  cases c <;> cases c' <;> first | rfl | exact absurd h (by decide)

/-- A domain's text before a separator that is in none of them is read off the front. -/
theorem domainText_append_inj {separator : Char} (hsep : ∀ d, separator ∉ (domainText d).toList) {d d' : ModuleType}
    {s s' : String} (h : domainText d ++ separator.toString ++ s = domainText d' ++ separator.toString ++ s') :
    d = d' ∧ s = s' := by
  have hchars := congrArg String.toList h
  simp only [String.append_assoc, String.toList_append, Char.toString_eq_singleton, String.toList_singleton,
    List.singleton_append] at hchars
  obtain ⟨hd, hs⟩ := @run_append_inj _ _ _ _ _ (· ≠ separator) (fun a ha e => hsep d (e ▸ ha)) (fun a ha e => hsep d' (e ▸ ha))
    (fun a ha => by simpa using ha.symm) (fun a ha => by simpa using ha.symm) hchars
  exact ⟨domainText_injective (String.toList_injective hd), String.toList_injective (List.cons.inj hs).2⟩

/-! ### What the engines have registered -/

structure EngineTemplateUnit (α : Type) where
  key : String
  engineId : String
  executionUnitClass : ExecutionUnitClass
  timeoutPolicyMs : ℤ
  hardStopMarginMs : ℤ
  maxAttempts : ℤ
  idempotenceProven : Option Bool
  priority : ℤ
  dependsOnKeys : Option (List String)
  /-- Asked for the domain's configuration; what it returns is why the unit is skipped. -/
  skipWhen : Option (α → Option String)

variable {α : Type}

/-- The key of a registration. -/
def registryKey (domain : ModuleType) (unitClass : ExecutionUnitClass) : String :=
  domainText domain ++ ":" ++ classText unitClass

theorem registryKey_inj {d d' : ModuleType} {c c' : ExecutionUnitClass} (h : registryKey d c = registryKey d' c') :
    d = d' ∧ c = c' :=
  (@domainText_append_inj ':' (fun d => by cases d <;> decide) _ _ _ _ h).imp_right fun h => classText_injective h

/-- What is registered under a domain and a class is of that class. -/
structure EngineRegistry (α : Type) where
  byKey : String → Option (List (EngineTemplateUnit α))
  classed : ∀ d c ts, byKey (registryKey d c) = some ts → ∀ t ∈ ts, t.executionUnitClass = c

def EngineRegistry.templatesFor (registry : EngineRegistry α) (domain : ModuleType) (unitClass : ExecutionUnitClass) :
    List (EngineTemplateUnit α) :=
  (registry.byKey (registryKey domain unitClass)).getD []

structure RegistryRow (α : Type) where
  domain : ModuleType
  unitClass : ExecutionUnitClass
  templates : List (EngineTemplateUnit α)

/-- The checks of the templates of a row. -/
def checkTemplates (k : String) (unitClass : ExecutionUnitClass) : List (EngineTemplateUnit α) → Except String Unit
  | [] => .ok ()
  | t :: ts =>
    if t.executionUnitClass ≠ unitClass then .error ("template " ++ t.key ++ " class mismatch for " ++ k)
    else if t.maxAttempts < 1 then .error ("template " ++ t.key ++ " has an invalid maxAttempts")
    else if t.maxAttempts > 1 ∧ t.idempotenceProven ≠ some true then
      .error ("template " ++ t.key ++ " allows retries without a proven idempotence record (FR-024)")
    else checkTemplates k unitClass ts

theorem class_of_checkTemplates {k : String} {c : ExecutionUnitClass} {ts : List (EngineTemplateUnit α)}
    (h : checkTemplates k c ts = .ok ()) : ∀ t ∈ ts, t.executionUnitClass = c := by
  induction ts with
  | nil => exact fun _ ht => nomatch ht
  | cons t ts ih =>
    unfold checkTemplates at h
    split at h
    · exact nomatch h
    · rename_i hclass
      split at h
      · exact nomatch h
      split at h
      · exact nomatch h
      exact List.forall_mem_cons.mpr ⟨not_not.mp hclass, ih h⟩

/-- A row's templates under its key. -/
def EngineRegistry.add (registry : EngineRegistry α) (row : RegistryRow α)
    (hclass : ∀ t ∈ row.templates, t.executionUnitClass = row.unitClass) : EngineRegistry α where
  byKey := Function.update registry.byKey (registryKey row.domain row.unitClass) (some row.templates)
  classed := by
    intro d c ts hts
    by_cases hk : registryKey d c = registryKey row.domain row.unitClass
    · rw [hk, Function.update_self] at hts
      rw [(registryKey_inj hk).2]
      exact Option.some.inj hts ▸ hclass
    · rw [Function.update_of_ne hk] at hts
      exact registry.classed d c ts hts

/-- The rows after those that are registered. -/
def EngineRegistry.register (registry : EngineRegistry α) : List (RegistryRow α) → Except String (EngineRegistry α)
  | [] => .ok registry
  | row :: rows =>
    let k := registryKey row.domain row.unitClass
    if (registry.byKey k).isSome then .error ("duplicate engine registration for " ++ k)
    else
      match h : checkTemplates k row.unitClass row.templates with
      | .error message => .error message
      | .ok () => (registry.add row (class_of_checkTemplates h)).register rows

def createEngineRegistry (table : List (RegistryRow α)) : Except String (EngineRegistry α) :=
  EngineRegistry.register ⟨fun _ => none, fun _ _ _ h => nomatch h⟩ table

theorem EngineRegistry.class_of_mem {registry : EngineRegistry α} {d : ModuleType} {c : ExecutionUnitClass}
    {t : EngineTemplateUnit α} (h : t ∈ registry.templatesFor d c) : t.executionUnitClass = c := by
  unfold EngineRegistry.templatesFor at h
  cases hts : registry.byKey (registryKey d c) with
  | none =>
    rw [hts] at h
    exact nomatch h
  | some ts =>
    rw [hts] at h
    exact registry.classed d c ts hts t h

/-! ### Units -/

structure Expanded (α : Type) where
  id : String
  template : EngineTemplateUnit α
  domain : ModuleType
  skipped : Option String

/-- The expansion that a unit is of. -/
def Expanded.expansion (e : Expanded α) : ModuleType × ExecutionUnitClass := (e.domain, e.template.executionUnitClass)

/-- The variables of the loop. -/
structure Expanding (α : Type) where
  expanded : List (Expanded α)
  idByKey : String → Option String

/-- What a unit is found by. -/
def unitKey (domain : ModuleType) (key : String) : String := domainText domain ++ "\x00" ++ key

theorem unitKey_inj {d d' : ModuleType} {k k' : String} (h : unitKey d k = unitKey d' k') : d = d' ∧ k = k' :=
  @domainText_append_inj '\x00' (fun d => by cases d <;> decide) _ _ _ _ h

section Expansion

variable (uuid : ℕ → String) (registry : EngineRegistry α) (domains : List ModuleType)
  (classMap : ModuleType → List ExecutionUnitClass) (perDomain : ModuleType → α)

/-- Why a template's unit is skipped from the start. -/
def ownSkip (domain : ModuleType) (t : EngineTemplateUnit α) : Option String :=
  t.skipWhen.bind fun skipWhen => skipWhen (perDomain domain)

/-- A unit for a template. -/
def Expanding.addUnit (domain : ModuleType) (s : Expanding α) (t : EngineTemplateUnit α) : Expanding α :=
  let id := uuid s.expanded.length
  let skipped := ownSkip perDomain domain t
  { expanded := s.expanded ++ [⟨id, t, domain, skipped⟩]
    idByKey := Function.update s.idByKey (unitKey domain t.key) (some id) }

/-- The units of one domain and class. -/
def Expanding.addExpansion (s : Expanding α) (expansion : ModuleType × ExecutionUnitClass) : Except String (Expanding α) :=
  let templates := registry.templatesFor expansion.1 expansion.2
  if templates.isEmpty then .error ("NO_ENGINE_REGISTERED:" ++ domainText expansion.1 ++ ":" ++ classText expansion.2)
  else .ok (templates.foldl (Expanding.addUnit uuid perDomain expansion.1) s)

/-- `sort()` of domains. -/
def sortDomains (domains : List ModuleType) : List ModuleType :=
  domains.insertionSort fun d d' => codeUnits (domainText d) ≤ codeUnits (domainText d')

/-- `sort()` of classes. -/
def sortClasses (classes : List ExecutionUnitClass) : List ExecutionUnitClass :=
  classes.insertionSort fun c c' => codeUnits (classText c) ≤ codeUnits (classText c')

/-- The domains and classes in the order in which they are expanded. -/
def expansions : List (ModuleType × ExecutionUnitClass) :=
  (sortDomains domains).flatMap fun domain => (sortClasses (classMap domain)).map fun cls => (domain, cls)

/-- The units. -/
def expandUnits : Except String (Expanding α) :=
  (expansions domains classMap).foldlM (Expanding.addExpansion uuid registry perDomain) ⟨[], fun _ => none⟩

/-- The edge for a key. -/
def edgeOf (idByKey : String → Option String) (e : Expanded α) (dep : String) : Except String GraphEdge :=
  match idByKey (unitKey e.domain dep) with
  | none => .error ("INVALID_CONFIGURATION: unknown dependency " ++ dep)
  | some target => .ok ⟨e.id, target⟩

/-- The edges of one unit. -/
def edgesOf (idByKey : String → Option String) (e : Expanded α) : Except String (List GraphEdge) :=
  (e.template.dependsOnKeys.getD []).mapM (edgeOf idByKey e)

/-- Step 4 of `resolvePlan`. -/
def expand : Except String (List (Expanded α) × List GraphEdge) := do
  let s ← expandUnits uuid registry domains classMap perDomain
  let edges ← s.expanded.mapM (edgesOf s.idByKey)
  pure (s.expanded, edges.flatten)

end Expansion

/-! ### What the loops leave -/

section Loops

variable {uuid : ℕ → String} {registry : EngineRegistry α} {domains : List ModuleType}
  {classMap : ModuleType → List ExecutionUnitClass} {perDomain : ModuleType → α}

/-- A template with its domain. -/
def Expanded.source (e : Expanded α) : ModuleType × EngineTemplateUnit α := (e.domain, e.template)

/-- The templates of one expansion. -/
def templatesOf (registry : EngineRegistry α) (expansion : ModuleType × ExecutionUnitClass) :
    List (ModuleType × EngineTemplateUnit α) :=
  (registry.templatesFor expansion.1 expansion.2).map fun t => (expansion.1, t)

/-- Has the key. -/
def HasKey (domain : ModuleType) (key : String) (p : ModuleType × EngineTemplateUnit α) : Bool :=
  decide (p.1 = domain) && decide (p.2.key = key)

/-- Every unit has an id of its own, and what is found by a key is the last unit that has it. -/
structure Indexed (uuid : ℕ → String) (perDomain : ModuleType → α) (s : Expanding α) : Prop where
  own : ∀ e ∈ s.expanded, e.skipped = ownSkip perDomain e.domain e.template
  ids : s.expanded.map (·.id) = (List.range s.expanded.length).map uuid
  found : ∀ d k, s.idByKey (unitKey d k) = (s.expanded.reverse.find? fun e => HasKey d k e.source).map (·.id)

theorem Indexed.addUnit {s : Expanding α} (h : Indexed uuid perDomain s) (domain : ModuleType) (t : EngineTemplateUnit α) :
    Indexed uuid perDomain (s.addUnit uuid perDomain domain t) := by
  refine ⟨?_, ?_, ?_⟩
  · intro e he
    rcases List.mem_append.mp he with he | he
    · exact h.own e he
    · rw [List.mem_singleton.mp he]
  · simp [Expanding.addUnit, h.ids, List.range_succ]
  · intro d k
    simp only [Expanding.addUnit, List.reverse_append, List.reverse_singleton, List.singleton_append, List.find?_cons]
    by_cases hk : unitKey d k = unitKey domain t.key
    · obtain ⟨rfl, rfl⟩ := unitKey_inj hk
      simp [HasKey, Expanded.source]
    · have hother : HasKey d k (domain, t) = false := by
        simp only [HasKey, Bool.and_eq_false_iff, decide_eq_false_iff_not]
        exact not_and_or.mp fun ⟨hd, ht⟩ => hk (by rw [← hd, ← ht])
      rw [Function.update_of_ne hk, h.found d k]
      simp only [Expanded.source, hother]

/-- The templates of one expansion, one after the other. -/
theorem Indexed.addUnits {s : Expanding α} (h : Indexed uuid perDomain s) (domain : ModuleType) (ts : List (EngineTemplateUnit α)) :
    Indexed uuid perDomain (ts.foldl (Expanding.addUnit uuid perDomain domain) s) ∧
      (ts.foldl (Expanding.addUnit uuid perDomain domain) s).expanded.map Expanded.source =
        s.expanded.map Expanded.source ++ ts.map fun t => (domain, t) := by
  induction ts generalizing s with
  | nil => exact ⟨h, by simp⟩
  | cons t ts ih =>
    obtain ⟨hindexed, hsource⟩ := ih (h.addUnit domain t)
    refine ⟨hindexed, hsource.trans ?_⟩
    simp [Expanding.addUnit, Expanded.source]

/-- The loops go through where every expansion has a template. -/
theorem addExpansions_cases {s : Expanding α} (h : Indexed uuid perDomain s) (xs : List (ModuleType × ExecutionUnitClass)) :
    ((∀ x ∈ xs, registry.templatesFor x.1 x.2 ≠ []) ∧
        ∃ s', xs.foldlM (Expanding.addExpansion uuid registry perDomain) s = .ok s' ∧ Indexed uuid perDomain s' ∧
          s'.expanded.map Expanded.source = s.expanded.map Expanded.source ++ xs.flatMap (templatesOf registry)) ∨
      ((∃ x ∈ xs, registry.templatesFor x.1 x.2 = []) ∧
        ∃ reason, xs.foldlM (Expanding.addExpansion uuid registry perDomain) s = .error reason) := by
  induction xs generalizing s with
  | nil => exact .inl ⟨(fun _ hx => nomatch hx), s, rfl, h, by simp⟩
  | cons x xs ih =>
    rw [List.foldlM_cons]
    by_cases hx : registry.templatesFor x.1 x.2 = []
    · have hadd : s.addExpansion uuid registry perDomain x =
          .error ("NO_ENGINE_REGISTERED:" ++ domainText x.1 ++ ":" ++ classText x.2) := by
        simp [Expanding.addExpansion, hx]
      rw [hadd]
      exact .inr ⟨⟨x, List.mem_cons_self .., hx⟩, _, rfl⟩
    · have hadd : s.addExpansion uuid registry perDomain x =
          .ok ((registry.templatesFor x.1 x.2).foldl (Expanding.addUnit uuid perDomain x.1) s) := by
        simp [Expanding.addExpansion, hx]
      obtain ⟨hindexed, hsource⟩ := @Indexed.addUnits _ uuid perDomain _ h x.1 (registry.templatesFor x.1 x.2)
      rw [hadd]
      rcases ih hindexed with ⟨hall, s', hs', hindexed', hsource'⟩ | ⟨⟨x', hx', hnone⟩, hrefused⟩
      · refine .inl ⟨List.forall_mem_cons.mpr ⟨hx, hall⟩, s', hs', hindexed', ?_⟩
        rw [hsource', hsource, List.flatMap_cons, List.append_assoc, templatesOf]
      · exact .inr ⟨⟨x', List.mem_cons_of_mem _ hx', hnone⟩, hrefused⟩

/-! ### Which unit a key finds -/

/-- Templates of the key are registered for the domain and the class. -/
def Declares (registry : EngineRegistry α) (domain : ModuleType) (cls : ExecutionUnitClass) (key : String) : Prop :=
  ∃ t ∈ registry.templatesFor domain cls, t.key = key

theorem mem_expansions {d : ModuleType} {c : ExecutionUnitClass} :
    (d, c) ∈ expansions domains classMap ↔ d ∈ domains ∧ c ∈ classMap d := by
  simp [expansions, sortDomains, sortClasses]

theorem mem_templatesOf {d d' : ModuleType} {c : ExecutionUnitClass} {t : EngineTemplateUnit α} :
    (d, t) ∈ templatesOf registry (d', c) ↔ d = d' ∧ t ∈ registry.templatesFor d c := by
  simp only [templatesOf, List.mem_map, Prod.mk.injEq]
  constructor
  · rintro ⟨t', ht', rfl, rfl⟩
    exact ⟨rfl, ht'⟩
  · rintro ⟨rfl, ht⟩
    exact ⟨t, ht, rfl, rfl⟩

/-- A search that only one entry can answer. -/
theorem findSome?_only {β γ : Type} {f : β → Option γ} {l : List β} {b : β} (hb : b ∈ l) (h : ∀ x ∈ l, x ≠ b → f x = none) :
    l.findSome? f = f b := by
  induction l with
  | nil => exact nomatch hb
  | cons x l ih =>
    rw [List.findSome?_cons]
    by_cases hx : x = b
    · subst hx
      cases hf : f x with
      | some c => rfl
      | none =>
        refine List.findSome?_eq_none_iff.mpr fun y hy => ?_
        by_cases hyx : y = x
        · rw [hyx, hf]
        · exact h y (List.mem_cons_of_mem _ hy) hyx
    · rw [h x (List.mem_cons_self ..) hx]
      exact ih ((List.mem_cons.mp hb).resolve_left (Ne.symm hx)) fun y hy => h y (List.mem_cons_of_mem _ hy)

/-- Only the classes of its own domain have to be looked through. -/
theorem find_last {d : ModuleType} (hd : d ∈ domains) (k : String) :
    ((expansions domains classMap).flatMap (templatesOf registry)).reverse.find? (HasKey d k) =
      (sortClasses (classMap d)).reverse.findSome? fun c => (templatesOf registry (d, c)).reverse.find? (HasKey d k) := by
  unfold expansions
  rw [List.flatMap_assoc, List.reverse_flatMap, List.find?_flatMap]
  refine (@findSome?_only _ _ _ _ d ?_ ?_).trans ?_
  · simpa [sortDomains] using hd
  · intro d' _ hne
    rw [Function.comp_apply, List.find?_eq_none]
    rintro ⟨d'', t⟩ hmem hkey
    rw [List.mem_reverse, List.mem_flatMap] at hmem
    obtain ⟨⟨x, c⟩, hx, hmem⟩ := hmem
    obtain ⟨_, _, he⟩ := List.mem_map.mp hx
    cases he
    simp only [HasKey, Bool.and_eq_true, decide_eq_true_eq] at hkey
    exact hne ((mem_templatesOf.mp hmem).1.symm.trans hkey.1)
  · rw [Function.comp_apply, List.flatMap_map, List.reverse_flatMap, List.find?_flatMap]
    rfl

theorem sortClasses_pairwise (classes : List ExecutionUnitClass) :
    (sortClasses classes).Pairwise fun c c' => codeUnits (classText c) ≤ codeUnits (classText c') := by
  have : Std.Total fun c c' => codeUnits (classText c) ≤ codeUnits (classText c') := ⟨fun c c' => le_total _ _⟩
  have : IsTrans ExecutionUnitClass fun c c' => codeUnits (classText c) ≤ codeUnits (classText c') := ⟨fun _ _ _ => le_trans⟩
  exact List.pairwise_insertionSort _ _

/-- What is found is of the last class that declares the key. -/
theorem last_of_find {d : ModuleType} {k : String} {p : ModuleType × EngineTemplateUnit α} (hd : d ∈ domains)
    (h : ((expansions domains classMap).flatMap (templatesOf registry)).reverse.find? (HasKey d k) = some p) :
    p.1 = d ∧ p.2.key = k ∧ p.2 ∈ registry.templatesFor d p.2.executionUnitClass ∧ p.2.executionUnitClass ∈ classMap d ∧
      ∀ c ∈ classMap d, Declares registry d c k → codeUnits (classText c) ≤ codeUnits (classText p.2.executionUnitClass) := by
  have hkey := List.find?_some h
  simp only [HasKey, Bool.and_eq_true, decide_eq_true_eq] at hkey
  rw [find_last hd] at h
  obtain ⟨before, c, after, hsplit, hfind, hnone⟩ := List.findSome?_eq_some_iff.mp h
  obtain ⟨d', t⟩ := p
  obtain ⟨-, ht⟩ := mem_templatesOf.mp (List.mem_reverse.mp (List.mem_of_find?_eq_some hfind))
  obtain rfl : d' = d := hkey.1
  have hclass : t.executionUnitClass = c := EngineRegistry.class_of_mem ht
  have hmem : ∀ x, x ∈ classMap d' ↔ x ∈ before ++ c :: after := by
    intro x
    rw [← hsplit, List.mem_reverse, sortClasses, List.mem_insertionSort]
  refine ⟨rfl, hkey.2, hclass ▸ ht, hclass ▸ (hmem c).mpr (by simp), fun x hx ⟨t', ht', hk'⟩ => ?_⟩
  rw [hclass]
  have hsorted := List.pairwise_reverse.mpr (sortClasses_pairwise (classMap d'))
  rw [hsplit, List.pairwise_append, List.pairwise_cons] at hsorted
  rcases List.mem_append.mp ((hmem x).mp hx) with hbefore | hafter
  · refine absurd (hnone x hbefore) fun hno => ?_
    refine List.find?_eq_none.mp hno (d', t') (List.mem_reverse.mpr (mem_templatesOf.mpr ⟨rfl, ht'⟩)) ?_
    simp [HasKey, hk']
  · rcases List.mem_cons.mp hafter with rfl | hafter
    · exact le_rfl
    · exact hsorted.2.1.1 x hafter

/-! ### Edges within an expansion -/

/-- Every expansion has a template. -/
def Staffed (registry : EngineRegistry α) (domains : List ModuleType) (classMap : ModuleType → List ExecutionUnitClass) : Prop :=
  ∀ d ∈ domains, ∀ c ∈ classMap d, registry.templatesFor d c ≠ []

/-- `t` is expanded for `d` and `c` and depends on the key. -/
def Depends (registry : EngineRegistry α) (domains : List ModuleType) (classMap : ModuleType → List ExecutionUnitClass)
    (d : ModuleType) (c : ExecutionUnitClass) (k : String) : Prop :=
  d ∈ domains ∧ c ∈ classMap d ∧ ∃ t ∈ registry.templatesFor d c, k ∈ t.dependsOnKeys.getD []

/-- Edges lead to the units of the own expansion that have the keys, and to no unit of another expansion. -/
structure WithinExpansions (es : List (Expanded α)) (edges : List GraphEdge) : Prop where
  connected : ∀ u ∈ es, ∀ k ∈ u.template.dependsOnKeys.getD [],
    ∃ v ∈ es, v.template.key = k ∧ v.expansion = u.expansion ∧ ⟨u.id, v.id⟩ ∈ edges
  within : ∀ u ∈ es, ∀ v ∈ es, ⟨u.id, v.id⟩ ∈ edges → v.expansion = u.expansion

/-- `v` is what `u` finds by the key: it is of the last class that declares it. -/
structure Finds (registry : EngineRegistry α) (classMap : ModuleType → List ExecutionUnitClass) (u : Expanded α) (k : String)
    (v : Expanded α) : Prop where
  domain : v.domain = u.domain
  key : v.template.key = k
  last : ∀ c ∈ classMap u.domain, Declares registry u.domain c k →
    codeUnits (classText c) ≤ codeUnits (classText v.template.executionUnitClass)

/-- What units and edges are the result. -/
structure IsExpansion (registry : EngineRegistry α) (domains : List ModuleType)
    (classMap : ModuleType → List ExecutionUnitClass) (perDomain : ModuleType → α) (es : List (Expanded α))
    (edges : List GraphEdge) : Prop where
  own : ∀ e ∈ es, e.skipped = ownSkip perDomain e.domain e.template
  ids : ∀ u ∈ es, ∀ v ∈ es, u.id = v.id → u = v
  units : ∀ d t, (d, t) ∈ es.map Expanded.source ↔ d ∈ domains ∧ ∃ c ∈ classMap d, t ∈ registry.templatesFor d c
  found : ∀ u ∈ es, ∀ k ∈ u.template.dependsOnKeys.getD [], ∃ v ∈ es, Finds registry classMap u k v ∧ ⟨u.id, v.id⟩ ∈ edges
  only : ∀ edge ∈ edges, ∃ u ∈ es, ∃ k ∈ u.template.dependsOnKeys.getD [], ∃ v ∈ es,
    Finds registry classMap u k v ∧ edge = ⟨u.id, v.id⟩

theorem edgeOf_ok_iff {idByKey : String → Option String} {e : Expanded α} {k : String} {edge : GraphEdge} :
    edgeOf idByKey e k = .ok edge ↔ ∃ target, idByKey (unitKey e.domain k) = some target ∧ edge = ⟨e.id, target⟩ := by
  unfold edgeOf
  cases idByKey (unitKey e.domain k) with
  | none => simp
  | some target => simp [eq_comm]

/-- The units, if there are any. -/
theorem expandUnits_cases :
    (Staffed registry domains classMap ∧ ∃ s, expandUnits uuid registry domains classMap perDomain = .ok s ∧ Indexed uuid perDomain s ∧
        s.expanded.map Expanded.source = (expansions domains classMap).flatMap (templatesOf registry)) ∨
      (¬ Staffed registry domains classMap ∧
        ∃ reason, expandUnits uuid registry domains classMap perDomain = .error reason) := by
  have hstart : Indexed uuid perDomain (⟨[], fun _ => none⟩ : Expanding α) := ⟨(fun _ he => nomatch he), rfl, fun _ _ => rfl⟩
  rcases @addExpansions_cases _ uuid registry perDomain _ hstart (expansions domains classMap) with
    ⟨hall, hok⟩ | ⟨⟨⟨d, c⟩, hx, hnone⟩, hrefused⟩
  · exact .inl ⟨fun d hd c hc => hall (d, c) (mem_expansions.mpr ⟨hd, hc⟩), hok⟩
  · exact .inr ⟨fun hstaffed => hstaffed d (mem_expansions.mp hx).1 c (mem_expansions.mp hx).2 hnone, hrefused⟩

theorem mem_sources_iff {es : List (Expanded α)}
    (hsource : es.map Expanded.source = (expansions domains classMap).flatMap (templatesOf registry)) (d : ModuleType)
    (t : EngineTemplateUnit α) :
    (d, t) ∈ es.map Expanded.source ↔ d ∈ domains ∧ ∃ c ∈ classMap d, t ∈ registry.templatesFor d c := by
  rw [hsource, List.mem_flatMap]
  constructor
  · rintro ⟨⟨d', c⟩, hx, ht⟩
    obtain ⟨rfl, hregistered⟩ := mem_templatesOf.mp ht
    exact ⟨(mem_expansions.mp hx).1, c, (mem_expansions.mp hx).2, hregistered⟩
  · rintro ⟨hd, c, hc, ht⟩
    exact ⟨(d, c), mem_expansions.mpr ⟨hd, hc⟩, mem_templatesOf.mpr ⟨rfl, ht⟩⟩

/-- What a key of a unit finds. -/
theorem found_iff {s : Expanding α} (h : Indexed uuid perDomain s)
    (hsource : s.expanded.map Expanded.source = (expansions domains classMap).flatMap (templatesOf registry)) {u : Expanded α}
    (hu : u ∈ s.expanded) {k target : String} (htarget : s.idByKey (unitKey u.domain k) = some target) :
    ∃ v ∈ s.expanded, Finds registry classMap u k v ∧ target = v.id := by
  have hd : u.domain ∈ domains := ((mem_sources_iff hsource u.domain u.template).mp (List.mem_map_of_mem hu)).1
  rw [h.found, Option.map_eq_some_iff] at htarget
  obtain ⟨v, hv, rfl⟩ := htarget
  have hlast : ((expansions domains classMap).flatMap (templatesOf registry)).reverse.find? (HasKey u.domain k) = some v.source := by
    rw [← hsource, ← List.map_reverse, List.find?_map, Function.comp_def, hv]
    rfl
  obtain ⟨hdomain, hkey, -, -, hlast⟩ := last_of_find hd hlast
  exact ⟨v, List.mem_reverse.mp (List.mem_of_find?_eq_some hv), ⟨hdomain, hkey, hlast⟩, rfl⟩

theorem isExpansion_of_expand {es : List (Expanded α)} {edges : List GraphEdge} (hid : Function.Injective uuid)
    (h : expand uuid registry domains classMap perDomain = .ok (es, edges)) :
    IsExpansion registry domains classMap perDomain es edges := by
  obtain ⟨s, hs, h⟩ := bind_ok_iff.mp h
  obtain ⟨lists, hlists, h⟩ := bind_ok_iff.mp h
  cases h
  obtain ⟨-, s', hs', hindexed, hsource⟩ | ⟨-, reason, hreason⟩ := @expandUnits_cases _ uuid registry domains classMap perDomain
  · obtain rfl : s = s' := Except.ok.inj (hs.symm.trans hs')
    have hmem : ∀ edge, edge ∈ lists.flatten ↔ ∃ u ∈ s.expanded, ∃ k ∈ u.template.dependsOnKeys.getD [], ∃ target,
        s.idByKey (unitKey u.domain k) = some target ∧ edge = ⟨u.id, target⟩ := by
      intro edge
      simp only [List.mem_flatten, mem_of_mapM hlists]
      constructor
      · rintro ⟨list, ⟨u, hu, hlist⟩, hedge⟩
        obtain ⟨k, hk, hedge⟩ := (mem_of_mapM hlist edge).mp hedge
        exact ⟨u, hu, k, hk, edgeOf_ok_iff.mp hedge⟩
      · rintro ⟨u, hu, k, hk, hedge⟩
        obtain ⟨list, hlist⟩ := mapM_answers.mp ⟨lists, hlists⟩ u hu
        exact ⟨list, ⟨u, hu, hlist⟩, (mem_of_mapM hlist edge).mpr ⟨k, hk, edgeOf_ok_iff.mpr hedge⟩⟩
    refine ⟨hindexed.own, ?_, mem_sources_iff hsource, fun u hu k hk => ?_, fun edge hedge => ?_⟩
    · have hnd : (s.expanded.map (·.id)).Nodup := by
        rw [hindexed.ids]
        exact List.nodup_range.map hid
      exact fun u hu v hv e => List.inj_on_of_nodup_map hnd hu hv e
    · obtain ⟨list, hlist⟩ := mapM_answers.mp ⟨lists, hlists⟩ u hu
      obtain ⟨edge, hedge⟩ := mapM_answers.mp ⟨list, hlist⟩ k hk
      obtain ⟨target, htarget, rfl⟩ := edgeOf_ok_iff.mp hedge
      obtain ⟨v, hv, hfinds, rfl⟩ := found_iff hindexed hsource hu htarget
      exact ⟨v, hv, hfinds, (hmem _).mpr ⟨u, hu, k, hk, v.id, htarget, rfl⟩⟩
    · obtain ⟨u, hu, k, hk, target, htarget, rfl⟩ := (hmem edge).mp hedge
      obtain ⟨v, hv, hfinds, rfl⟩ := found_iff hindexed hsource hu htarget
      exact ⟨u, hu, k, hk, v, hv, hfinds, rfl⟩
  · exact nomatch hs.symm.trans hreason

/-- When there is no refusal. -/
theorem expand_answers : (∃ p, expand uuid registry domains classMap perDomain = .ok p) ↔
    Staffed registry domains classMap ∧
      ∀ d c k, Depends registry domains classMap d c k → ∃ c' ∈ classMap d, Declares registry d c' k := by
  obtain ⟨hstaffed, s, hs, hindexed, hsource⟩ | ⟨hstaffed, reason, hreason⟩ :=
    @expandUnits_cases _ uuid registry domains classMap perDomain
  · have hkey : ∀ u ∈ s.expanded, ∀ k, (∃ edge, edgeOf s.idByKey u k = .ok edge) ↔
        ∃ c ∈ classMap u.domain, Declares registry u.domain c k := by
      intro u hu k
      have hd : u.domain ∈ domains := ((mem_sources_iff hsource u.domain u.template).mp (List.mem_map_of_mem hu)).1
      constructor
      · rintro ⟨edge, hedge⟩
        obtain ⟨target, htarget, -⟩ := edgeOf_ok_iff.mp hedge
        obtain ⟨v, hv, hfinds, -⟩ := found_iff hindexed hsource hu htarget
        obtain ⟨-, c, hc, ht⟩ := (mem_sources_iff hsource v.domain v.template).mp (List.mem_map_of_mem hv)
        rw [hfinds.domain] at hc ht
        exact ⟨c, hc, v.template, ht, hfinds.key⟩
      · rintro ⟨c, hc, t, ht, hk⟩
        obtain ⟨v, hv, he⟩ := List.mem_map.mp ((mem_sources_iff hsource u.domain t).mpr ⟨hd, c, hc, ht⟩)
        have hsome : (s.idByKey (unitKey u.domain k)).isSome := by
          rw [hindexed.found, Option.isSome_map, List.find?_isSome]
          exact ⟨v, List.mem_reverse.mpr hv, by simp [HasKey, he, hk]⟩
        obtain ⟨target, htarget⟩ := Option.isSome_iff_exists.mp hsome
        exact ⟨_, edgeOf_ok_iff.mpr ⟨target, htarget, rfl⟩⟩
    have hcalls : (∃ p, expand uuid registry domains classMap perDomain = .ok p) ↔
        ∀ u ∈ s.expanded, ∀ k ∈ u.template.dependsOnKeys.getD [], ∃ edge, edgeOf s.idByKey u k = .ok edge := by
      constructor
      · rintro ⟨p, hp⟩
        obtain ⟨s', hs', hp⟩ := bind_ok_iff.mp hp
        obtain rfl : s' = s := Except.ok.inj (hs'.symm.trans hs)
        obtain ⟨lists, hlists, -⟩ := bind_ok_iff.mp hp
        exact fun u hu => mapM_answers.mp (mapM_answers.mp ⟨lists, hlists⟩ u hu)
      · intro h
        obtain ⟨lists, hlists⟩ := mapM_answers.mpr fun u hu => mapM_answers.mpr (h u hu)
        exact ⟨(s.expanded, lists.flatten), bind_ok_iff.mpr ⟨s, hs, bind_ok_iff.mpr ⟨lists, hlists, rfl⟩⟩⟩
    rw [hcalls]
    refine ⟨fun h => ⟨hstaffed, ?_⟩, fun ⟨_, h⟩ u hu k hk => (hkey u hu k).mpr ?_⟩
    · rintro d c k ⟨hd, hc, t, ht, hk⟩
      obtain ⟨u, hu, he⟩ := List.mem_map.mp ((mem_sources_iff hsource d t).mpr ⟨hd, c, hc, ht⟩)
      cases he
      exact (hkey u hu k).mp (h u hu k hk)
    · obtain ⟨hd, c, hc, ht⟩ := (mem_sources_iff hsource u.domain u.template).mp (List.mem_map_of_mem hu)
      exact h u.domain c k ⟨hd, hc, u.template, ht, hk⟩
  · refine iff_of_false (fun ⟨p, hp⟩ => ?_) fun h => hstaffed h.1
    obtain ⟨s, hs, -⟩ := bind_ok_iff.mp hp
    exact nomatch hs.symm.trans hreason

/-- **When edges stay in their expansion**: where the units are not refused, no later class of the domain may declare a key
that a template depends on, and the template's own class has to. -/
theorem expand_within_iff (hid : Function.Injective uuid) :
    (∀ es edges, expand uuid registry domains classMap perDomain = .ok (es, edges) → WithinExpansions es edges) ↔
      (Staffed registry domains classMap →
        (∀ d c k, Depends registry domains classMap d c k → ∃ c' ∈ classMap d, Declares registry d c' k) →
        ∀ d c k, Depends registry domains classMap d c k → Declares registry d c k ∧
          ∀ c' ∈ classMap d, Declares registry d c' k → codeUnits (classText c') ≤ codeUnits (classText c)) := by
  constructor
  · rintro h hstaffed hdeclared d c k ⟨hd, hc, t, ht, hk⟩
    obtain ⟨⟨es, edges⟩, hok⟩ := expand_answers.mpr ⟨hstaffed, hdeclared⟩
    have hes := isExpansion_of_expand hid hok
    have hwithin := h es edges hok
    obtain ⟨u, hu, he⟩ := List.mem_map.mp ((hes.units d t).mpr ⟨hd, c, hc, ht⟩)
    cases he
    obtain ⟨v, hv, hfinds, hedge⟩ := hes.found u hu k hk
    have hclass : v.template.executionUnitClass = c := by
      rw [← EngineRegistry.class_of_mem ht]
      exact congrArg Prod.snd (hwithin.within u hu v hv hedge)
    obtain ⟨-, c', -, hv'⟩ := (hes.units v.domain v.template).mp (List.mem_map_of_mem hv)
    rw [hfinds.domain, ← EngineRegistry.class_of_mem hv', hclass] at hv'
    exact ⟨⟨v.template, hv', hfinds.key⟩, hclass ▸ hfinds.last⟩
  · intro h es edges hok
    have hes := isExpansion_of_expand hid hok
    obtain ⟨hstaffed, hdeclared⟩ := expand_answers.mp ⟨_, hok⟩
    have hown := h hstaffed hdeclared
    have hfound : ∀ u ∈ es, ∀ k ∈ u.template.dependsOnKeys.getD [], ∀ v ∈ es, Finds registry classMap u k v →
        v.expansion = u.expansion := by
      intro u hu k hk v hv hfinds
      obtain ⟨hd, c, hc, ht⟩ := (hes.units u.domain u.template).mp (List.mem_map_of_mem hu)
      obtain ⟨-, c', hc', hv'⟩ := (hes.units v.domain v.template).mp (List.mem_map_of_mem hv)
      obtain ⟨hdecl, hlast⟩ := hown u.domain c k ⟨hd, hc, u.template, ht, hk⟩
      rw [hfinds.domain] at hc' hv'
      have hle := hfinds.last c hc hdecl
      have hge := hlast c' hc' ⟨v.template, hv', hfinds.key⟩
      rw [EngineRegistry.class_of_mem hv'] at hle
      have hclass : c' = c := classText_injective (codeUnits_injective (le_antisymm hge hle))
      unfold Expanded.expansion
      rw [hfinds.domain, EngineRegistry.class_of_mem hv', EngineRegistry.class_of_mem ht, hclass]
    refine ⟨fun u hu k hk => ?_, fun u hu v hv hedge => ?_⟩
    · obtain ⟨v, hv, hfinds, hedge⟩ := hes.found u hu k hk
      exact ⟨v, hv, hfinds.key, hfound u hu k hk v hv hfinds, hedge⟩
    · obtain ⟨u', hu', k, hk, v', hv', hfinds, he⟩ := hes.only _ hedge
      simp only [GraphEdge.mk.injEq] at he
      rw [hes.ids u hu u' hu' he.1, hes.ids v hv v' hv' he.2]
      exact hfound u' hu' k hk v' hv' hfinds

end Loops

/-! ### Two classes with the same keys -/

/-- A crawl, and an audit of what it has found. -/
def crawlTemplates (unitClass : ExecutionUnitClass) : List (EngineTemplateUnit Unit) :=
  [⟨"crawl", "crawler", unitClass, 60000, 0, 1, none, 0, none, none⟩,
    ⟨"audit", "auditor", unitClass, 60000, 0, 1, none, 0, some ["crawl"], none⟩]

def crawlTable : List (RegistryRow Unit) :=
  [⟨.SECURITY, .BROWSER, crawlTemplates .BROWSER⟩, ⟨.SECURITY, .PASSIVE_HTTP, crawlTemplates .PASSIVE_HTTP⟩]

def crawlRegistry : EngineRegistry Unit :=
  (createEngineRegistry crawlTable).toOption.getD ⟨fun _ => none, fun _ _ _ h => nomatch h⟩

/-- Ids that are all different. -/
def sampleUuid (n : ℕ) : String := String.ofList (List.replicate (n + 1) '0')

theorem sampleUuid_injective : Function.Injective sampleUuid := by
  intro n m h
  have hlength := congrArg (fun s => s.toList.length) h
  simpa [sampleUuid] using hlength

theorem expand_within_iff_crawl :
    (∀ es edges, expand sampleUuid crawlRegistry [.SECURITY] (fun _ => [.BROWSER, .PASSIVE_HTTP]) (fun _ => ()) =
        .ok (es, edges) → WithinExpansions es edges) ↔
      (Staffed crawlRegistry [.SECURITY] (fun _ => [.BROWSER, .PASSIVE_HTTP]) →
        (∀ d c k, Depends crawlRegistry [.SECURITY] (fun _ => [.BROWSER, .PASSIVE_HTTP]) d c k →
          ∃ c' ∈ [.BROWSER, .PASSIVE_HTTP], Declares crawlRegistry d c' k) →
        ∀ d c k, Depends crawlRegistry [.SECURITY] (fun _ => [.BROWSER, .PASSIVE_HTTP]) d c k →
          Declares crawlRegistry d c k ∧ ∀ c' ∈ [.BROWSER, .PASSIVE_HTTP], Declares crawlRegistry d c' k →
            codeUnits (classText c') ≤ codeUnits (classText c)) :=
  expand_within_iff sampleUuid_injective

/-- The audit in the browser waits for the crawl over HTTP, and not for its own. -/
theorem audit_bound_to_other_crawl :
    ∃ registry es edges, createEngineRegistry crawlTable = .ok registry ∧
      expand sampleUuid registry [.SECURITY] (fun _ => [.BROWSER, .PASSIVE_HTTP]) (fun _ => ()) = .ok (es, edges) ∧
        ¬ WithinExpansions es edges := by
  have hseen : (createEngineRegistry crawlTable).toOption.bind (fun registry =>
      (expand sampleUuid registry [.SECURITY] (fun _ => [.BROWSER, .PASSIVE_HTTP]) (fun _ => ())).toOption.map fun p =>
        (p.1.map fun e => (e.id, e.expansion), p.2)) =
      some ([("0", .SECURITY, .BROWSER), ("00", .SECURITY, .BROWSER), ("000", .SECURITY, .PASSIVE_HTTP),
        ("0000", .SECURITY, .PASSIVE_HTTP)], [⟨"00", "000"⟩, ⟨"0000", "000"⟩]) := by
    decide
  obtain ⟨registry, hregistry, hseen⟩ := Option.bind_eq_some_iff.mp hseen
  obtain ⟨⟨es, edges⟩, hexpand, hseen⟩ := Option.map_eq_some_iff.mp hseen
  simp only [Prod.mk.injEq] at hseen
  obtain ⟨hunits, hedges⟩ := hseen
  have hunit : ∀ id c, (id, ModuleType.SECURITY, c) ∈ es.map (fun e => (e.id, e.expansion)) →
      ∃ u ∈ es, u.id = id ∧ u.expansion = (.SECURITY, c) := by
    intro id c h
    obtain ⟨u, hu, e⟩ := List.mem_map.mp h
    exact ⟨u, hu, congrArg Prod.fst e, congrArg Prod.snd e⟩
  obtain ⟨u, hu, hid, hbrowser⟩ := hunit "00" .BROWSER (by simp [hunits])
  obtain ⟨v, hv, hid', hpassive⟩ := hunit "000" .PASSIVE_HTTP (by simp [hunits])
  refine ⟨registry, es, edges, toOption_eq_some_iff.mp hregistry, toOption_eq_some_iff.mp hexpand, fun h => ?_⟩
  have hsame := h.within u hu v hv (by simp [hid, hid', hedges])
  rw [hbrowser, hpassive] at hsame
  exact absurd hsame (by decide)

end WebAudit.Planning
