import WebAudit.Runner.Encoding
import WebAudit.Runner.Interpretation

/-!
# A judgement in two audits

What becomes of the insights of two answers of the model, for the same target and module. An insight that relates to no measured check is
reported under a fingerprint of its title and of its place among those; any other explains the measured findings of the checks to which
it is the first to relate.
-/

namespace WebAudit.Runner

open WebAudit.Lib WebAudit.Lib.Uri WebAudit.Lib.Values WebAudit.Scans
open WebAudit.Redaction (decimalText isDigit_of_mem_decimalText decimalText_injective)

/-! ### Two answers -/

/-- An answer of the model, with what was measured, and what is made of both. -/
structure Judged (platform : Platform) (context : AttributeContext) where
  insight : ModuleInsight
  findings : List CapabilityFinding
  measured : List AttributedFinding
  judgments : List AttributedFinding
  measured_eq : attributeMeasured platform context findings (some insight) = some measured
  judgments_eq : attributeJudgment platform context insight (findings.map (·.checkId)) = some judgments

namespace Judged

section Definitions

variable {platform : Platform} {context : AttributeContext} {root : Option Text} (a : Judged platform context)

/-- The insight is tied to a measured check. -/
def Tied (item : Insight) : Prop := ∃ finding ∈ a.findings, finding.checkId ∈ item.relatesToCheckIds

/-- The insights that are not, in their order. -/
def untied : List Insight :=
  a.insight.insights.filter fun item => !item.relatesToCheckIds.any (a.findings.map (·.checkId)).contains

def Reported (item : Insight) : Prop :=
  ∃ judgment ∈ a.judgments, judgment.title = item.title ∧ judgment.explanation = item.explanation ∧
    judgment.consequence = item.consequence ∧ judgment.severity = item.severity

/-- It explains a measured finding that it is tied to. -/
def Enriches (item : Insight) : Prop :=
  ∃ p ∈ a.findings.zip a.measured, p.1.checkId ∈ item.relatesToCheckIds ∧
    p.2.explanation = p.1.description ++ [0x0A, 0x0A] ++ item.explanation

/-- None is lost. -/
def Accounted : Prop := ∀ item ∈ a.insight.insights, (¬ a.Tied item → a.Reported item) ∧ (a.Tied item → a.Enriches item)

/-- The first insight to relate to some measured check has the same explanation. -/
def First (item : Insight) : Prop :=
  ∃ finding ∈ a.findings, finding.checkId ∈ item.relatesToCheckIds ∧
    ∃ first, relatedTo (some a.insight) finding.checkId = some first ∧ first.explanation = item.explanation

/-- A judgement keeps its identity from one audit to the other, and no insight is lost. -/
structure Keeps (a : Judged platform context) (b : Judged platform { context with workspaceRoot := root }) : Prop where
  same : ∀ x ∈ a.judgments, ∀ y ∈ b.judgments, x.title = y.title → x.fingerprint = y.fingerprint
  apart : ∀ x ∈ a.judgments ++ b.judgments, ∀ y ∈ a.judgments ++ b.judgments, x.title ≠ y.title → x.fingerprint ≠ y.fingerprint
  accounted : a.Accounted ∧ b.Accounted

/-- One title has one place, one place has one title but for lone surrogates, and each insight that is tied is the first for some check. -/
structure Aligned (a : Judged platform context) (b : Judged platform { context with workspaceRoot := root }) : Prop where
  place : ∀ (i j : ℕ) item item', a.untied[i]? = some item → b.untied[j]? = some item' → item.title = item'.title → i = j
  title : ∀ (i : ℕ) item item', a.untied[i]? = some item → b.untied[i]? = some item' →
    toWellFormed item.title = toWellFormed item'.title → item.title = item'.title
  first : (∀ item ∈ a.insight.insights, a.Tied item → a.First item) ∧ ∀ item ∈ b.insight.insights, b.Tied item → b.First item

/-- What a judgement is known again by. -/
def identity (context : AttributeContext) (title : Text) (place : ℕ) : Identity :=
  ⟨context.targetId, context.module, judgmentCheckId context.module, [title, decimalText place]⟩

/-- Of the insights that are reported. -/
def identities : List Identity := a.untied.zipIdx.map fun p => identity context p.1.title p.2

end Definitions

/-! ### Identities -/

section Identities

variable {context : AttributeContext} {title title' text : Text} {i j : ℕ}

theorem toWellFormed_of_plain (h : ∀ u ∈ text, isSurrogate u = false) : toWellFormed text = text := by
  have hreplaced {u : ℕ} (hu : isSurrogate u = false) : replaced u = u := by
    unfold replaced
    rw [hu]
    rfl
  induction text using toWellFormed.induct with
  | case1 => rfl
  | case2 u => rw [toWellFormed, hreplaced (h u (List.mem_singleton_self u))]
  | case3 u v rest hpair ih =>
    have hu := (Bool.or_eq_false_iff.mp (h u (List.mem_cons_self ..))).1
    rw [hu] at hpair
    cases hpair
  | case4 u v rest hpair ih =>
    rw [toWellFormed, if_neg hpair, hreplaced (h u (List.mem_cons_self ..)), ih fun w hw => h w (List.mem_cons_of_mem _ hw)]

theorem not_surrogate_decimalText {u n : ℕ} (h : u ∈ decimalText n) : u < 0x10000 ∧ isSurrogate u = false := by
  have hdigit := isDigit_of_mem_decimalText h
  unfold Redaction.isDigit at hdigit
  unfold isSurrogate isHighSurrogate isLowSurrogate
  simp only [Bool.and_eq_true, decide_eq_true_eq] at hdigit
  simp only [Bool.or_eq_false_iff, Bool.and_eq_false_iff, decide_eq_false_iff_not]
  omega

theorem isUnits_judgmentCheckId (module : ModuleType) : IsUnits (judgmentCheckId module) := by
  unfold IsUnits
  cases module <;> decide

theorem isUnits_moduleName (module : ModuleType) : IsUnits (moduleName module) := by
  unfold IsUnits
  cases module <;> decide

theorem isTexts_identity (htarget : IsUnits context.targetId) (htitle : IsUnits title) : (identity context title i).IsTexts := by
  intro text htext
  simp only [Identity.texts, identity, List.mem_cons, List.not_mem_nil, or_false] at htext
  rcases htext with rfl | rfl | rfl | rfl | rfl
  · exact htarget
  · exact isUnits_moduleName _
  · exact isUnits_judgmentCheckId _
  · exact htitle
  · exact fun u hu => (not_surrogate_decimalText hu).1

/-- **Judgements are one and the same** when they have the same title, but for lone surrogates, and the same place. -/
theorem encoded_identity_iff (htarget : IsUnits context.targetId) (htitle : IsUnits title) (htitle' : IsUnits title') :
    (identity context title i).encoded = (identity context title' j).encoded ↔ toWellFormed title = toWellFormed title' ∧ i = j := by
  rw [Identity.encoded_eq_iff_toWellFormed (isTexts_identity htarget htitle) (isTexts_identity htarget htitle')]
  have hplain (n : ℕ) : toWellFormed (decimalText n) = decimalText n := toWellFormed_of_plain fun u hu => (not_surrogate_decimalText hu).2
  unfold Identity.toWellFormed identity
  simp only [Identity.mk.injEq, List.map_cons, List.map_nil, List.cons.injEq, hplain, decimalText_injective.eq_iff, and_true, true_and]

end Identities

/-! ### What is made of an answer -/

section Made

variable {platform : Platform} {context : AttributeContext} {a : Judged platform context} {item : Insight} {i : ℕ}

theorem any_contains_iff : (item.relatesToCheckIds.any (a.findings.map (·.checkId)).contains) = true ↔ a.Tied item := by
  rw [List.any_eq_true]
  simp only [List.contains_iff_mem, List.mem_map]
  constructor
  · rintro ⟨id, hid, finding, hfinding, rfl⟩
    exact ⟨finding, hfinding, hid⟩
  · rintro ⟨finding, hfinding, hid⟩
    exact ⟨_, hid, finding, hfinding, rfl⟩

theorem mem_untied_iff : item ∈ a.untied ↔ item ∈ a.insight.insights ∧ ¬ a.Tied item := by
  unfold untied
  rw [List.mem_filter, Bool.not_eq_true', ← any_contains_iff, Bool.not_eq_true]

/-- Each gives something, in its place. -/
theorem exists_of_mapM {α β : Type} {f : α → Option β} {xs : List α} {ys : List β} (h : xs.mapM f = some ys) {x : α} (hx : x ∈ xs) :
    ∃ y, (x, y) ∈ xs.zip ys ∧ f x = some y := by
  induction xs generalizing ys with
  | nil => cases hx
  | cons x' xs ih =>
    rw [List.mapM_cons] at h
    obtain ⟨y, hy, h⟩ := Option.bind_eq_some_iff.mp h
    obtain ⟨rest, hrest, h⟩ := Option.bind_eq_some_iff.mp h
    cases h
    rcases List.mem_cons.mp hx with rfl | hx
    · exact ⟨y, List.mem_cons_self .., hy⟩
    · obtain ⟨y', hmem, hf⟩ := ih hrest hx
      exact ⟨y', List.mem_cons_of_mem _ hmem, hf⟩

theorem of_mem_zip_mapM {α β : Type} {f : α → Option β} {xs : List α} {ys : List β} (h : xs.mapM f = some ys) {x : α} {y : β}
    (hp : (x, y) ∈ xs.zip ys) : f x = some y := by
  induction xs generalizing ys with
  | nil => cases hp
  | cons x' xs ih =>
    rw [List.mapM_cons] at h
    obtain ⟨y', hy', h⟩ := Option.bind_eq_some_iff.mp h
    obtain ⟨rest, hrest, h⟩ := Option.bind_eq_some_iff.mp h
    cases h
    rcases List.mem_cons.mp hp with heq | hp
    · obtain ⟨rfl, rfl⟩ := Prod.mk.inj heq
      exact hy'
    · exact ih hrest hp

/-- What a judgement is made of. -/
structure MadeOf (context : AttributeContext) (platform : Platform) (item : Insight) (i : ℕ) (judgment : AttributedFinding) : Prop where
  fingerprint : (identity context item.title i).fingerprint platform = some judgment.fingerprint
  title : judgment.title = item.title
  explanation : judgment.explanation = item.explanation
  consequence : judgment.consequence = item.consequence
  severity : judgment.severity = item.severity

theorem madeOf_of_attributeInsight {judgment : AttributedFinding} (h : attributeInsight platform context i item = some judgment) :
    MadeOf context platform item i judgment := by
  unfold attributeInsight at h
  obtain ⟨fingerprint, hfingerprint, rfl⟩ := Option.map_eq_some_iff.mp h
  exact ⟨hfingerprint, rfl, rfl, rfl, rfl⟩

/-- Each judgement is made of an insight in its place. -/
theorem exists_item {judgment : AttributedFinding} (h : judgment ∈ a.judgments) :
    ∃ i item, a.untied[i]? = some item ∧ MadeOf context platform item i judgment := by
  obtain ⟨p, hp, hmade⟩ := mapM_mem a.judgments_eq h
  exact ⟨p.2, p.1, List.mem_zipIdx_iff_getElem?.mp hp, madeOf_of_attributeInsight hmade⟩

/-- And of each of them one is made. -/
theorem exists_judgment (h : a.untied[i]? = some item) : ∃ judgment ∈ a.judgments, MadeOf context platform item i judgment := by
  obtain ⟨judgment, hmem, hmade⟩ := exists_of_mapM a.judgments_eq (List.mem_zipIdx_iff_getElem?.mpr h : (item, i) ∈ a.untied.zipIdx)
  exact ⟨judgment, (List.of_mem_zip hmem).2, madeOf_of_attributeInsight hmade⟩

theorem identity_mem (h : a.untied[i]? = some item) : identity context item.title i ∈ a.identities :=
  List.mem_map.mpr ⟨(item, i), List.mem_zipIdx_iff_getElem?.mpr h, rfl⟩

theorem reported_of_not_tied (hmem : item ∈ a.insight.insights) (h : ¬ a.Tied item) : a.Reported item := by
  obtain ⟨i, hi⟩ := List.mem_iff_getElem?.mp (mem_untied_iff.mpr ⟨hmem, h⟩)
  obtain ⟨judgment, hjudgment, hmade⟩ := exists_judgment hi
  exact ⟨judgment, hjudgment, hmade.title, hmade.explanation, hmade.consequence, hmade.severity⟩

/-- **An insight enriches** when it is the first for some check it is tied to. -/
theorem enriches_iff (hmem : item ∈ a.insight.insights) : a.Enriches item ↔ a.First item := by
  -- what becomes of a finding that the insight is tied to
  have hfirst {finding : CapabilityFinding} {attributed : AttributedFinding} (hid : finding.checkId ∈ item.relatesToCheckIds)
      (hattributed : attributeFinding platform context (some a.insight) finding = some attributed) :
      ∃ first, relatedTo (some a.insight) finding.checkId = some first ∧
        attributed.explanation = finding.description ++ [0x0A, 0x0A] ++ first.explanation := by
    have hsome : (relatedTo (some a.insight) finding.checkId).isSome = true := by
      show (a.insight.insights.find? _).isSome = true
      rw [List.find?_isSome]
      exact ⟨item, hmem, List.contains_iff_mem.mpr hid⟩
    obtain ⟨first, hrelated⟩ := Option.isSome_iff_exists.mp hsome
    obtain ⟨fingerprint, -, rfl⟩ := Option.map_eq_some_iff.mp hattributed
    refine ⟨first, hrelated, ?_⟩
    dsimp only
    rw [hrelated]
    rfl
  constructor
  · rintro ⟨⟨finding, attributed⟩, hp, hid, hexplanation⟩
    obtain ⟨first, hrelated, hsame⟩ := hfirst hid (of_mem_zip_mapM a.measured_eq hp)
    exact ⟨finding, (List.of_mem_zip hp).1, hid, first, hrelated, List.append_cancel_left (hsame.symm.trans hexplanation)⟩
  · rintro ⟨finding, hfinding, hid, first, hrelated, hsame⟩
    obtain ⟨attributed, hp, hattributed⟩ := exists_of_mapM a.measured_eq hfinding
    obtain ⟨first', hrelated', hexplanation⟩ := hfirst hid hattributed
    rw [hrelated] at hrelated'
    obtain rfl := Option.some.inj hrelated'
    exact ⟨(finding, attributed), hp, hid, hsame ▸ hexplanation⟩

theorem accounted_iff : a.Accounted ↔ ∀ item ∈ a.insight.insights, a.Tied item → a.First item := by
  refine forall₂_congr fun item hmem => ?_
  rw [enriches_iff hmem]
  exact ⟨And.right, fun h => ⟨reported_of_not_tied hmem, h⟩⟩

end Made

/-! ### From audit to audit -/

section Pairs

variable {platform : Platform} {context : AttributeContext} {root : Option Text} {a : Judged platform context}
  {b : Judged platform { context with workspaceRoot := root }}

/-- The workspace is not in it. -/
theorem MadeOf.forget {item : Insight} {i : ℕ} {judgment : AttributedFinding}
    (h : MadeOf { context with workspaceRoot := root } platform item i judgment) : MadeOf context platform item i judgment :=
  ⟨h.fingerprint, h.title, h.explanation, h.consequence, h.severity⟩

/-- The titles are texts, and the hash does not take the one identity for another. -/
structure Readable (a : Judged platform context) (b : Judged platform { context with workspaceRoot := root }) : Prop where
  target : IsUnits context.targetId
  titles : ∀ item ∈ a.untied ++ b.untied, IsUnits item.title
  hash : ∀ x ∈ a.identities ++ b.identities, ∀ y ∈ a.identities ++ b.identities, x.CollisionFree platform y

/-- A judgement of either audit, with its insight and its place. -/
theorem exists_item_append {judgment : AttributedFinding} (h : judgment ∈ a.judgments ++ b.judgments) :
    ∃ i item, (a.untied[i]? = some item ∨ b.untied[i]? = some item) ∧ MadeOf context platform item i judgment := by
  rcases List.mem_append.mp h with h | h
  · obtain ⟨i, item, hi, hmade⟩ := exists_item h
    exact ⟨i, item, .inl hi, hmade⟩
  · obtain ⟨i, item, hi, hmade⟩ := exists_item h
    exact ⟨i, item, .inr hi, hmade.forget⟩

/-- **When two judgements share a fingerprint.** -/
theorem fingerprint_iff (h : Readable a b) {x y : AttributedFinding} {item item' : Insight} {i j : ℕ}
    (hi : a.untied[i]? = some item ∨ b.untied[i]? = some item) (hj : a.untied[j]? = some item' ∨ b.untied[j]? = some item')
    (hx : MadeOf context platform item i x) (hy : MadeOf context platform item' j y) :
    x.fingerprint = y.fingerprint ↔ toWellFormed item.title = toWellFormed item'.title ∧ i = j := by
  have hidentity {item : Insight} {i : ℕ} (hi : a.untied[i]? = some item ∨ b.untied[i]? = some item) :
      identity context item.title i ∈ a.identities ++ b.identities :=
    List.mem_append.mpr (hi.imp identity_mem identity_mem)
  have htitle {item : Insight} {i : ℕ} (hi : a.untied[i]? = some item ∨ b.untied[i]? = some item) : IsUnits item.title :=
    h.titles item (List.mem_append.mpr (hi.imp List.mem_of_getElem? List.mem_of_getElem?))
  rw [← encoded_identity_iff h.target (htitle hi) (htitle hj), ← Identity.fingerprint_eq_iff (h.hash _ (hidentity hi) _ (hidentity hj)),
    hx.fingerprint, hy.fingerprint, Option.some.injEq]

/-- SHA-256, as far as it is asked. -/
def hashed : Platform where
  sha256 bytes :=
    if bytes = ascii "1:t3:SEO15:ai.seo.judgment1:B1:0" then ascii "a58a6dd50aa37353b037297dde4d4f11408f1bf56e512421ce61b78f1f50d0ce"
    else ascii "69a89db87315aa022b2e660bd3215be83a29cf68dc02517cbb3d5b16480bc143"
  parseUrl _ := none
  sha256_plain bytes := by
    split_ifs <;> exact plain_ascii rfl
  parseUrl_plain := noUrl_plain

def seo : AttributeContext := ⟨.SEO, ascii "t", none⟩

/-- What is made of an answer about findings of this check. -/
def answered (insights : List Insight) (checkIds : List Text) : Judged hashed seo :=
  let insight : ModuleInsight := ⟨ascii "s", insights, []⟩
  let findings := checkIds.map fun checkId : Text =>
    (⟨checkId, [], .LOW, ascii "f", ascii "d", none, none, none, false⟩ : CapabilityFinding)
  have hmeasured : (attributeMeasured hashed seo findings (some insight)).isSome := by
    unfold attributeMeasured
    rw [isSome_mapM, List.all_map, List.all_eq_true]
    exact fun _ _ => rfl
  have hjudged := @attributeJudgment_isSome hashed seo insight (findings.map (·.checkId))
  ⟨insight, findings, _, _, (Option.some_get hmeasured).symm, (Option.some_get hjudged).symm⟩

def titled (title : Text) (checkIds : List Text) : Insight := ⟨checkIds, title, title, ascii "c", .LOW⟩

end Pairs

end Judged

end WebAudit.Runner
