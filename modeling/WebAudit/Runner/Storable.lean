import WebAudit.Runner.Persist

/-!
# Whether a result can be stored

The texts of the rows of a run, and what they are made of. What the program writes itself is plain; a text of a
capability or of the model stands between plain ones, and is stored if and only if it could be stored alone. Only a
location, which is cut in places, and evidence in a prompt, which is cut at its end, are looked at as they come out.
-/

namespace WebAudit.Runner

open WebAudit.Lib WebAudit.Lib.Uri WebAudit.Lib.Values WebAudit.Scans
open WebAudit.Redaction (decimalText RedactedSecretRef SecretKind)

/-! ### Rows -/

def ModuleResultRow.isStorable (row : ModuleResultRow) : Bool :=
  row.summary.all Values.isStorable && row.skippedReason.all Values.isStorable && row.degradedReason.all Values.isStorable

def IssueRow.isStorable (row : IssueRow) : Bool :=
  Values.isStorable row.fingerprint && Values.isStorable row.checkId && Values.isStorable row.title && Values.isStorable row.explanation &&
    Values.isStorable row.consequence && row.location.all Values.isStorable && row.evidence.all Tree.isStorable && Values.isStorable row.fixPrompt

def ExecutionRecord.isStorable (record : ExecutionRecord) : Bool :=
  Values.isStorable record.capabilityId && record.skippedReason.all Values.isStorable && record.errorMessage.all Values.isStorable

def InvocationRow.isStorable (row : InvocationRow) : Bool := Values.isStorable row.provider && Values.isStorable row.model

/-- Every row that `persistModuleResult` writes is taken. -/
def ModuleRunResult.isStorable (result : ModuleRunResult) : Bool :=
  result.row.isStorable && result.issueRows.all IssueRow.isStorable && result.executionRows.all (·.record.isStorable) &&
    result.invocationRows.all InvocationRow.isStorable

/-! ### What the program writes -/

section Plain

variable {text a b : Text}

theorem all_of_sublist {p : ℕ → Bool} (h : a.Sublist b) (hb : b.all p = true) : a.all p = true :=
  List.all_eq_true.mpr fun u hu => List.all_eq_true.mp hb u (h.subset hu)

theorem plain_append (ha : a.all isPlain = true) (hb : b.all isPlain = true) : (a ++ b).all isPlain = true := by
  rw [List.all_append, ha, hb]
  rfl

theorem isPlain_of_lt {u : ℕ} (h : u < 0x80) (hne : u ≠ 0) : isPlain u = true := by
  unfold isPlain isHighSurrogate isLowSurrogate
  simp only [Bool.and_eq_true, Bool.not_eq_true', Bool.and_eq_false_iff, decide_eq_false_iff_not, bne_iff_ne]
  omega

theorem isPlain_asciiLower {u : ℕ} (h : isPlain u = true) : isPlain (asciiLower u) = true := by
  unfold asciiLower
  split
  · exact isPlain_of_lt (by omega) (by omega)
  · exact h

theorem plain_moduleLower (module : ModuleType) : (moduleLower module).all isPlain = true := by
  have hname : (moduleName module).all isPlain = true := by
    cases module <;> exact plain_ascii rfl
  unfold moduleLower
  rw [List.all_map]
  exact List.all_eq_true.mpr fun u hu => isPlain_asciiLower (List.all_eq_true.mp hname u hu)

theorem plain_decimalText (n : ℕ) : (decimalText n).all isPlain = true := by
  rw [List.all_eq_true]
  intro u hu
  have hdigit := Redaction.isDigit_of_mem_decimalText hu
  unfold Redaction.isDigit at hdigit
  rw [Bool.and_eq_true, decide_eq_true_eq, decide_eq_true_eq] at hdigit
  exact isPlain_of_lt (by omega) (by omega)

theorem plain_kind (kind : SecretKind) : kind.name.all isPlain = true := by
  cases kind <;> exact plain_ascii rfl

theorem plain_capitalized (h : text.all isPlain = true) : (capitalized text).all isPlain = true := by
  cases text with
  | nil => rfl
  | cons u rest =>
    obtain ⟨hu, hrest⟩ := (Bool.and_eq_true _ _).mp h
    unfold capitalized
    rw [List.all_cons, hrest, Bool.and_true]
    split
    · exact isPlain_of_lt (by omega) (by omega)
    · exact hu

theorem plain_what (kind : SecretKind) : (what kind).all isPlain = true ∧ (capitalized (what kind)).all isPlain = true := by
  have hwhat : (what kind).all isPlain = true := by
    cases kind <;> exact plain_ascii rfl
  exact ⟨hwhat, plain_capitalized hwhat⟩

set_option maxRecDepth 2000 in
theorem plain_consequenceOf (kind : SecretKind) : (consequenceOf kind).all isPlain = true := by
  cases kind <;> exact plain_ascii rfl

/-! ### Locations -/

theorem dropTail_sublist (p : ℕ → Bool) : (dropTail p text).Sublist text := by
  have h := (List.dropWhile_sublist (l := text.reverse) p).reverse
  rwa [List.reverse_reverse] at h

theorem trim_sublist : (trim text).Sublist text := (dropTail_sublist _).trans (List.dropWhile_sublist _)

theorem removeAll_sublist {length : Text → Option ℕ} (fuel : ℕ) : (removeAll length fuel text).Sublist text := by
  induction fuel generalizing text with
  | zero => exact List.Sublist.refl text
  | succ fuel ih =>
    cases text with
    | nil => exact List.Sublist.slnil
    | cons u rest =>
      rw [removeAll]
      split
      · exact (ih.trans (List.drop_sublist _ _)).cons u
      · exact ih.cons_cons u

theorem withoutRoot_sublist (workspaceRoot : Option Text) (text : Text) : (withoutRoot workspaceRoot text).Sublist text := by
  unfold withoutRoot
  split
  · exact List.Sublist.refl text
  · split
    · exact List.Sublist.refl text
    · dsimp only
      split
      · exact (List.dropWhile_sublist _).trans (List.drop_sublist _ _)
      · exact List.Sublist.refl text

theorem dropPosition_sublist : (dropPosition text).Sublist text := by
  induction text with
  | nil => exact List.Sublist.slnil
  | cons u rest ih =>
    rw [dropPosition]
    split
    · exact List.nil_sublist _
    · exact ih.cons_cons u

theorem plain_withoutQuery {platform : Platform} (h : text.all isPlain = true) : (withoutQuery platform text).all isPlain = true := by
  unfold withoutQuery
  split
  · split
    · rename_i origin pathname hparsed
      obtain ⟨ho, hp⟩ := platform.parseUrl_plain text _ hparsed
      exact plain_append ho hp
    · exact h
  · exact h

theorem plain_forwardSlashes (h : text.all isPlain = true) : (forwardSlashes text).all isPlain = true := by
  unfold forwardSlashes
  rw [List.all_map, List.all_eq_true]
  intro u hu
  rw [Function.comp_apply]
  split
  · rfl
  · exact List.all_eq_true.mp h u hu

/-- A plain location stays plain. -/
theorem plain_normalizeLocation {platform : Platform} {root : Option Text} (h : text.all isPlain = true) :
    (normalizeLocation platform root text).all isPlain = true := by
  have hpath := all_of_sublist (withoutRoot_sublist root _) (@plain_withoutQuery _ platform (all_of_sublist trim_sublist h))
  have hcut : (withoutVersion (withoutHash (withoutRoot root (withoutQuery platform (trim text))))).all isPlain = true :=
    all_of_sublist ((removeAll_sublist _).trans (removeAll_sublist _)) hpath
  unfold normalizeLocation
  dsimp only
  split
  · rfl
  · exact all_of_sublist ((dropTail_sublist _).trans dropPosition_sublist) (plain_forwardSlashes hcut)

end Plain

/-! ### Credentials -/

section Secrets

variable {s : Redaction.Assigned} {path : Text}

/-- Every placeholder that was given out is plain. -/
def PlainTokens (s : Redaction.Assigned) : Prop := ∀ p ∈ s.assigned, p.2.all isPlain = true

theorem plain_placeholderFor (kind : SecretKind) (n : ℕ) : (Redaction.placeholderFor kind n).all isPlain = true := by
  unfold Redaction.placeholderFor
  have hopen : (ascii "[[REDACTED:").all isPlain = true := plain_ascii rfl
  have hcolon : (ascii ":").all isPlain = true := plain_ascii rfl
  have hclose : (ascii "]]").all isPlain = true := plain_ascii rfl
  exact plain_append (plain_append (plain_append (plain_append hopen (plain_kind kind)) hcolon) (plain_decimalText n)) hclose

theorem PlainTokens.assign (h : PlainTokens s) (m : Redaction.SecretMatch) : PlainTokens (s.assign path m) := by
  unfold Redaction.Assigned.assign
  split
  · exact h
  · intro p hp
    rcases List.mem_cons.mp hp with rfl | hp
    · exact plain_placeholderFor m.kind (s.ordinal + 1)
    · exact h p hp

theorem PlainTokens.foldl (ms : List Redaction.SecretMatch) (h : PlainTokens s) :
    PlainTokens (ms.foldl (Redaction.Assigned.assign path) s) := by
  induction ms generalizing s with
  | nil => exact h
  | cons m ms ih => exact ih (h.assign m)

theorem PlainTokens.placeholder (h : PlainTokens s) (m : Redaction.SecretMatch) : (s.placeholder m).all isPlain = true := by
  unfold Redaction.Assigned.placeholder Redaction.Assigned.get
  cases hlookup : s.assigned.lookup m.value with
  | none => rfl
  | some token =>
    obtain ⟨before, after, heq, -⟩ := List.lookup_eq_some_iff.mp hlookup
    exact h (m.value, token) (heq ▸ List.mem_append_right _ List.mem_cons_self)

theorem plain_unicodeEscape (u : ℕ) : (unicodeEscape u).all isPlain = true := by
  have hunit : ∀ n, n < 16 → isPlain (hexUnit n) = true := by decide
  have hprefix : (ascii "\\u").all isPlain = true := plain_ascii rfl
  have hdigits : ([hexUnit (u / 0x1000 % 16), hexUnit (u / 0x100 % 16), hexUnit (u / 16 % 16), hexUnit (u % 16)]).all isPlain = true := by
    simp [hunit _ (Nat.mod_lt _ (Nat.succ_pos 15))]
  exact plain_append hprefix hdigits

theorem plain_escapeUnit {u : ℕ} (h : isPlain u = true) : (escapeUnit u).all isPlain = true := by
  unfold escapeUnit
  split
  · exact plain_ascii rfl
  split
  · exact plain_ascii rfl
  split
  · exact plain_ascii rfl
  split
  · exact plain_ascii rfl
  split
  · exact plain_ascii rfl
  split
  · exact plain_ascii rfl
  split
  · exact plain_ascii rfl
  split
  · exact plain_unicodeEscape u
  · rw [List.all_cons, h]
    rfl

theorem plain_escapeUnits {text : Text} (h : text.all isPlain = true) : (escapeUnits text).all isPlain = true := by
  induction text using escapeUnits.induct with
  | case1 => rfl
  | case2 u => exact plain_escapeUnit ((Bool.and_eq_true _ _).mp h).1
  | case3 u v rest hpair ih =>
    have hu := ((Bool.and_eq_true _ _).mp h).1
    rw [isHighSurrogate_of_isPlain hu] at hpair
    cases hpair
  | case4 u v rest hpair ih =>
    obtain ⟨hu, hrest⟩ := (Bool.and_eq_true _ _).mp h
    rw [escapeUnits, if_neg hpair]
    exact plain_append (plain_escapeUnit hu) (ih hrest)

theorem plain_quote {text : Text} (h : text.all isPlain = true) : (quote text).all isPlain = true := by
  unfold quote
  rw [List.cons_append, List.all_cons, List.all_append, plain_escapeUnits h]
  rfl

/-- **A credential** is known by its segment, and its placeholder is plain. -/
theorem secrets_assemble {maxChars : ℕ} {options : Redaction.DetectOptions} (segments : List Redaction.PromptSegment) :
    PlainTokens (Redaction.assemble id id maxChars options segments).assigned ∧
      ∀ secret ∈ (Redaction.assemble id id maxChars options segments).secrets, secret.placeholder.all isPlain = true ∧
        ∃ segment ∈ segments, secret.path = segment.path ∧ secret.label = segment.label := by
  induction segments using List.reverseRecOn with
  | nil =>
    refine ⟨?_, ?_⟩
    · intro p hp
      cases hp
    · intro secret hsecret
      cases hsecret
  | append_singleton segments last ih =>
    unfold Redaction.assemble at ih ⊢
    rw [List.foldl_append, List.foldl_cons, List.foldl_nil, @Redaction.assembleSegment_eq _ id id fun _ => rfl]
    have htokens := @PlainTokens.foldl _ last.path (Redaction.detectSecrets last.content options).reverse ih.1
    dsimp only
    generalize (Redaction.detectSecrets last.content options).reverse.foldl _ _ = assigned at htokens ⊢
    refine ⟨htokens, fun secret hsecret => ?_⟩
    rcases List.mem_append.mp hsecret with hsecret | hsecret
    · obtain ⟨hplain, segment, hmem, hsegment⟩ := ih.2 secret hsecret
      exact ⟨hplain, segment, List.mem_append_left _ hmem, hsegment⟩
    · obtain ⟨m, -, rfl⟩ := List.mem_map.mp hsecret
      exact ⟨htokens.placeholder m, last, List.mem_append_right _ List.mem_cons_self, rfl, rfl⟩

/-- A credential as it may be reported. -/
structure PlainSecret (secret : RedactedSecretRef) : Prop where
  path : secret.path.all isPlain = true
  label : secret.label.all isPlain = true
  placeholder : secret.placeholder.all isPlain = true

theorem notes_ne_measured (module : ModuleType) (id : Text) :
    moduleLower module ++ ascii "/notes/" ++ id ++ ascii ".txt" ≠ measuredPath module := by
  intro h
  unfold measuredPath at h
  rw [List.append_assoc, List.append_assoc] at h
  have hrest := congrArg (List.take 2) (List.append_cancel_left h)
  rw [List.take_append_of_le_length (by decide)] at hrest
  exact absurd hrest (by decide)

/-- **The credentials of a run** lie in what was measured. -/
theorem plain_secrets_runAiLayer {systemPrompt : ModuleType → Text} {options : Redaction.DetectOptions} {executor : AiResult}
    {module : ModuleType} {applicable : List Capability} {measured : List CapabilityFinding} :
    ∀ secret ∈ (runAiLayer systemPrompt options executor module applicable measured).secrets, PlainSecret secret := by
  unfold runAiLayer
  split
  · intro secret hsecret
    cases hsecret
  · intro secret hsecret
    obtain ⟨hmem, hpath⟩ := List.mem_filter.mp hsecret
    have hpath := of_decide_eq_true hpath
    obtain ⟨hplain, segment, hsegment, hp, hl⟩ := (secrets_assemble _).2 secret hmem
    have hfile : (ascii "/measured.txt").all isPlain = true := plain_ascii rfl
    have hlabel : (ascii "measured-findings").all isPlain = true := plain_ascii rfl
    refine ⟨?_, ?_, hplain⟩
    · rw [hpath]
      exact plain_append (plain_moduleLower module) hfile
    · rcases List.mem_cons.mp hsegment with rfl | hnotes
      · rw [hl]
        exact hlabel
      · obtain ⟨capability, -, hnote⟩ := List.mem_filterMap.mp hnotes
        obtain ⟨text, -, rfl⟩ := Option.map_eq_some_iff.mp hnote
        exact absurd (hp.symm.trans hpath) (notes_ne_measured module capability.id)

end Secrets

/-! ### Issues -/

/-- What a finding says can be stored. -/
def CapabilityFinding.isStorable (platform : Platform) (root : Option Text) (finding : CapabilityFinding) : Bool :=
  Values.isStorable finding.checkId && Values.isStorable finding.title && Values.isStorable finding.description &&
    (finding.location.map (normalizeLocation platform root)).all Values.isStorable && finding.consequence.all Values.isStorable &&
    finding.evidence.all fun tree => tree.isStorable && Values.isStorable (tree.render.take 2000)

def Insight.isStorable (item : Insight) : Bool :=
  Values.isStorable item.title && Values.isStorable item.explanation && Values.isStorable item.consequence

def ModuleInsight.isStorable (insight : ModuleInsight) : Bool :=
  Values.isStorable insight.summary && insight.insights.all Insight.isStorable

theorem all_toList_map {α : Type} (o : Option α) (f : α → Text) : ((o.map f).toList).all Values.isStorable = o.all fun a => Values.isStorable (f a) := by
  cases o with
  | none => rfl
  | some a => exact Bool.and_true _

theorem isStorable_buildFixPrompt (module : ModuleType) (title description : Text) (location consequence : Option Text) (evidence : Option Tree) :
    Values.isStorable (buildFixPrompt module title description location consequence evidence) =
      (Values.isStorable title && Values.isStorable description && location.all Values.isStorable && consequence.all Values.isStorable &&
        evidence.all fun tree => Values.isStorable (tree.render.take 2000)) := by
  have hfirst : Values.isStorable (ascii "Fix the following " ++ moduleLower module ++ ascii " issue.") = true := by
    rw [List.append_assoc, isStorable_plain_append (plain_ascii rfl), isStorable_plain_append (plain_moduleLower module)]
    exact isStorable_ascii rfl
  have hlast : (List.all [[], ascii "Make the smallest change that resolves this, and do not alter unrelated behaviour.",
      ascii "When you are done, state what you changed so the fix can be re-checked."] Values.isStorable) = true := by
    rw [List.all_cons, List.all_cons, List.all_cons, isStorable_ascii rfl, isStorable_ascii rfl]
    rfl
  have hproblem : Values.isStorable (ascii "Problem: " ++ title) = Values.isStorable title := isStorable_plain_append (plain_ascii rfl)
  have hmeasured : Values.isStorable (ascii "What was measured: " ++ description) = Values.isStorable description :=
    isStorable_plain_append (plain_ascii rfl)
  have hwhere : (fun text => Values.isStorable (ascii "Where: " ++ text)) = Values.isStorable :=
    funext fun _ => isStorable_plain_append (plain_ascii rfl)
  have hwhy : (fun text => Values.isStorable (ascii "Why it matters: " ++ text)) = Values.isStorable :=
    funext fun _ => isStorable_plain_append (plain_ascii rfl)
  have hevidence : (fun tree : Tree => Values.isStorable (ascii "Evidence: " ++ tree.render.take 2000)) =
      fun tree => Values.isStorable (tree.render.take 2000) := funext fun _ => isStorable_plain_append (plain_ascii rfl)
  unfold buildFixPrompt lines
  rw [isStorable_intercalate (by decide) (List.cons_ne_nil _ _), List.all_append, List.all_append, List.all_append, List.all_append,
    all_toList_map, all_toList_map, all_toList_map, hlast, hwhere, hwhy, hevidence, Bool.and_true]
  simp only [List.all_cons, List.all_nil, hfirst, hproblem, hmeasured, isStorable_nil, Bool.true_and, Bool.and_true]

theorem plain_renderFields {fields : List (Text × Tree)} (h : ∀ p ∈ fields, p.1.all isPlain = true ∧ p.2.render.all isPlain = true) :
    (renderFields fields).all isPlain = true := by
  have hcolon : (ascii ":").all isPlain = true := plain_ascii rfl
  have hcomma : (ascii ",").all isPlain = true := plain_ascii rfl
  induction fields with
  | nil => rfl
  | cons p fields ih =>
    obtain ⟨hkey, htree⟩ := h p List.mem_cons_self
    have hfirst := plain_append (plain_append (plain_quote hkey) hcolon) htree
    cases fields with
    | nil => exact hfirst
    | cons next fields => exact plain_append (plain_append hfirst hcomma) (ih fun q hq => h q (List.mem_cons_of_mem _ hq))

theorem areFieldsStorable_of_forall {fields : List (Text × Tree)} (h : ∀ p ∈ fields, Values.isStorable p.1 = true ∧ p.2.isStorable = true) :
    areFieldsStorable fields = true := by
  induction fields with
  | nil => rfl
  | cons p fields ih =>
    obtain ⟨hkey, htree⟩ := h p List.mem_cons_self
    unfold areFieldsStorable
    rw [hkey, htree, ih fun q hq => h q (List.mem_cons_of_mem _ hq)]
    rfl

/-- An object whose strings are plain, and that is not nested, can be stored and cut anywhere. -/
theorem isStorable_flat {fields : List (Text × Tree)} (h : ∀ p ∈ fields, p.1.all isPlain = true ∧
    ∃ text, text.all isPlain = true ∧ (p.2 = .string text ∨ p.2 = .number text)) (n : ℕ) :
    (Tree.object fields).isStorable = true ∧ Values.isStorable ((Tree.object fields).render.take n) = true := by
  constructor
  · unfold Tree.isStorable
    refine areFieldsStorable_of_forall fun p hp => ?_
    obtain ⟨hkey, text, htext, heq | heq⟩ := h p hp
    · rw [heq]
      exact ⟨isStorable_of_plain hkey, isStorable_of_plain htext⟩
    · rw [heq]
      exact ⟨isStorable_of_plain hkey, rfl⟩
  · have hfields : (renderFields fields).all isPlain = true := by
      refine plain_renderFields fun p hp => ?_
      obtain ⟨hkey, text, htext, heq | heq⟩ := h p hp
      · rw [heq]
        exact ⟨hkey, plain_quote htext⟩
      · rw [heq]
        exact ⟨hkey, htext⟩
    have hopen : (ascii "\x7b").all isPlain = true := plain_ascii rfl
    have hclose : (ascii "\x7d").all isPlain = true := plain_ascii rfl
    exact isStorable_of_plain (all_of_sublist (List.take_sublist _ _) (plain_append (plain_append hopen hfields) hclose))

/-- The finding of a credential can be stored. -/
theorem isStorable_secretToFinding {platform : Platform} {root : Option Text} {secret : RedactedSecretRef} (h : PlainSecret secret) :
    (secretToFinding secret).isStorable platform root = true := by
  have hline := plain_decimalText secret.line
  have hcolumn := plain_decimalText secret.column
  have hlength := plain_decimalText secret.length
  have hcheckId : secretCheckId.all isPlain = true := plain_ascii rfl
  have htitle : (secretToFinding secret).title.all isPlain = true := plain_append (plain_ascii rfl) (plain_what _).1
  have hlocation : (secretToFinding secret).location.all (·.all isPlain) = true :=
    plain_append (plain_append (plain_append (plain_append h.path (plain_ascii rfl)) hline) (plain_ascii rfl)) hcolumn
  have hdescription : (secretToFinding secret).description.all isPlain = true := by
    unfold secretToFinding
    dsimp only
    simp only [List.all_append, Bool.and_eq_true]
    refine ⟨⟨⟨⟨⟨⟨⟨⟨⟨⟨⟨(plain_what _).2, ?_⟩, h.path⟩, ?_⟩, hline⟩, ?_⟩, hcolumn⟩, ?_⟩, hlength⟩, ?_⟩, h.placeholder⟩, ?_⟩ <;> exact plain_ascii rfl
  have hkeys : ∀ key ∈ [ascii "kind", ascii "path", ascii "segment", ascii "line", ascii "column", ascii "length", ascii "placeholder"],
      key.all isPlain = true := by
    simp only [List.forall_mem_cons]
    exact ⟨plain_ascii rfl, plain_ascii rfl, plain_ascii rfl, plain_ascii rfl, plain_ascii rfl, plain_ascii rfl, plain_ascii rfl, nofun⟩
  have hevidence := @isStorable_flat [(ascii "kind", .string secret.kind.name), (ascii "path", .string secret.path),
    (ascii "segment", .string secret.label), (ascii "line", .number (decimalText secret.line)),
    (ascii "column", .number (decimalText secret.column)), (ascii "length", .number (decimalText secret.length)),
    (ascii "placeholder", .string secret.placeholder)] (by
      simp only [List.forall_mem_cons] at hkeys ⊢
      obtain ⟨hkind, hpath, hsegment, hln, hcol, hlen, hplaceholder, -⟩ := hkeys
      exact ⟨⟨hkind, _, plain_kind _, .inl rfl⟩, ⟨hpath, _, h.path, .inl rfl⟩, ⟨hsegment, _, h.label, .inl rfl⟩, ⟨hln, _, hline, .inr rfl⟩,
        ⟨hcol, _, hcolumn, .inr rfl⟩, ⟨hlen, _, hlength, .inr rfl⟩, ⟨hplaceholder, _, h.placeholder, .inl rfl⟩, nofun⟩) 2000
  unfold CapabilityFinding.isStorable
  simp only [Bool.and_eq_true]
  refine ⟨⟨⟨⟨⟨isStorable_of_plain hcheckId, isStorable_of_plain htitle⟩, isStorable_of_plain hdescription⟩, ?_⟩, ?_⟩, ?_⟩
  · exact isStorable_of_plain (plain_normalizeLocation hlocation)
  · exact isStorable_of_plain (plain_consequenceOf _)
  · exact (Bool.and_eq_true _ _).mpr hevidence

section Issues

variable {platform : Platform} {context : AttributeContext} {result : ModuleRunResult} {finding : CapabilityFinding}
  {insight : Option ModuleInsight} {f : AttributedFinding}

theorem related_isStorable (hinsight : insight.all ModuleInsight.isStorable = true) {checkId : Text} {item : Insight}
    (h : relatedTo insight checkId = some item) : item.isStorable = true := by
  obtain ⟨i, rfl, hitem⟩ := Option.bind_eq_some_iff.mp h
  obtain ⟨-, hall⟩ := (Bool.and_eq_true _ _).mp hinsight
  exact List.all_eq_true.mp hall item (List.mem_of_find?_eq_some hitem)

theorem isStorable_explanationFor (hinsight : insight.all ModuleInsight.isStorable = true) :
    Values.isStorable (explanationFor finding (relatedTo insight finding.checkId)) = Values.isStorable finding.description := by
  unfold explanationFor
  split
  · rfl
  · rename_i related hrelated
    have hitem := related_isStorable hinsight hrelated
    simp only [Insight.isStorable, Bool.and_eq_true] at hitem
    rw [isStorable_separated (by decide) (List.cons_ne_nil _ _), hitem.1.2, Bool.and_true]

theorem isStorable_consequenceFor (hinsight : insight.all ModuleInsight.isStorable = true) :
    Values.isStorable (consequenceFor finding (relatedTo insight finding.checkId)) = finding.consequence.all Values.isStorable := by
  unfold consequenceFor
  cases finding.consequence with
  | some consequence => rfl
  | none =>
    rw [Option.none_or]
    cases hrelated : relatedTo insight finding.checkId with
    | none => exact isStorable_ascii rfl
    | some related =>
      have hitem := related_isStorable hinsight hrelated
      simp only [Insight.isStorable, Bool.and_eq_true] at hitem
      exact hitem.2

theorem issueRow_attributeInsight {item : Insight} {index : ℕ} (hitem : item.isStorable = true)
    (h : attributeInsight platform context index item = some f) : (result.issueRow f).isStorable = true := by
  unfold attributeInsight at h
  obtain ⟨fingerprint, hfingerprint, rfl⟩ := Option.map_eq_some_iff.mp h
  have hprint : Values.isStorable fingerprint = true := by
    obtain ⟨bytes, -, rfl⟩ := Option.map_eq_some_iff.mp hfingerprint
    exact isStorable_of_plain (platform.sha256_plain bytes)
  have hcheckId : Values.isStorable (judgmentCheckId context.module) = true := by
    unfold judgmentCheckId
    exact isStorable_of_plain (plain_append (plain_append (plain_ascii rfl) (plain_moduleLower _)) (plain_ascii rfl))
  simp only [Insight.isStorable, Bool.and_eq_true] at hitem
  unfold IssueRow.isStorable ModuleRunResult.issueRow
  dsimp only
  rw [hprint, hcheckId, isStorable_buildFixPrompt, hitem.1.1, hitem.1.2, Option.all_some, hitem.2]
  rfl

/-- **An issue can be stored** if and only if what the finding says can be. -/
theorem issueRow_attributeFinding (hinsight : insight.all ModuleInsight.isStorable = true)
    (h : attributeFinding platform context insight finding = some f) :
    (result.issueRow f).isStorable = finding.isStorable platform context.workspaceRoot := by
  obtain ⟨fingerprint, hfingerprint, rfl⟩ := Option.map_eq_some_iff.mp h
  have hprint : Values.isStorable fingerprint = true := by
    obtain ⟨bytes, -, rfl⟩ := Option.map_eq_some_iff.mp hfingerprint
    exact isStorable_of_plain (platform.sha256_plain bytes)
  have hevidence : finding.evidence.all (fun tree => tree.isStorable && Values.isStorable (tree.render.take 2000)) =
      (finding.evidence.all Tree.isStorable && finding.evidence.all fun tree => Values.isStorable (tree.render.take 2000)) := by
    cases finding.evidence <;> rfl
  unfold IssueRow.isStorable ModuleRunResult.issueRow CapabilityFinding.isStorable
  dsimp only
  rw [hprint, isStorable_explanationFor hinsight, isStorable_consequenceFor hinsight, isStorable_buildFixPrompt, Option.all_some,
    isStorable_consequenceFor hinsight, hevidence, Bool.eq_iff_iff]
  simp only [Bool.and_eq_true, Bool.true_and]
  tauto

end Issues

end WebAudit.Runner
