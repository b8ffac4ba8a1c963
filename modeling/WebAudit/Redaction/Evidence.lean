import WebAudit.Redaction.Payload

/-!
# What is stored of a payload

No string of a payload is stored as it was: whatever is stored for a redacted class, or for an audit event, has
only strings that are the redaction of a string of the payload, not too deep in it, or the mark of what was cut
off (`redacted_strings`). Keys are stored as they are, and so is what a `toJSON` returns that was copied along;
and redaction sees one string at a time, so a name next to it does not tell on it (`neighbours_tell`).

Other payloads are stored as they are, if they are JSON.
-/

namespace WebAudit.Redaction

open WebAudit.Lib.Uri WebAudit.Lib.Values WebAudit.Planning

/-- No method is copied along: arrays and functions have no `toJSON`, and no record has one of its own. -/
structure Plain (env : Engine) : Prop where
  methods : ∀ o ∈ env.heap, o.kind ≠ .ordinary → o.toJSON = none
  own : ∀ o ∈ env.heap, ∀ f, (ascii "toJSON", some (.object f)) ∈ o.properties → (env.heap[f]?).any (·.kind = .callable) = false

/-- The string may be stored for a payload. -/
inductive Redacted (env : Engine) (options : DetectOptions) (left : ℕ) (v : Value) : Text → Prop where
  | truncated : Redacted env options left v truncated
  | redacted {level s} (hlevel : level < left) (h : v.Has env.heap level s) : Redacted env options left v (redactText s options)

section Strings

variable {env : Engine} {options : DetectOptions} {left : ℕ} {v : Value} {b : Built} {tree : Tree} {t : Text}

theorem Redacted.inside {p : ℕ} {o : Object} {key : Text} (ho : env.heap[p]? = some o) (hkind : o.kind ≠ .callable)
    (hmem : (key, some v) ∈ o.properties) (h : Redacted env options left v t) : Redacted env options (left + 1) (.object p) t := by
  cases h with
  | truncated => exact .truncated
  | redacted hlevel h => exact .redacted (Nat.succ_lt_succ hlevel) (.inside ho hkind hmem h)

/-- An object that is not copied is a function. -/
theorem redactValue_object {f : ℕ} (h : redactValue env options left v = some (.value (.object f))) : v = .object f := by
  cases left with
  | zero => cases h
  | succ left =>
    cases v with
    | object p =>
      rw [redactValue] at h
      split at h
      · cases h
        rfl
      · split at h
        · cases h
          rfl
        · obtain ⟨_, -, h⟩ := Option.map_eq_some_iff.mp h
          cases h
        · obtain ⟨_, -, h⟩ := Option.map_eq_some_iff.mp h
          cases h
    | _ => cases h

/-- Functions are not written. -/
theorem stringify_function (henv : Plain env) {p : ℕ} (h : ∀ o, env.heap[p]? = some o → o.kind = .callable) :
    env.stringify (.object p) ≠ some (some tree) := by
  have hmethod : (env.heap[p]?).bind Object.toJSON = none := by
    cases hp : env.heap[p]? with
    | none => rfl
    | some o => exact henv.methods o (List.mem_of_getElem? hp) (by rw [h o hp]; decide)
  have hasked : env.asked (.object p) = some (.object p) := by
    unfold Engine.asked
    dsimp only
    rw [hmethod]
  unfold Engine.stringify
  rw [hasked, Option.bind_some]
  cases env.stack with
  | zero => exact nofun
  | succ room =>
    rw [Engine.write]
    cases hp : env.heap[p]? with
    | none => exact nofun
    | some o =>
      dsimp only
      rw [h o hp]
      exact nofun

/-- **Every string that is written is redacted.** -/
theorem redacted_strings (henv : Plain env) (h : redactValue env options left v = some b)
    (hwritten : env.stringifyBuilt b = some (some tree)) (ht : tree.Has t) : Redacted env options left v t := by
  induction left generalizing v b tree t with
  | zero =>
    cases h
    rw [Engine.stringifyBuilt, stringify_string] at hwritten
    cases hwritten
    cases ht
    exact .truncated
  | succ left ih =>
    cases v with
    | string s =>
      cases h
      rw [Engine.stringifyBuilt, stringify_string] at hwritten
      cases hwritten
      cases ht
      exact .redacted (Nat.succ_pos left) (.here s)
    | object p =>
      rw [redactValue] at h
      cases hp : env.heap[p]? with
      | none =>
        rw [hp] at h
        cases h
        rw [Engine.stringifyBuilt] at hwritten
        exact absurd hwritten (stringify_function henv fun o ho => by rw [hp] at ho; cases ho)
      | some o =>
        obtain ⟨kind, properties, toJSON⟩ := o
        rw [hp] at h
        dsimp only at h
        cases kind with
        | callable =>
          cases h
          rw [Engine.stringifyBuilt] at hwritten
          refine absurd hwritten (stringify_function henv fun o ho => ?_)
          rw [hp] at ho
          cases ho
          rfl
        | array =>
          obtain ⟨items, hitems, rfl⟩ := Option.map_eq_some_iff.mp h
          obtain rfl : toJSON = none := henv.methods _ (List.mem_of_getElem? hp) nofun
          rw [Engine.stringifyBuilt] at hwritten
          obtain ⟨ts, hts, hwritten⟩ := Option.map_eq_some_iff.mp hwritten
          cases hwritten
          cases ht with
          | @item _ t' _ hmem ht =>
            obtain ⟨b', hb', w, hw, hget⟩ := writeItems_mem hts hmem
            obtain ⟨⟨key, v'⟩, hmem', hread⟩ := mapM_mem hitems hb'
            obtain ⟨v', rfl, hv'⟩ := Option.bind_eq_some_iff.mp hread
            cases w with
            | none =>
              rw [Option.getD_none] at hget
              rw [hget] at ht
              cases ht
            | some w =>
              rw [Option.getD_some] at hget
              rw [hget] at ht
              exact (ih hv' hw ht).inside hp nofun hmem'
        | ordinary =>
          obtain ⟨fields, hfields, rfl⟩ := Option.map_eq_some_iff.mp h
          have hread {key : Text} {b' : Built} (hb' : (key, b') ∈ fields) :
              ∃ v', (key, some v') ∈ properties ∧ redactValue env options left v' = some b' := by
            obtain ⟨⟨key', v'⟩, hmem, hread⟩ := mapM_mem hfields hb'
            obtain ⟨b'', hread, heq⟩ := Option.map_eq_some_iff.mp hread
            cases heq
            obtain ⟨v', rfl, hv'⟩ := Option.bind_eq_some_iff.mp hread
            exact ⟨v', hmem, hv'⟩
          have hmethod : env.methodOf (fields.filter fun f => f.1 ≠ ascii "__proto__") = none := by
            unfold Engine.methodOf
            split
            · rename_i f hlookup
              obtain ⟨before, after, hfields', -⟩ := List.lookup_eq_some_iff.mp hlookup
              obtain ⟨v', hmem, hv'⟩ := hread (List.mem_of_mem_filter (hfields' ▸ List.mem_append_right before List.mem_cons_self))
              obtain rfl := redactValue_object hv'
              rw [henv.own _ (List.mem_of_getElem? hp) f hmem]
              rfl
            · rfl
          rw [Engine.stringifyBuilt, hmethod] at hwritten
          obtain ⟨ts, hts, hwritten⟩ := Option.map_eq_some_iff.mp hwritten
          cases hwritten
          cases ht with
          | @field _ key t' _ hmem ht =>
            obtain ⟨b', hb', hw⟩ := writeFields_mem hts hmem
            obtain ⟨v', hmem', hv'⟩ := hread (List.mem_of_mem_filter hb')
            exact (ih hv' hw ht).inside hp nofun hmem'
    | _ =>
      cases h
      rw [Engine.stringifyBuilt] at hwritten
      refine absurd ht (write_scalar ?_ ?_ hwritten) <;> exact nofun

end Strings

/-- What a row has of a payload. -/
inductive Keeps (env : Engine) (options : DetectOptions) (unit : EvidenceUnit) (input : RecordEvidenceInput) (row : EvidenceRow) : Prop where
  | bytes {content : List ℕ} {artifact : StoredArtifact} (hclass : isRedactedClass unit.executionUnitClass = false) (hpayload : input.payload = .bytes content)
    (hinline : row.inlinePayload = none) (hartifact : row.artifact = some artifact) (hbody : artifact.body = .bytes content)
  | artifact {v : Value} {tree : Tree} {artifact : StoredArtifact} (hpayload : input.payload = .value v)
    (hserialized : serialized env options (isRedactedClass unit.executionUnitClass) v = some (some tree))
    (hinline : row.inlinePayload = none) (hartifact : row.artifact = some artifact) (hbody : artifact.body = .json tree)
  | inline {v : Value} {tree : Tree} (hpayload : input.payload = .value v)
    (hserialized : serialized env options (isRedactedClass unit.executionUnitClass) v = some (some tree))
    (hinline : row.inlinePayload = inlineOf tree) (hartifact : row.artifact = none)

section Payloads

variable {env : Engine} {options : DetectOptions} {left : ℕ} {v : Value} {b : Built} {tree : Tree} {t : Text}

theorem methodOf_single {key : Text} (hkey : key ≠ ascii "toJSON") (b : Built) : env.methodOf [(key, b)] = none := by
  have hlookup : [(key, b)].lookup (ascii "toJSON") = none := by
    rw [List.lookup_cons, beq_eq_false_iff_ne.mpr (Ne.symm hkey)]
    rfl
  unfold Engine.methodOf
  rw [hlookup]

/-- What the sentinel is written as. -/
theorem stringify_redactionFailed : env.stringifyBuilt redactionFailed = some (some (.object [(ascii "_redactionFailed", .bool true)])) := by
  have hwritten : env.stringify (.bool true) = some (some (.bool true)) := by
    change env.write env.stack (.bool true) = _
    unfold Engine.write
    rfl
  unfold redactionFailed
  rw [Engine.stringifyBuilt, methodOf_single (by decide)]
  dsimp only
  rw [Engine.writeFields, Engine.stringifyBuilt, hwritten]
  rfl

theorem payload_strings (henv : Plain env) (h : redactAuditPayload env (redactValue env options left) v = some b)
    (hwritten : env.stringifyBuilt b = some (some tree)) (ht : tree.Has t) : Redacted env options left v t := by
  unfold redactAuditPayload at h
  split at h
  · cases h
  split at h
  · cases h
    rw [stringify_redactionFailed] at hwritten
    cases hwritten
    cases ht with
    | field hmem ht =>
      obtain ⟨-, rfl⟩ := Prod.mk.inj (List.mem_singleton.mp hmem)
      cases ht
  · rename_i redacted hredacted
    cases h
    split at hwritten
    · exact redacted_strings henv hredacted hwritten ht
    · rw [Engine.stringifyBuilt, methodOf_single (by decide)] at hwritten
      obtain ⟨ts, hts, hwritten⟩ := Option.map_eq_some_iff.mp hwritten
      cases hwritten
      cases ht with
      | field hmem ht =>
        obtain ⟨b', hb', hw⟩ := writeFields_mem hts hmem
        obtain ⟨-, rfl⟩ := Prod.mk.inj (List.mem_singleton.mp hb')
        exact redacted_strings henv hredacted hw ht

/-! ### Rows -/

variable {createArtifact : ArtifactStore} {unit : EvidenceUnit} {input : RecordEvidenceInput} {row : EvidenceRow}

theorem inlineOf_eq (h : tree ≠ .null) : inlineOf tree = some tree := by
  unfold inlineOf
  split
  · exact absurd rfl h
  · rfl

theorem storeArtifact_body {scanId : Option ℕ} {body : Body} {contentType : Text} {artifact : StoredArtifact}
    (h : storeArtifact createArtifact scanId body contentType = .ok artifact) : artifact.body = body := by
  unfold storeArtifact at h
  split at h
  · cases h
  · cases hid : createArtifact body contentType with
    | error refusal =>
      rw [hid] at h
      cases h
    | ok id =>
      rw [hid] at h
      cases h
      rfl

/-- **A row that is written** keeps the payload as it was serialised. -/
theorem recordEvidence_keeps (h : recordEvidence env options createArtifact (some unit) input = .ok row) : Keeps env options unit input row := by
  unfold recordEvidence at h
  dsimp only at h
  have hstored {scanId : Option ℕ} {body : Body} {contentType : Text} {redacted : Bool}
      (h : ((storeArtifact createArtifact scanId body contentType).map fun artifact =>
        (⟨unit.id, input.kind, none, some artifact, redacted⟩ : EvidenceRow)) = .ok row) :
      ∃ artifact, row.inlinePayload = none ∧ row.artifact = some artifact ∧ artifact.body = body := by
    cases hartifact : storeArtifact createArtifact scanId body contentType with
    | error refusal =>
      rw [hartifact] at h
      cases h
    | ok artifact =>
      rw [hartifact] at h
      cases h
      exact ⟨artifact, rfl, rfl, storeArtifact_body hartifact⟩
  split at h
  · rename_i content hpayload
    split at h
    · cases h
    rename_i hclass
    split at h
    · cases h
    obtain ⟨artifact, hinline, hartifact, hbody⟩ := hstored h
    exact .bytes (by simpa using hclass) hpayload hinline hartifact hbody
  · rename_i v hpayload
    split at h
    · cases h
    · cases h
    · rename_i tree hserialized
      split at h
      · obtain ⟨artifact, hinline, hartifact, hbody⟩ := hstored h
        exact .artifact hpayload hserialized hinline hartifact hbody
      · cases h
        exact .inline hpayload hserialized rfl rfl

/-- What was stored is what was serialised. -/
theorem Keeps.serialized_stored (h : Keeps env options unit input row) (hstored : row.stored = some tree) :
    ∃ v, input.payload = .value v ∧ serialized env options (isRedactedClass unit.executionUnitClass) v = some (some tree) := by
  obtain ⟨executionUnitId, kind, inlinePayload, artifact, redacted⟩ := row
  cases h with
  | @bytes content artifact hclass hpayload hinline hartifact hbody =>
    obtain ⟨id, body, contentType⟩ := artifact
    cases hinline
    cases hartifact
    cases hbody
    cases hstored
  | @artifact v tree' artifact hpayload hserialized hinline hartifact hbody =>
    obtain ⟨id, body, contentType⟩ := artifact
    cases hinline
    cases hartifact
    cases hbody
    cases hstored
    exact ⟨v, hpayload, hserialized⟩
  | @inline v tree' hpayload hserialized hinline hartifact =>
    cases hinline
    cases hartifact
    cases tree' with
    | null => cases hstored
    | _ =>
      cases hstored
      exact ⟨v, hpayload, hserialized⟩

/-- What a redacted class serialises. -/
theorem serialized_strings (henv : Plain env) (h : serialized env options true v = some (some tree)) (ht : tree.Has t) :
    Redacted env options (maxDepth + 1) v t := by
  rw [serialized, if_pos rfl] at h
  split at h
  · change env.write env.stack .null = _ at h
    exact absurd ht (write_scalar (v := .null) nofun nofun h)
  · rename_i redacted hredacted
    exact payload_strings henv hredacted h ht

/-- What an unredacted class serialises. -/
theorem serialized_of_represents (h : Represents env.heap v tree) (hdepth : tree.depth ≤ env.stack) :
    serialized env options false v = some (some tree) := by
  have hdefined : v ≠ .undefined := by
    rintro rfl
    cases h
  rw [serialized, if_neg Bool.false_ne_true, if_neg hdefined]
  exact stringify_of_represents h hdepth

/-- The tree of a row, unless it is `null`, is what was serialised. -/
theorem Keeps.stored_eq (h : Keeps env options unit input row) (hpayload : input.payload = .value v) (hnull : tree ≠ .null)
    (hserialized : serialized env options (isRedactedClass unit.executionUnitClass) v = some (some tree)) : row.stored = some tree := by
  obtain ⟨executionUnitId, kind, inlinePayload, artifact, redacted⟩ := row
  cases h with
  | bytes hclass hbytes hinline hartifact hbody =>
    rw [hpayload] at hbytes
    cases hbytes
  | @artifact v' tree' artifact hpayload' hserialized' hinline hartifact hbody =>
    obtain ⟨id, body, contentType⟩ := artifact
    cases hpayload.symm.trans hpayload'
    cases hserialized.symm.trans hserialized'
    cases hinline
    cases hartifact
    cases hbody
    rfl
  | @inline v' tree' hpayload' hserialized' hinline hartifact =>
    cases hpayload.symm.trans hpayload'
    cases hserialized.symm.trans hserialized'
    rw [inlineOf_eq hnull] at hinline
    cases hinline
    rfl

/-- A row has one of the two, unless `null` was serialised. -/
theorem Keeps.one (h : Keeps env options unit input row)
    (hnull : ∀ v, input.payload = .value v → serialized env options (isRedactedClass unit.executionUnitClass) v ≠ some (some .null)) :
    row.inlinePayload.isSome = !row.artifact.isSome := by
  cases h with
  | bytes hclass hbytes hinline hartifact hbody => rw [hinline, hartifact]; rfl
  | artifact hpayload hserialized hinline hartifact hbody => rw [hinline, hartifact]; rfl
  | @inline v tree hpayload hserialized hinline hartifact =>
    have htree : tree ≠ .null := by
      rintro rfl
      exact hnull v hpayload hserialized
    rw [hinline, hartifact, inlineOf_eq htree]
    rfl

/-- The sentinel is small. -/
theorem sentinel_length : byteLength (Tree.object [(ascii "_redactionFailed", .bool true)]).render ≤ inlineEvidenceMaxBytes := by
  decide

theorem serialized_of_failure (hsome : v ≠ .undefined ∧ v ≠ .null) (hfails : redactValue env options (maxDepth + 1) v = none) :
    serialized env options true v = some (some (.object [(ascii "_redactionFailed", .bool true)])) := by
  have hpayload : redactAuditPayload env (redactValue env options (maxDepth + 1)) v = some redactionFailed := by
    rw [redactAuditPayload, if_neg (not_or.mpr hsome), hfails]
  rw [serialized, if_pos rfl, hpayload]
  exact stringify_redactionFailed

end Payloads

/-! ### Stores -/

/-- What is stored of payloads. -/
structure StoresRedacted (env : Engine) (options : DetectOptions) : Prop where
  evidence : Plain env → ∀ createArtifact unit input row, isRedactedClass unit.executionUnitClass = true →
    recordEvidence env options createArtifact (some unit) input = .ok row →
    ∃ v, input.payload = .value v ∧ ∀ tree t, row.stored = some tree → tree.Has t → Redacted env options (maxDepth + 1) v t
  audit : Plain env → ∀ accepts v tree t, recordExecutionAuditEvent env options accepts v = some (some tree) → tree.Has t →
    Redacted env options (maxDepth + 1) v t
  unchanged : ∀ createArtifact unit input row v tree, isRedactedClass unit.executionUnitClass = false → input.payload = .value v →
    Represents env.heap v tree → tree.depth ≤ env.stack → tree ≠ .null →
    recordEvidence env options createArtifact (some unit) input = .ok row → row.stored = some tree
  bytes : ∀ createArtifact unit input row content, input.payload = .bytes content →
    recordEvidence env options createArtifact (some unit) input = .ok row →
    ∃ artifact, row.artifact = some artifact ∧ artifact.body = .bytes content
  one : ∀ createArtifact unit input row, recordEvidence env options createArtifact (some unit) input = .ok row →
    (∀ v, input.payload = .value v → serialized env options (isRedactedClass unit.executionUnitClass) v ≠ some (some .null)) →
    row.inlinePayload.isSome = !row.artifact.isSome
  failure : ∀ (redact : Value → Option Built) v, v ≠ .undefined ∧ v ≠ .null → redact v = none →
    redactAuditPayload env redact v = some redactionFailed
  sentinel : ∀ createArtifact unit input v, isRedactedClass unit.executionUnitClass = true → input.payload = .value v →
    v ≠ .undefined ∧ v ≠ .null → redactValue env options (maxDepth + 1) v = none →
    recordEvidence env options createArtifact (some unit) input =
      .ok ⟨unit.id, input.kind, some (.object [(ascii "_redactionFailed", .bool true)]), none, true⟩

/-- **What is stored is redacted, string by string, and as it was where it needs no redaction.** -/
theorem stores_redacted (env : Engine) (options : DetectOptions) : StoresRedacted env options := by
  constructor
  · intro henv createArtifact unit input row hclass hrow
    have hkeeps := recordEvidence_keeps hrow
    cases hpayload : input.payload with
    | bytes content =>
      cases hkeeps with
      | bytes hunredacted _ _ _ _ =>
        rw [hclass] at hunredacted
        cases hunredacted
      | artifact hvalue _ _ _ _ => rw [hpayload] at hvalue; cases hvalue
      | inline hvalue _ _ _ => rw [hpayload] at hvalue; cases hvalue
    | value v =>
      refine ⟨v, rfl, fun tree t hstored ht => ?_⟩
      obtain ⟨v', hv', hserialized⟩ := hkeeps.serialized_stored hstored
      cases hpayload.symm.trans hv'
      rw [hclass] at hserialized
      exact serialized_strings henv hserialized ht
  · intro henv accepts v tree t hevent ht
    unfold recordExecutionAuditEvent at hevent
    split at hevent
    · split at hevent <;> cases hevent
    · rename_i redacted hredacted
      split at hevent
      · rename_i tree' hwritten
        split at hevent
        · cases hevent
          exact payload_strings henv hredacted hwritten ht
        · cases hevent
      · cases hevent
  · intro createArtifact unit input row v tree hclass hpayload hjson hdepth hnull hrow
    exact (recordEvidence_keeps hrow).stored_eq hpayload hnull (hclass ▸ serialized_of_represents hjson hdepth)
  · intro createArtifact unit input row content hpayload hrow
    cases recordEvidence_keeps hrow with
    | bytes _ hbytes _ hartifact hbody =>
      cases hpayload.symm.trans hbytes
      exact ⟨_, hartifact, hbody⟩
    | artifact hvalue _ _ _ _ => rw [hpayload] at hvalue; cases hvalue
    | inline hvalue _ _ _ => rw [hpayload] at hvalue; cases hvalue
  · intro createArtifact unit input row hrow hnull
    exact (recordEvidence_keeps hrow).one hnull
  · intro redact v hsome hfails
    rw [redactAuditPayload, if_neg (not_or.mpr hsome), hfails]
  · intro createArtifact unit input v hclass hpayload hsome hfails
    have hserialized : serialized env options true v = some (some (.object [(ascii "_redactionFailed", .bool true)])) :=
      serialized_of_failure hsome hfails
    rw [recordEvidence]
    simp only [hpayload, hclass, hserialized, if_neg (Nat.not_lt.mpr sentinel_length)]
    rfl

section Examples

variable {ε α : Type} {r : Except ε α}

theorem exists_ok {p : α → Bool} (h : r.toOption.any p = true) : ∃ row, r = .ok row ∧ p row = true := by
  cases r with
  | error e => cases h
  | ok row => exact ⟨row, rfl, h⟩

end Examples

/-- `{ password: 'hunter2hunter2' }`. -/
def named : Engine := ⟨[⟨.ordinary, [(ascii "password", some (.string (ascii "hunter2hunter2")))], none⟩], fun _ _ => none, 100⟩

/-- Next to its name the string is a secret, in the text that is stored; and the row of a `null` has no payload. -/
theorem neighbours_tell :
    (∃ row, recordEvidence named { lowEntropy := fun _ => false } (fun _ _ => .ok 1) (some ⟨1, .ACTIVE_SECURITY, some 1⟩)
        ⟨.HTTP_TRANSACTION, .value (.object 0), none⟩ = .ok row ∧
      ∃ tree, row.stored = some tree ∧
        ∃ m ∈ detectSecrets tree.render { lowEntropy := fun _ => false }, m.value = ascii "hunter2hunter2") ∧
    recordEvidence named { lowEntropy := fun _ => false } (fun _ _ => .ok 1) (some ⟨1, .ACTIVE_SECURITY, some 1⟩)
      ⟨.HTTP_TRANSACTION, .value .null, none⟩ = .ok ⟨1, .HTTP_TRANSACTION, none, none, true⟩ := by
  constructor
  · obtain ⟨row, hrow, hfound⟩ := exists_ok (r := recordEvidence named { lowEntropy := fun _ => false } (fun _ _ => .ok 1)
      (some ⟨1, .ACTIVE_SECURITY, some 1⟩) ⟨.HTTP_TRANSACTION, .value (.object 0), none⟩)
      (p := fun row => row.stored.any fun tree =>
        (detectSecrets tree.render { lowEntropy := fun _ => false }).any fun m => m.value = ascii "hunter2hunter2") (by decide)
    obtain ⟨tree, hstored, hfound⟩ := (Option.any_eq_true _ _).mp hfound
    obtain ⟨m, hm, hvalue⟩ := List.any_eq_true.mp hfound
    exact ⟨row, hrow, tree, hstored, m, hm, of_decide_eq_true hvalue⟩
  · rfl

end WebAudit.Redaction
