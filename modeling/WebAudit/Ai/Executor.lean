import Mathlib.Data.Rat.Floor
import WebAudit.Lib.Rows
import WebAudit.Runner.Layers

/-!
# The chain of providers

`createExecutor(...).run`: one provider after the other, each raced against its own deadline and against the caller's signal, until one has
served.

Numbers are exact, but for what overflows. What a provider does in its turn is given, and which of the three is first in the race; from the
turn in which the caller aborts on, only what a provider throws at once is before the signal. Parsing, the schema and the redaction
of messages are parameters.
-/

namespace WebAudit.Ai

open WebAudit.Lib WebAudit.Lib.Uri WebAudit.Lib.Regex
open WebAudit.Runner (AiOutcome)

/-! ### The code -/

/-- A number of the language. -/
inductive Num where
  | nan
  | inf (positive : Bool)
  | fin (q : ℚ)
  deriving DecidableEq

/-- The first number that is too great for a double. -/
def overflow : ℚ := 2 ^ 1024

def Num.ofRat (q : ℚ) : Num := if overflow ≤ q then .inf true else if q ≤ -overflow then .inf false else .fin q

def Num.isPositive : Num → Bool
  | .nan => false
  | .inf positive => positive
  | .fin q => 0 < q

def Num.div (x : Num) (n : ℕ) : Num :=
  match x with
  | .fin q => .fin (q / n)
  | x => x

def Num.add : Num → Num → Num
  | .fin q, .fin r => .ofRat (q + r)
  | .nan, _ => .nan
  | _, .nan => .nan
  | .inf a, .inf b => if a = b then .inf a else .nan
  | .inf a, .fin _ => .inf a
  | .fin _, .inf b => .inf b

/-- `Math.round`. -/
def Num.round : Num → Num
  | .fin q => .fin ⌊q + 1 / 2⌋
  | x => x

structure ModelPricing where
  inputMicrosPerMillion : ℕ
  outputMicrosPerMillion : ℕ

/-- A token count we are willing to multiply by a price. -/
def usableCount : Num → ℚ
  | .fin q => if q < 0 then 0 else q
  | _ => 0

def costMicrosOf (pricing : Option ModelPricing) (promptTokens outputTokens : Num) : Num :=
  match pricing with
  | none => .fin 0
  | some pricing =>
    let inputCost := (Num.ofRat (usableCount promptTokens * pricing.inputMicrosPerMillion)).div 1000000
    let outputCost := (Num.ofRat (usableCount outputTokens * pricing.outputMicrosPerMillion)).div 1000000
    (inputCost.add outputCost).round

structure Provider where
  vendor : Text
  model : Text
  pricing : Option ModelPricing

structure ProviderResponse where
  outcome : AiOutcome
  text : Text
  promptTokens : Num
  outputTokens : Num
  errorMessage : Option Text

/-- What a provider does in its turn. -/
inductive Behaviour where
  | answers (response : ProviderResponse)
  /-- Later, with what `String` makes of it; `none`: that throws too. -/
  | rejects (error : Option Text)
  /-- Before it has returned a promise. -/
  | throws (error : Option Text)
  /-- Late, or not at all. -/
  | hangs

structure Attempt where
  outcome : AiOutcome
  text : Text
  promptTokens : Num
  outputTokens : Num
  errorMessage : Option Text

def Attempt.failed (outcome : AiOutcome) (errorMessage : Text) : Attempt := ⟨outcome, [], .fin 0, .fin 0, some errorMessage⟩

/-- `none`: it throws. -/
def attempt (timeoutMs : ℕ) (cancelled : Bool) : Behaviour → Option Attempt
  | .throws error => error.map (.failed .ERROR)
  | .answers response =>
    some (if cancelled then .failed .ERROR (ascii "the request was cancelled")
      else ⟨response.outcome, response.text, response.promptTokens, response.outputTokens, response.errorMessage⟩)
  | .rejects error => if cancelled then some (.failed .ERROR (ascii "the request was cancelled")) else error.map (.failed .ERROR)
  | .hangs =>
    some (if cancelled then .failed .ERROR (ascii "the request was cancelled")
      else .failed .TIMEOUT (ascii "no response within " ++ Redaction.decimalText timeoutMs ++ ascii "ms"))

def literal (text : Text) : Pattern := text.foldr (fun u r => .seq (.unit (· == u)) r) .empty

def optional (r : Pattern) : Pattern := .many true 0 (some 1) r

/-- `/^\s*```(?:json|JSON)?\s*\r?\n([\s\S]*?)\r?\n?\s*```\s*$/`, up to the `$`. -/
def FENCE : Pattern :=
  let spaces := Pattern.many true 0 none (.unit isSpace)
  let ticks := literal [0x60, 0x60, 0x60]
  [spaces, ticks, optional (.alt (literal (ascii "json")) (literal (ascii "JSON"))), spaces, optional (literal [0x0D]), literal [0x0A],
    .group (.many false 0 none (.unit fun _ => true)), optional (literal [0x0D]), optional (literal [0x0A]), spaces, ticks, spaces].foldr .seq .empty

def unwrapFence (text : Text) : Text :=
  match (Regex.run FENCE (placeAt text 0)).find? (·.rest = []) with
  | some ⟨_, _, _, some (a, b)⟩ => (text.take b).drop a
  | _ => text

section Run

variable {J T : Type}

/-- What the run is given beside the chain. -/
structure Request (J T : Type) where
  isRedactedPrompt : Bool
  promptVersion : Option Text
  timeoutMs : ℕ
  /-- `JSON.parse`, or its message. -/
  parse : Text → Except Text J
  /-- `schema.safeParse`, or the problems. -/
  schema : J → Except Text T
  redactText : Text → Text

def validateResponse (request : Request J T) (text : Text) : Except Text T :=
  let candidate := unwrapFence text
  if candidate.all isSpace then .error (ascii "the provider returned an empty response")
  else
    match request.parse candidate with
    | .error detail => .error (ascii "the response is not valid JSON (" ++ detail ++ ascii ")")
    | .ok parsed =>
      match request.schema parsed with
      | .error problems => .error (ascii "the response does not match the schema — " ++ problems)
      | .ok value => .ok value

structure AiInvocationRecord where
  provider : Text
  model : Text
  chainPosition : ℕ
  promptTokens : Num
  outputTokens : Num
  latencyMs : ℤ
  costMicros : Num
  outcome : AiOutcome
  promptVersion : Option Text
  errorMessage : Option Text

inductive AiResult (T : Type) where
  | ok (value : T) (invocations : List AiInvocationRecord)
  | CHAIN_EXHAUSTED (invocations : List AiInvocationRecord)

def AiResult.invocations : AiResult T → List AiInvocationRecord
  | .ok _ invocations => invocations
  | .CHAIN_EXHAUSTED invocations => invocations

inductive Thrown where
  | UnredactedPromptError
  /-- By `String(error)`. -/
  | unprintable
  deriving DecidableEq

/-- What happens in the turn of each position of the chain, and when. -/
structure Course where
  behaviour : ℕ → Behaviour
  /-- The turn in which the caller's signal comes first, if it does. -/
  aborts : Option ℕ
  startedAt : ℕ → ℤ
  endedAt : ℕ → ℤ

def Course.cancelled (course : Course) (position : ℕ) : Bool := course.aborts.any (· ≤ position)

/-- Whether an attempt serves, or how it has failed. -/
def judge (request : Request J T) (a : Attempt) : Except (AiOutcome × Option Text) T :=
  if a.outcome ≠ .SUCCESS then .error (a.outcome, a.errorMessage)
  else
    match validateResponse request a.text with
    | .error problem => .error (.SCHEMA_INVALID, some problem)
    | .ok value => .ok value

def record (request : Request J T) (course : Course) (position : ℕ) (provider : Provider) (a : Attempt) (outcome : AiOutcome) (errorMessage : Option Text) :
    AiInvocationRecord :=
  let reportedUsage := a.promptTokens.isPositive || a.outputTokens.isPositive
  { provider := provider.vendor, model := provider.model, chainPosition := position, promptTokens := a.promptTokens, outputTokens := a.outputTokens,
    latencyMs := max 0 (course.endedAt position - course.startedAt position),
    costMicros := if reportedUsage then costMicrosOf provider.pricing a.promptTokens a.outputTokens else .fin 0,
    outcome, promptVersion := request.promptVersion, errorMessage := errorMessage.map request.redactText }

/-- The positions that are called, and what becomes of it. -/
def walk (request : Request J T) (course : Course) : ℕ → List Provider → List AiInvocationRecord → List ℕ × Except Thrown (AiResult T)
  | _, [], invocations => ([], .ok (.CHAIN_EXHAUSTED invocations))
  | position, provider :: rest, invocations =>
    match attempt request.timeoutMs (course.cancelled position) (course.behaviour position) with
    | none => ([position], .error .unprintable)
    | some a =>
      match judge request a with
      | .error (outcome, errorMessage) =>
        let (calls, result) := walk request course (position + 1) rest (invocations ++ [record request course position provider a outcome errorMessage])
        (position :: calls, result)
      | .ok value => ([position], .ok (.ok value (invocations ++ [record request course position provider a .SUCCESS none])))

def run (request : Request J T) (course : Course) (chain : List Provider) : List ℕ × Except Thrown (AiResult T) :=
  if request.isRedactedPrompt = false then ([], .error .UnredactedPromptError) else walk request course 0 chain []

end Run

/-! ### Costs -/

section Costs

variable {x y : Num} {pricing : Option ModelPricing}

/-- Not a number it is not, and not negative. -/
def Num.Amount (x : Num) : Prop := x = .inf true ∨ ∃ q, x = .fin q ∧ 0 ≤ q

theorem overflow_pos : 0 < overflow := by
  unfold overflow
  positivity

theorem ofRat_zero : Num.ofRat 0 = .fin 0 := by
  have := overflow_pos
  unfold Num.ofRat
  rw [if_neg (by linarith), if_neg (by linarith)]

theorem amount_ofRat {q : ℚ} (h : 0 ≤ q) : (Num.ofRat q).Amount := by
  have := overflow_pos
  unfold Num.ofRat
  split
  · exact .inl rfl
  · rw [if_neg (by linarith)]
    exact .inr ⟨q, rfl, h⟩

theorem usableCount_nonneg (x : Num) : 0 ≤ usableCount x := by
  unfold usableCount
  split
  · split
    · exact le_rfl
    · exact not_lt.mp ‹_›
  · exact le_rfl

theorem Num.Amount.div (h : x.Amount) (n : ℕ) : (x.div n).Amount := by
  rcases h with rfl | ⟨q, rfl, hq⟩
  · exact .inl rfl
  · exact .inr ⟨_, rfl, by positivity⟩

theorem Num.Amount.add (h : x.Amount) (h' : y.Amount) : (x.add y).Amount := by
  rcases h with rfl | ⟨q, rfl, hq⟩ <;> rcases h' with rfl | ⟨r, rfl, hr⟩
  · exact .inl rfl
  · exact .inl rfl
  · exact .inl rfl
  · exact amount_ofRat (by positivity)

/-- **What a call costs** is a natural number of micros, if it is not too great for a double. -/
theorem costMicrosOf_natural (pricing : Option ModelPricing) (p o : Num) : costMicrosOf pricing p o = .inf true ∨ ∃ n : ℕ, costMicrosOf pricing p o = .fin n := by
  unfold costMicrosOf
  split
  · exact .inr ⟨0, by simp⟩
  · rename_i pricing
    have hside (x : Num) (price : ℕ) : ((Num.ofRat (usableCount x * price)).div 1000000).Amount :=
      (amount_ofRat (mul_nonneg (usableCount_nonneg x) (Nat.cast_nonneg price))).div _
    dsimp only
    rcases (hside p pricing.inputMicrosPerMillion).add (hside o pricing.outputMicrosPerMillion) with heq | ⟨q, heq, hq⟩
    · exact .inl (by rw [heq]; rfl)
    · refine .inr ⟨⌊q + 1 / 2⌋.toNat, ?_⟩
      rw [heq]
      have hfloor : 0 ≤ ⌊q + 1 / 2⌋ := Int.floor_nonneg.mpr (by positivity)
      have hcast : ((⌊q + 1 / 2⌋.toNat : ℤ) : ℚ) = ⌊q + 1 / 2⌋ := by rw [Int.toNat_of_nonneg hfloor]
      change Num.fin ⌊q + 1 / 2⌋ = _
      rw [← hcast]
      rfl

theorem usableCount_of_not_isPositive (h : x.isPositive = false) : usableCount x = 0 := by
  cases x with
  | fin q =>
    have hle : q ≤ 0 := not_lt.mp (of_decide_eq_false h)
    unfold usableCount
    dsimp only
    split
    · rfl
    · rename_i hnot
      exact le_antisymm hle (not_lt.mp hnot)
  | nan => rfl
  | inf => rfl

/-- Nothing was reported, and nothing is due. -/
theorem costMicrosOf_unreported (hx : x.isPositive = false) (hy : y.isPositive = false) : costMicrosOf pricing x y = .fin 0 := by
  unfold costMicrosOf
  rw [usableCount_of_not_isPositive hx, usableCount_of_not_isPositive hy]
  cases pricing with
  | none => rfl
  | some pricing => norm_num [ofRat_zero, Num.div, Num.add, Num.round]

end Costs

/-! ### The walk -/

section Walk

variable {J T : Type} {request : Request J T} {course : Course} {chain rest : List Provider} {position : ℕ} {invocations : List AiInvocationRecord}

/-- What the attempt at a position comes to. -/
def Tried (request : Request J T) (course : Course) (k : ℕ) (a : Attempt) : Prop :=
  attempt request.timeoutMs (course.cancelled k) (course.behaviour k) = some a

/-- The record of an attempt: what it has reported, and the price of that. -/
structure Records (request : Request J T) (course : Course) (chain : List Provider) (k : ℕ) (r : AiInvocationRecord) : Prop where
  position : r.chainPosition = k
  provider : ∃ p, chain[k]? = some p ∧ r.provider = p.vendor ∧ r.model = p.model ∧ r.costMicros = costMicrosOf p.pricing r.promptTokens r.outputTokens
  tokens : ∃ a, Tried request course k a ∧ r.promptTokens = a.promptTokens ∧ r.outputTokens = a.outputTokens
  cost : r.costMicros = .inf true ∨ ∃ n : ℕ, r.costMicros = .fin n
  latency : 0 ≤ r.latencyMs

/-- A response that validates. -/
def Serves (request : Request J T) (course : Course) (k : ℕ) (value : T) : Prop := ∃ a, Tried request course k a ∧ judge request a = .ok value

theorem records_record {p : Provider} {a : Attempt} (hp : chain[position]? = some p) (ha : Tried request course position a) (outcome : AiOutcome)
    (message : Option Text) : Records request course chain position (record request course position p a outcome message) := by
  have hcost : (record request course position p a outcome message).costMicros = costMicrosOf p.pricing a.promptTokens a.outputTokens := by
    unfold record
    dsimp only
    split
    · rfl
    · rename_i hnot
      obtain ⟨hprompt, houtput⟩ := Bool.or_eq_false_iff.mp (Bool.eq_false_iff.mpr hnot)
      exact (costMicrosOf_unreported hprompt houtput).symm
  exact ⟨rfl, ⟨p, hp, rfl, rfl, hcost⟩, ⟨a, ha, rfl, rfl⟩, hcost ▸ costMicrosOf_natural _ _ _, le_max_left _ _⟩

/-- What a run comes to: its records are those of the positions called, one each, and it has ended at the first that serves. -/
structure Accounted (request : Request J T) (course : Course) (chain : List Provider) (calls : List ℕ) (result : AiResult T) : Prop where
  calls : calls = List.range result.invocations.length
  records : ∀ k r, result.invocations[k]? = some r → Records request course chain k r
  before : ∀ k, k + 1 < result.invocations.length → ∀ value, ¬ Serves request course k value
  result : match result with
    | .ok value invocations => ∃ k, invocations.length = k + 1 ∧ Serves request course k value
    | .CHAIN_EXHAUSTED invocations => invocations.length = chain.length ∧ ∀ k < chain.length, ∀ value, ¬ Serves request course k value

/-- From a position on, where none before it has served. -/
theorem walk_accounted (hprint : ∀ k, attempt request.timeoutMs (course.cancelled k) (course.behaviour k) ≠ none) (hchain : chain.drop position = rest)
    (hle : position ≤ chain.length) (hlength : invocations.length = position) (hrecords : ∀ k r, invocations[k]? = some r → Records request course chain k r)
    (hnone : ∀ k < position, ∀ value, ¬ Serves request course k value) :
    ∃ calls result, walk request course position rest invocations = (calls, .ok result) ∧
      Accounted request course chain (List.range position ++ calls) result := by
  induction rest generalizing position invocations with
  | nil =>
    obtain rfl : position = chain.length := le_antisymm hle (List.drop_eq_nil_iff.mp hchain)
    refine ⟨[], _, rfl, ?_, hrecords, fun k hk => hnone k ?_, hlength, hnone⟩
    · rw [List.append_nil]
      exact congrArg List.range hlength.symm
    · change k + 1 < invocations.length at hk
      omega
  | cons p rest ih =>
    have hp : chain[position]? = some p := by rw [← List.head?_drop, hchain]; rfl
    have hlt : position < chain.length := (List.getElem?_eq_some_iff.mp hp).1
    obtain ⟨a, ha⟩ := Option.ne_none_iff_exists'.mp (hprint position)
    have hmore (outcome : AiOutcome) (message : Option Text) :
        (invocations ++ [record request course position p a outcome message]).length = position + 1 ∧
        ∀ k r, (invocations ++ [record request course position p a outcome message])[k]? = some r → Records request course chain k r := by
      refine ⟨by simp [hlength], fun k r hr => ?_⟩
      rcases getElem?_concat_index hr with hr | ⟨rfl, rfl⟩
      · exact hrecords k r hr
      · rw [hlength]
        exact records_record hp ha outcome message
    unfold walk
    rw [ha]
    dsimp only
    rcases hjudge : judge request a with ⟨outcome, message⟩ | value
    · obtain ⟨hlength', hrecords'⟩ := hmore outcome message
      have hnone' : ∀ k < position + 1, ∀ value, ¬ Serves request course k value := by
        intro k hk value hserves
        rcases Nat.lt_succ_iff_lt_or_eq.mp hk with hk | rfl
        · exact hnone k hk value hserves
        · obtain ⟨a', ha', hvalue⟩ := hserves
          obtain rfl : a = a' := Option.some.inj (ha.symm.trans ha')
          rw [hjudge] at hvalue
          cases hvalue
      have hrest : chain.drop (position + 1) = rest := by
        rw [← List.drop_drop, hchain]
        rfl
      obtain ⟨calls, result, hwalk, haccounted⟩ := ih hrest hlt hlength' hrecords' hnone'
      refine ⟨position :: calls, result, by simp only [hwalk], ?_⟩
      rw [List.range_succ, List.append_assoc] at haccounted
      exact haccounted
    · obtain ⟨hlength', hrecords'⟩ := hmore .SUCCESS none
      refine ⟨[position], _, rfl, ?_, hrecords', fun k hk => hnone k ?_, position, hlength', a, ha, hjudge⟩
      · rw [← List.range_succ]
        exact congrArg List.range hlength'.symm
      · change k + 1 < (invocations ++ [_]).length at hk
        omega

end Walk

end WebAudit.Ai
