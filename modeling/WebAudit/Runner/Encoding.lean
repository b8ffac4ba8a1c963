import WebAudit.Lib.Concat
import WebAudit.Runner.Attribute

/-!
# Two findings, two encodings

`encodeParts` sets each part's length in bytes before it, so that the parts are read apart again. The bytes are those of
`Buffer.from(text, 'utf8')`, which writes U+FFFD for a surrogate that stands alone: texts that differ in such surrogates
alone have the same bytes.
-/

namespace WebAudit.Runner

open WebAudit.Lib WebAudit.Lib.Uri WebAudit.Lib.Values WebAudit.Scans
open WebAudit.Redaction (decimalText isDigit isDigit_of_mem_decimalText decimalText_injective)

/-! ### UTF-8 -/

section Utf8

variable {v w u : ℕ} {r s text a b : List ℕ}

theorem utf8Of_ne_nil (v : ℕ) : utf8Of v ≠ [] := by
  unfold utf8Of
  split_ifs <;> exact List.cons_ne_nil _ _

/-- The first octet tells how many there are, and they tell the code point. -/
theorem utf8Of_append_inj (h : utf8Of v ++ r = utf8Of w ++ s) : v = w ∧ r = s := by
  unfold utf8Of at h
  split_ifs at h <;> simp only [List.cons_append, List.nil_append, List.cons.injEq] at h
  all_goals
    first
    | exact ⟨by omega, h.2.2.2.2⟩
    | exact ⟨by omega, h.2.2.2⟩
    | exact ⟨by omega, h.2.2⟩
    | exact h
    | omega

def isSurrogate (u : ℕ) : Bool := isHighSurrogate u || isLowSurrogate u

/-- A surrogate that stands alone counts as U+FFFD. -/
def replaced (u : ℕ) : ℕ := if isSurrogate u then 0xFFFD else u

/-- The code point of a pair. -/
def paired (u v : ℕ) : ℕ := 0x10000 + (u - 0xD800) * 0x400 + (v - 0xDC00)

/-- The code points that are written. -/
def codePoints : Text → List ℕ
  | [] => []
  | [u] => [replaced u]
  | u :: v :: rest =>
    if isHighSurrogate u && isLowSurrogate v then paired u v :: codePoints rest else replaced u :: codePoints (v :: rest)

/-- `text.toWellFormed()`. -/
def toWellFormed : Text → Text
  | [] => []
  | [u] => [replaced u]
  | u :: v :: rest =>
    if isHighSurrogate u && isLowSurrogate v then u :: v :: toWellFormed rest else replaced u :: toWellFormed (v :: rest)

theorem utf8_eq (text : Text) : utf8 text = (codePoints text).flatMap utf8Of := by
  have hone (u : ℕ) : (if (isHighSurrogate u || isLowSurrogate u) = true then utf8Of 0xFFFD else utf8Of u) = utf8Of (replaced u) := by
    unfold replaced isSurrogate
    split_ifs <;> rfl
  induction text using toWellFormed.induct with
  | case1 => rfl
  | case2 u => rw [utf8, hone, codePoints, List.flatMap_singleton]
  | case3 u v rest hpair ih => rw [utf8, if_pos hpair, codePoints, if_pos hpair, List.flatMap_cons, ih]; rfl
  | case4 u v rest hpair ih => rw [utf8, if_neg hpair, codePoints, if_neg hpair, List.flatMap_cons, ih, hone]

theorem replaced_not_surrogate (u : ℕ) : isSurrogate (replaced u) = false := by
  unfold replaced
  split_ifs with h
  · rfl
  · simpa using h

theorem replaced_replaced (u : ℕ) : replaced (replaced u) = replaced u := by
  rw [replaced, replaced_not_surrogate, if_neg Bool.false_ne_true]

/-- What is no surrogate is written for itself. -/
theorem codePoints_cons (h : isSurrogate u = false) (text : Text) : codePoints (u :: text) = replaced u :: codePoints text := by
  cases text with
  | nil => rfl
  | cons v rest =>
    have hhigh : isHighSurrogate u = false := (Bool.or_eq_false_iff.mp h).1
    rw [codePoints, hhigh, Bool.false_and, if_neg Bool.false_ne_true]

theorem codePoints_toWellFormed (text : Text) : codePoints (toWellFormed text) = codePoints text := by
  induction text using toWellFormed.induct with
  | case1 => rfl
  | case2 u => rw [toWellFormed, codePoints, codePoints, replaced_replaced]
  | case3 u v rest hpair ih => rw [toWellFormed, if_pos hpair, codePoints, if_pos hpair, ih, codePoints, if_pos hpair]
  | case4 u v rest hpair ih =>
    rw [toWellFormed, if_neg hpair, codePoints_cons (replaced_not_surrogate u), ih, replaced_replaced, codePoints, if_neg hpair]

/-- Code units, and no other numbers. -/
def IsUnits (text : Text) : Prop := ∀ u ∈ text, u < 0x10000

theorem utf16_replaced (h : u < 0x10000) : utf16 (replaced u) = [replaced u] := by
  have hlt : replaced u < 0x10000 := by
    unfold replaced
    split_ifs
    · decide
    · exact h
  exact if_pos hlt

theorem utf16_paired (h : (isHighSurrogate u && isLowSurrogate v) = true) : utf16 (paired u v) = [u, v] := by
  unfold isHighSurrogate isLowSurrogate at h
  simp only [Bool.and_eq_true, decide_eq_true_eq] at h
  unfold utf16 paired
  rw [if_neg (by omega), List.cons.injEq, List.cons.injEq]
  exact ⟨by omega, by omega, rfl⟩

/-- The code points are those of the repaired text. -/
theorem flatMap_utf16_codePoints (h : IsUnits text) : (codePoints text).flatMap utf16 = toWellFormed text := by
  induction text using toWellFormed.induct with
  | case1 => rfl
  | case2 u => rw [codePoints, List.flatMap_singleton, utf16_replaced (h u (List.mem_singleton_self u)), toWellFormed]
  | case3 u v rest hpair ih =>
    rw [codePoints, if_pos hpair, List.flatMap_cons, utf16_paired hpair, toWellFormed, if_pos hpair,
      ih fun w hw => h w (List.mem_cons_of_mem _ (List.mem_cons_of_mem _ hw))]
    rfl
  | case4 u v rest hpair ih =>
    rw [codePoints, if_neg hpair, List.flatMap_cons, utf16_replaced (h u (List.mem_cons_self ..)), toWellFormed, if_neg hpair,
      ih fun w hw => h w (List.mem_cons_of_mem _ hw)]
    rfl

/-- **Texts have the same bytes when they are the same but for lone surrogates.** -/
theorem utf8_eq_iff (ha : IsUnits a) (hb : IsUnits b) : utf8 a = utf8 b ↔ toWellFormed a = toWellFormed b := by
  constructor
  · intro h
    rw [utf8_eq, utf8_eq] at h
    have hpoints : codePoints a = codePoints b := flatMap_injective utf8Of_ne_nil utf8Of_append_inj h
    rw [← flatMap_utf16_codePoints ha, ← flatMap_utf16_codePoints hb, hpoints]
  · intro h
    rw [utf8_eq, utf8_eq, ← codePoints_toWellFormed a, h, codePoints_toWellFormed]

theorem toWellFormed_moduleName (module : ModuleType) : toWellFormed (moduleName module) = moduleName module := by
  cases module <;> decide

theorem moduleName_injective : Function.Injective moduleName := by
  intro module module' h
  cases module <;> cases module' <;> first | rfl | exact absurd h (by decide)

end Utf8

/-! ### Fingerprints -/

/-- What a finding is known again by. -/
structure Identity where
  targetId : Text
  module : ModuleType
  checkId : Text
  parts : List Text
  deriving DecidableEq

namespace Identity

/-- What is encoded, part after part. -/
def texts (x : Identity) : List Text := x.targetId :: moduleName x.module :: x.checkId :: x.parts

def encoded (x : Identity) : Option (List ℕ) := encodeParts (x.texts.map .text)

def fingerprint (platform : Platform) (x : Identity) : Option Text :=
  fingerprintOf platform x.targetId x.module x.checkId (x.parts.map .text)

/-- Texts, and not other lists of numbers. -/
def IsTexts (x : Identity) : Prop := ∀ text ∈ x.texts, IsUnits text

def toWellFormed (x : Identity) : Identity :=
  ⟨Runner.toWellFormed x.targetId, x.module, Runner.toWellFormed x.checkId, x.parts.map Runner.toWellFormed⟩

/-- The hash does not take the one for the other. -/
def CollisionFree (platform : Platform) (a b : Identity) : Prop :=
  ∀ x y, a.encoded = some x → b.encoded = some y → platform.sha256 x = platform.sha256 y → x = y

variable {platform : Platform} {a b : Identity}

theorem fingerprint_eq (x : Identity) : x.fingerprint platform = x.encoded.map platform.sha256 := rfl

/-- The parts' bytes, each with its length before it. -/
theorem encoded_eq (x : Identity) : x.encoded = some ((x.texts.map utf8).flatMap (frame decimalText 0x3A)) := by
  have hbytes : (x.texts.map Part.text).mapM Part.bytes = some (x.texts.map utf8) := by
    rw [List.mapM_map]
    exact List.mapM_pure
  have hframe : (fun bytes : List ℕ => decimalText bytes.length ++ ascii ":" ++ bytes) = frame decimalText 0x3A := by
    funext bytes
    rw [show ascii ":" = [0x3A] by decide, List.append_assoc]
    rfl
  unfold encoded encodeParts
  rw [hbytes, hframe]
  rfl

/-- The bytes of the parts are read off the encoding. -/
theorem encoded_eq_iff : a.encoded = b.encoded ↔ a.texts.map utf8 = b.texts.map utf8 := by
  have hfree (n : ℕ) : 0x3A ∉ decimalText n := fun h => by cases isDigit_of_mem_decimalText h
  rw [encoded_eq, encoded_eq, Option.some.injEq]
  exact (flatMap_frame_injective decimalText_injective hfree).eq_iff

theorem map_utf8_eq_iff {xs ys : List Text} (hx : ∀ text ∈ xs, IsUnits text) (hy : ∀ text ∈ ys, IsUnits text) :
    xs.map utf8 = ys.map utf8 ↔ xs.map Runner.toWellFormed = ys.map Runner.toWellFormed := by
  induction xs generalizing ys with
  | nil => rw [List.map_nil, List.map_nil, List.nil_eq, List.nil_eq, List.map_eq_nil_iff, List.map_eq_nil_iff]
  | cons x xs ih =>
    cases ys with
    | nil => exact ⟨nofun, nofun⟩
    | cons y ys =>
      have hhead := utf8_eq_iff (hx x (List.mem_cons_self ..)) (hy y (List.mem_cons_self ..))
      have hrest := ih (fun t ht => hx t (List.mem_cons_of_mem _ ht)) fun t ht => hy t (List.mem_cons_of_mem _ ht)
      rw [List.map_cons, List.map_cons, List.cons.injEq, List.map_cons, List.map_cons, List.cons.injEq, hhead, hrest]

theorem texts_toWellFormed (x : Identity) : x.toWellFormed.texts = x.texts.map Runner.toWellFormed := by
  unfold texts toWellFormed
  rw [List.map_cons, List.map_cons, List.map_cons, toWellFormed_moduleName]

theorem texts_injective : Function.Injective texts := by
  rintro ⟨target, module, check, parts⟩ ⟨target', module', check', parts'⟩ h
  simp only [texts, List.cons.injEq] at h
  obtain ⟨rfl, hmodule, rfl, rfl⟩ := h
  rw [moduleName_injective hmodule]

/-- **Findings share an encoding when they are the same but for lone surrogates.** -/
theorem encoded_eq_iff_toWellFormed (ha : a.IsTexts) (hb : b.IsTexts) : a.encoded = b.encoded ↔ a.toWellFormed = b.toWellFormed := by
  rw [encoded_eq_iff, map_utf8_eq_iff ha hb, ← texts_toWellFormed, ← texts_toWellFormed]
  exact texts_injective.eq_iff

theorem fingerprint_eq_iff (h : CollisionFree platform a b) : a.fingerprint platform = b.fingerprint platform ↔ a.encoded = b.encoded := by
  rw [fingerprint_eq, fingerprint_eq]
  constructor
  · intro heq
    obtain ⟨x, hx⟩ : ∃ x, a.encoded = some x := ⟨_, encoded_eq a⟩
    obtain ⟨y, hy⟩ : ∃ y, b.encoded = some y := ⟨_, encoded_eq b⟩
    rw [hx, hy, Option.map_some, Option.map_some, Option.some.injEq] at heq
    rw [hx, hy, h x y hx hy heq]
  · intro heq
    rw [heq]

/-- **Different findings are told apart**, in their bytes and by a hash without a collision, as far as they differ in more than
lone surrogates. -/
theorem apart_iff (platform : Platform) (a b : Identity) (ha : a.IsTexts) (hb : b.IsTexts) (hhash : CollisionFree platform a b) :
    ((a ≠ b → a.encoded ≠ b.encoded) ↔ (a ≠ b → a.toWellFormed ≠ b.toWellFormed)) ∧
      ((a ≠ b → a.fingerprint platform ≠ b.fingerprint platform) ↔ (a ≠ b → a.toWellFormed ≠ b.toWellFormed)) := by
  have hencoded := not_congr (encoded_eq_iff_toWellFormed ha hb)
  have hfingerprint := not_congr ((fingerprint_eq_iff hhash).trans (encoded_eq_iff_toWellFormed ha hb))
  exact ⟨imp_congr_right fun _ => hencoded, imp_congr_right fun _ => hfingerprint⟩

/-- A finding in the title of a page. -/
def found (part : Text) : Identity := ⟨ascii "t", .SEO, ascii "c", [part]⟩

/-- SHA-256, as far as it is asked. -/
def asked : Platform where
  sha256 bytes :=
    if bytes = ascii "1:t3:SEO1:c1:x" then ascii "477e4110c89266d37c9b79ac1c2e6be27b70979e4f24ac2559f06e91d3059d75"
    else ascii "332d087148e6696ac059c60c132fc71c7060778bc73d30796c7066dfebe4c1c6"
  parseUrl _ := none
  sha256_plain bytes := by
    split_ifs <;> exact plain_ascii rfl
  parseUrl_plain := noUrl_plain

theorem apart_iff_found :
    (found (ascii "x")).encoded ≠ (found (ascii "y")).encoded ∧
      (found (ascii "x")).fingerprint asked ≠ (found (ascii "y")).fingerprint asked := by
  have htexts : (found (ascii "x")).IsTexts ∧ (found (ascii "y")).IsTexts := by
    unfold IsTexts IsUnits
    decide
  have hhash : CollisionFree asked (found (ascii "x")) (found (ascii "y")) := by
    rintro x y hx hy h
    obtain rfl := Option.some.inj hx
    obtain rfl := Option.some.inj hy
    exact absurd h (by decide)
  obtain ⟨hencoded, hfingerprint⟩ := apart_iff asked _ _ htexts.1 htexts.2 hhash
  exact ⟨hencoded.mpr (by decide) (by decide), hfingerprint.mpr (by decide) (by decide)⟩

/-- One half of a pair is written like the other. -/
theorem lone_surrogates_meet : ¬ ∀ a b : Identity, a.IsTexts → b.IsTexts → a ≠ b → a.encoded ≠ b.encoded := by
  intro h
  have htexts : (found [0xD83D]).IsTexts ∧ (found [0xDE00]).IsTexts := by
    unfold IsTexts IsUnits
    decide
  exact h _ _ htexts.1 htexts.2 (by decide) (by decide)

end Identity

end WebAudit.Runner
