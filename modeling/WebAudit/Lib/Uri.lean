import Mathlib.Order.Nat

/-!
# Texts of a URI

A text is the list of its UTF-16 code units. `decodeURIComponent` is the function of that name of
ECMAScript; what it decodes to is `Encodes`, one character after another. The segments of a path are
resolved by `resolve`, whose result does not depend on what `Same` says may be written differently.
-/

namespace WebAudit.Lib.Uri

/-- A text, by its code units. -/
abbrev Text := List ℕ

instance : LawfulBEq Text := inferInstance

/-- The code units of an ASCII text. -/
def ascii (s : String) : Text := s.toList.map Char.toNat

/-- The case mapping of one ASCII letter. -/
def asciiLower (u : ℕ) : ℕ := if 0x41 ≤ u ∧ u ≤ 0x5A then u + 0x20 else u

/-- A full stop. -/
def dot : ℕ := 0x2E

def slash : ℕ := 0x2F

/-- `startsWith`, `endsWith`. -/
def startsWith (text start : Text) : Bool := start.isPrefixOf text
def endsWith (text tail : Text) : Bool := tail.isSuffixOf text

theorem endsWith_iff {text tail : Text} : endsWith text tail = true ↔ ∃ front, front ++ tail = text :=
  List.isSuffixOf_iff_suffix

/-- Without one trailing dot. -/
def stripDot (text : Text) : Text := if endsWith text [dot] then text.dropLast else text

/-! ### Percent-decoding -/

def hexDigit (u : ℕ) : Option ℕ :=
  if 0x30 ≤ u ∧ u ≤ 0x39 then some (u - 0x30)
  else if 0x41 ≤ u ∧ u ≤ 0x46 then some (u - 0x37)
  else if 0x61 ≤ u ∧ u ≤ 0x66 then some (u - 0x57)
  else none

/-- The octet of an escape, and what follows. -/
def octet : Text → Option (ℕ × Text)
  | u :: a :: b :: rest =>
    if u = 0x25 then
      match hexDigit a, hexDigit b with
      | some hi, some lo => some (16 * hi + lo, rest)
      | _, _ => none
    else none
  | _ => none

/-- The value that `n` more octets complete. -/
def continuation : ℕ → ℕ → Text → Option (ℕ × Text)
  | 0, value, text => some (value, text)
  | n + 1, value, text =>
    match octet text with
    | some (b, rest) => if 0x80 ≤ b ∧ b < 0xC0 then continuation n (64 * value + (b - 0x80)) rest else none
    | none => none

/-- The code units of a code point. -/
def utf16 (v : ℕ) : Text := if v < 0x10000 then [v] else [0xD800 + (v - 0x10000) / 0x400, 0xDC00 + (v - 0x10000) % 0x400]

/-- A code point that may be encoded with this many octets, the least of which is `least`. -/
def codePoint (least : ℕ) : ℕ × Text → Option (Text × Text)
  | (v, rest) => if least ≤ v ∧ v ≤ 0x10FFFF ∧ ¬ (0xD800 ≤ v ∧ v ≤ 0xDFFF) then some (utf16 v, rest) else none

/-- The next character, decoded, and what follows it. -/
def character : Text → Option (Text × Text)
  | [] => none
  | u :: text =>
    if u ≠ 0x25 then some ([u], text)
    else
      match octet (u :: text) with
      | none => none
      | some (b, rest) =>
        if b < 0x80 then some ([b], rest)
        else if 0xC0 ≤ b ∧ b < 0xE0 then (continuation 1 (b - 0xC0) rest).bind (codePoint 0x80)
        else if 0xE0 ≤ b ∧ b < 0xF0 then (continuation 2 (b - 0xE0) rest).bind (codePoint 0x800)
        else if 0xF0 ≤ b ∧ b < 0xF8 then (continuation 3 (b - 0xF0) rest).bind (codePoint 0x10000)
        else none

/-- With at most so many characters. -/
def decodeAux : ℕ → Text → Option Text
  | _, [] => some []
  | 0, _ :: _ => none
  | n + 1, u :: text =>
    match character (u :: text) with
    | none => none
    | some (c, rest) => (decodeAux n rest).map (c ++ ·)

/-- `none` where it throws. -/
def decodeURIComponent (text : Text) : Option Text := decodeAux text.length text

/-- The first text is an encoding of the second. -/
inductive Encodes : Text → Text → Prop where
  | nil : Encodes [] []
  | cons {text rest c decoded : Text} (h : character text = some (c, rest)) (hrest : Encodes rest decoded) :
      Encodes text (c ++ decoded)

section Decoding

variable {text rest more c decoded : Text} {b v n : ℕ}

theorem octet_length (h : octet text = some (b, rest)) : rest.length < text.length := by
  unfold octet at h
  split at h
  · split at h
    · split at h <;> cases h
      simp only [List.length_cons]
      omega
    · cases h
  · cases h

theorem continuation_length (h : continuation n v text = some (b, rest)) : rest.length ≤ text.length := by
  induction n generalizing v text with
  | zero =>
    cases h
    rfl
  | succ n ih =>
    unfold continuation at h
    split at h
    · rename_i b rest' hoctet
      split at h
      · exact (ih h).trans (octet_length hoctet).le
      · cases h
    · cases h

theorem codePoint_rest {least : ℕ} {p : ℕ × Text} (h : codePoint least p = some (c, rest)) : rest = p.2 := by
  unfold codePoint at h
  split at h
  split at h <;> cases h
  rfl

/-- A character takes at least one code unit. -/
theorem character_length (h : character text = some (c, rest)) : rest.length < text.length := by
  have hmore {n v least : ℕ} {text rest' : Text} (hlt : rest'.length < text.length)
      (h : (continuation n v rest').bind (codePoint least) = some (c, rest)) : rest.length < text.length := by
    obtain ⟨p, hp, hc⟩ := Option.bind_eq_some_iff.mp h
    rw [codePoint_rest hc]
    exact (continuation_length hp).trans_lt hlt
  unfold character at h
  split at h
  · cases h
  split at h
  · cases h
    simp
  split at h
  · cases h
  rename_i hoctet
  have hlt := octet_length hoctet
  split at h
  · cases h
    exact hlt
  split at h
  · exact hmore hlt h
  split at h
  · exact hmore hlt h
  split at h
  · exact hmore hlt h
  · cases h

theorem decodeAux_encodes (h : decodeAux n text = some decoded) : Encodes text decoded := by
  induction n generalizing text decoded with
  | zero =>
    cases text with
    | nil =>
      cases h
      exact .nil
    | cons u text => cases h
  | succ n ih =>
    cases text with
    | nil =>
      cases h
      exact .nil
    | cons u text =>
      unfold decodeAux at h
      split at h
      · cases h
      rename_i c rest hc
      obtain ⟨t, ht, rfl⟩ := Option.map_eq_some_iff.mp h
      exact .cons hc (ih ht)

theorem Encodes.decodeAux (h : Encodes text decoded) (hn : text.length ≤ n) : decodeAux n text = some decoded := by
  induction h generalizing n with
  | nil => cases n <;> rfl
  | @cons text rest c decoded hc hrest ih =>
    have hlt := character_length hc
    cases text with
    | nil => cases hc
    | cons u text =>
      cases n with
      | zero => simp at hn
      | succ n =>
        unfold Uri.decodeAux
        rw [hc]
        simp only [ih (show rest.length ≤ n by omega), Option.map_some]

/-- **What is decoded.** -/
theorem decodeURIComponent_eq_some : decodeURIComponent text = some decoded ↔ Encodes text decoded :=
  ⟨decodeAux_encodes, fun h => h.decodeAux le_rfl⟩

end Decoding

/-! ### Segments -/

section Segments

variable {σ : Type} (skip up : σ → Bool)

/-- One more segment of a path. -/
def push (resolved : List σ) (segment : σ) : List σ :=
  if skip segment then resolved else if up segment then resolved.dropLast else resolved ++ [segment]

/-- The path that the segments lead to, from the root. -/
def resolve (segments : List σ) : List σ := segments.foldl (push skip up) []

/-- Two ways to write a path. -/
inductive Same : List σ → List σ → Prop where
  | refl (xs : List σ) : Same xs xs
  | symm {xs ys : List σ} (h : Same xs ys) : Same ys xs
  | trans {xs ys zs : List σ} (h : Same xs ys) (h' : Same ys zs) : Same xs zs
  | skip {s : σ} (xs ys : List σ) (hs : skip s = true) : Same (xs ++ s :: ys) (xs ++ ys)
  | up {s u : σ} (xs ys : List σ) (hs : skip s = false) (hs' : up s = false) (hu : skip u = false) (hu' : up u = true) :
      Same (xs ++ s :: u :: ys) (xs ++ ys)
  | root {u : σ} (ys : List σ) (hu : up u = true) : Same (u :: ys) ys

variable {skip up}

/-- They lead to the same. -/
theorem Same.resolve_eq {xs ys : List σ} (h : Same skip up xs ys) : resolve skip up xs = resolve skip up ys := by
  unfold resolve
  induction h with
  | refl xs => rfl
  | symm _ ih => exact ih.symm
  | trans _ _ ih ih' => exact ih.trans ih'
  | skip xs ys hs => simp [push, hs]
  | up xs ys hs hs' hu hu' => simp [push, hs, hs', hu, hu']
  | root ys hu => simp [push, hu]

/-- Of segments that are neither skipped nor lead up, nothing is lost. -/
theorem foldl_push {xs ys : List σ} (h : ∀ s ∈ xs, skip s = false ∧ up s = false) : xs.foldl (push skip up) ys = ys ++ xs := by
  induction xs generalizing ys with
  | nil => simp
  | cons s xs ih =>
    obtain ⟨hs, hs'⟩ := h s List.mem_cons_self
    rw [List.foldl_cons, ih fun t ht => h t (List.mem_cons_of_mem s ht)]
    simp [push, hs, hs']

end Segments

/-- A segment that stands for where it is. -/
def skipped (segment : Text) : Bool := segment == [] || segment == [dot]

/-- A segment that leads up. -/
def parent (segment : Text) : Bool := segment == [dot, dot]

end WebAudit.Lib.Uri
