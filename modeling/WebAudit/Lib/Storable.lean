import WebAudit.Lib.Values

/-!
# Texts that a database takes

A column of text takes no U+0000 and no surrogate without its other half (`isStorable`), nor does one of JSON, in a
string or a key. A text that is put together with separators is taken if and only if its parts are
(`isStorable_separated`); without them a half may meet its other half, and a cut may part them.
-/

namespace WebAudit.Lib.Values

open WebAudit.Lib.Uri

/-- A unit that is taken whatever stands beside it. -/
def isPlain (u : ℕ) : Bool := u != 0 && !isHighSurrogate u && !isLowSurrogate u

def isStorable : Text → Bool
  | [] => true
  | [u] => isPlain u
  | u :: v :: rest => if isHighSurrogate u && isLowSurrogate v then isStorable rest else isPlain u && isStorable (v :: rest)

mutual

def Tree.isStorable : Tree → Bool
  | .null | .bool _ | .number _ => true
  | .string s => Values.isStorable s
  | .array items => areStorable items
  | .object fields => areFieldsStorable fields

def areStorable : List Tree → Bool
  | [] => true
  | t :: rest => t.isStorable && areStorable rest

def areFieldsStorable : List (Text × Tree) → Bool
  | [] => true
  | (key, t) :: rest => Values.isStorable key && t.isStorable && areFieldsStorable rest

end

section Plain

variable {u : ℕ} {text a b sep : Text}

theorem isHighSurrogate_of_isPlain (h : isPlain u = true) : isHighSurrogate u = false := by
  unfold isPlain at h
  simp only [Bool.and_eq_true, Bool.not_eq_true'] at h
  exact h.1.2

theorem isLowSurrogate_of_isPlain (h : isPlain u = true) : isLowSurrogate u = false := by
  unfold isPlain at h
  simp only [Bool.and_eq_true, Bool.not_eq_true'] at h
  exact h.2

/-- A literal is plain if its characters are. -/
theorem plain_ascii {cs : List Char} (h : (cs.all fun c => isPlain c.toNat) = true) : (ascii (String.ofList cs)).all isPlain = true := by
  unfold ascii
  rw [String.toList_ofList, List.all_map]
  exact h

@[simp] theorem isStorable_nil : isStorable [] = true := rfl

theorem isStorable_plain_cons (h : isPlain u = true) : isStorable (u :: text) = isStorable text := by
  cases text with
  | nil => exact h
  | cons v rest =>
    rw [isStorable, isHighSurrogate_of_isPlain h, h, Bool.false_and, Bool.true_and, if_neg Bool.false_ne_true]

/-- A plain unit parts a text. -/
theorem isStorable_append_cons (h : isPlain u = true) : isStorable (a ++ u :: b) = (isStorable a && isStorable b) := by
  induction a using isStorable.induct with
  | case1 => exact isStorable_plain_cons h
  | case2 v =>
    have hcons : isStorable (v :: u :: b) = (isPlain v && isStorable (u :: b)) := by
      rw [isStorable, isLowSurrogate_of_isPlain h, Bool.and_false, if_neg Bool.false_ne_true]
    rw [List.singleton_append, hcons, isStorable_plain_cons h]
    rfl
  | case3 v w rest hpair ih =>
    rw [List.cons_append, List.cons_append, isStorable, if_pos hpair, ih, isStorable, if_pos hpair]
  | case4 v w rest hpair ih =>
    rw [List.cons_append, List.cons_append, isStorable, if_neg hpair, ← List.cons_append, ih, isStorable, if_neg hpair, Bool.and_assoc]

theorem isStorable_plain_append (h : a.all isPlain = true) : isStorable (a ++ b) = isStorable b := by
  induction a with
  | nil => rfl
  | cons u a ih =>
    obtain ⟨hu, ha⟩ := (Bool.and_eq_true _ _).mp h
    rw [List.cons_append, isStorable_plain_cons hu, ih ha]

theorem isStorable_of_plain (h : a.all isPlain = true) : isStorable a = true := by
  rw [← List.append_nil a, isStorable_plain_append h, isStorable_nil]

theorem isStorable_ascii {cs : List Char} (h : (cs.all fun c => isPlain c.toNat) = true) : isStorable (ascii (String.ofList cs)) = true :=
  isStorable_of_plain (plain_ascii h)

/-- **Parts with a separator** are taken if and only if each is. -/
theorem isStorable_separated (h : sep.all isPlain = true) (hne : sep ≠ []) :
    isStorable (a ++ sep ++ b) = (isStorable a && isStorable b) := by
  obtain ⟨u, rest, rfl⟩ := List.exists_cons_of_ne_nil hne
  obtain ⟨hu, hrest⟩ := (Bool.and_eq_true _ _).mp h
  rw [List.append_assoc, List.cons_append, isStorable_append_cons hu, isStorable_plain_append hrest]

theorem isStorable_append_plain (h : sep.all isPlain = true) : isStorable (a ++ sep) = isStorable a := by
  by_cases hne : sep = []
  · rw [hne, List.append_nil]
  · have hparts := @isStorable_separated a [] sep h hne
    rwa [List.append_nil, isStorable_nil, Bool.and_true] at hparts

theorem isStorable_intercalate (h : sep.all isPlain = true) (hne : sep ≠ []) (texts : List Text) :
    isStorable (List.intercalate sep texts) = texts.all isStorable := by
  induction texts with
  | nil => rfl
  | cons text rest ih =>
    cases rest with
    | nil =>
      rw [List.intercalate_singleton, List.all_cons, List.all_nil, Bool.and_true]
    | cons next rest =>
      rw [List.intercalate_cons_cons, isStorable_separated h hne, ih]
      rfl

end Plain

end WebAudit.Lib.Values
