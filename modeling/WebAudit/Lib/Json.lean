import Mathlib.Data.List.Basic

/-!
# JSON values, as a JavaScript program sees them

What `JSON.parse` returns, property access on it, and `String`. A number is a finite
double, known by what `String` prints for it: different numbers print differently (`-0`
prints as `0`, and neither `JSON.stringify` nor a comparison tells the two apart).
-/

namespace WebAudit.Lib

/-- The letters that a finite number is printed with. -/
def isNumberLetter (c : Char) : Bool := c.isDigit || c ∈ ['-', '+', '.', 'e']

/-- A finite number, by its printed form. -/
structure Number where
  text : String
  printed : text.toList ≠ [] ∧ text.toList.all isNumberLetter = true
  deriving DecidableEq

/-- `Number.MAX_SAFE_INTEGER`. -/
def maxSafeInteger : ℕ := 9007199254740991

/-- The value of a run of decimal digits. -/
def decimal (digits : List Char) : ℕ := digits.foldl (fun n c => 10 * n + (c.toNat - '0'.toNat)) 0

/-- The number as a natural number, if it is a safe integer (`Number.isSafeInteger`) and not negative. -/
def Number.safeNat (x : Number) : Option ℕ :=
  let n := decimal x.text.toList
  if toString n = x.text ∧ n ≤ maxSafeInteger then some n else none

/-- A value of JSON; an object has each of its keys once. -/
inductive Json where
  | null
  | bool (b : Bool)
  | number (x : Number)
  | string (s : String)
  | array (items : List Json)
  | object (fields : List (String × Json))

namespace Json

/-- `value[key]`, where a value that is no record has nothing (`undefined`). -/
def field (key : String) : Json → Option Json
  | .object fields => fields.lookup key
  | _ => none

mutual

/-- `String(value)`. -/
def text : Json → String
  | .null => "null"
  | .bool true => "true"
  | .bool false => "false"
  | .number x => x.text
  | .string s => s
  | .array items => ",".intercalate (elements items)
  | .object _ => "[object Object]"

/-- The elements of an array, as `join` prints them. -/
def elements : List Json → List String
  | [] => []
  | .null :: rest => "" :: elements rest
  | item :: rest => item.text :: elements rest

end

/-- An object literal; what is `undefined` does not survive `JSON.stringify`. -/
def record (fields : List (String × Option Json)) : Json :=
  .object (fields.filterMap fun f => f.2.map fun value => (f.1, value))

theorem field_record {fields : List (String × Option Json)} (h : (fields.map (·.1)).Nodup) (key : String) :
    (record fields).field key = (fields.lookup key).join := by
  unfold record field
  dsimp only
  induction fields with
  | nil => rfl
  | cons f fields ih =>
    obtain ⟨k, v⟩ := f
    rw [List.map_cons, List.nodup_cons] at h
    have ih := ih h.2
    have hcons : ∀ w, v = some w → ((k, v) :: fields).filterMap (fun f => f.2.map fun value => (f.1, value)) =
        (k, w) :: fields.filterMap (fun f => f.2.map fun value => (f.1, value)) := by
      rintro w rfl
      rfl
    by_cases hk : key = k
    · subst hk
      rw [List.lookup_cons_self]
      rcases v with _ | v
      · have hnone : fields.lookup key = none := by
          rw [List.lookup_eq_none_iff]
          intro p hp
          rw [bne_iff_ne]
          rintro rfl
          exact h.1 (List.mem_map.mpr ⟨p, hp, rfl⟩)
        rw [List.filterMap_cons_none rfl, ih, hnone]
        rfl
      · rw [hcons v rfl, List.lookup_cons_self]
        rfl
    · have hbeq : (key == k) = false := beq_eq_false_iff_ne.mpr hk
      rw [List.lookup_cons, hbeq]
      rcases v with _ | v
      · rw [List.filterMap_cons_none rfl]
        exact ih
      · rw [hcons v rfl, List.lookup_cons, hbeq]
        exact ih

end Json

end WebAudit.Lib
