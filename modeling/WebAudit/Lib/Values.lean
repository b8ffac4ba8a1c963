import WebAudit.Lib.Uri
import Mathlib.Data.List.Basic

/-!
# Values of JavaScript, and what `JSON.stringify` makes of them

Objects are places of a heap, so a value may contain itself. What a getter or a method of theirs does is not
known; it may throw. `JSON.stringify` asks `toJSON` first, goes into arrays and objects as deep as the stack
allows, and throws below that: a cycle, which it would notice, has no bottom. `none` is that it throws, and
`some none` that there is nothing to write (`undefined`).

A program builds new arrays and records from values, with methods that it copied (`Built`).
-/

namespace WebAudit.Lib.Values

open WebAudit.Lib.Uri

/-! ### Values -/

/-- A value; a finite number is known by what is written for it, and other numbers have no such text. -/
inductive Value where
  | undefined
  | null
  | bool (b : Bool)
  | number (text : Option Text)
  | bigint
  | symbol
  | string (s : Text)
  | object (place : ℕ)
  deriving DecidableEq

inductive Kind where
  | array
  | callable
  | ordinary
  deriving DecidableEq

/-- An object: its own enumerable properties in order, or the items of an array, of which reading may throw; and
the function that its `toJSON` is, if it is one. -/
structure Object where
  kind : Kind
  properties : List (Text × Option Value)
  toJSON : Option ℕ
  deriving DecidableEq

/-- What a program has put together. -/
inductive Built where
  | value (v : Value)
  | array (items : List Built) (toJSON : Option ℕ)
  | record (fields : List (Text × Built))

/-- What is written. -/
inductive Tree where
  | null
  | bool (b : Bool)
  | number (text : Text)
  | string (s : Text)
  | array (items : List Tree)
  | object (fields : List (Text × Tree))

structure Engine where
  heap : List Object
  /-- What a function returns when it is called as a method. -/
  call : ℕ → Built → Option Value
  /-- How deep the stack is. -/
  stack : ℕ

namespace Engine

variable (env : Engine)

/-- The value that `toJSON` puts in the place of `v`. -/
def asked (v : Value) : Option Value :=
  match v with
  | .object p =>
    match (env.heap[p]?).bind Object.toJSON with
    | some f => env.call f (.value v)
    | none => some v
  | _ => some v

/-- `SerializeJSONProperty`, after `toJSON` was asked. -/
def write (room : ℕ) (v : Value) : Option (Option Tree) :=
  match v with
  | .undefined | .symbol => some none
  | .null | .number none => some (some .null)
  | .bool b => some (some (.bool b))
  | .number (some text) => some (some (.number text))
  | .bigint => none
  | .string s => some (some (.string s))
  | .object p =>
    match room with
    | 0 => none
    | room + 1 =>
      match env.heap[p]? with
      | none => some none
      | some o =>
        match o.kind with
        | .callable => some none
        | .array =>
          (o.properties.mapM fun (q : Text × Option Value) => q.2.bind fun v => (env.asked v).bind (write room)).map fun items =>
            some (.array (items.map (·.getD .null)))
        | .ordinary =>
          (o.properties.mapM fun (q : Text × Option Value) =>
            (q.2.bind fun v => (env.asked v).bind (write room)).map fun t => (q.1, t)).map fun fields =>
              some (.object (fields.filterMap fun f => f.2.map fun t => (f.1, t)))

/-- `JSON.stringify` of a value. -/
def stringify (v : Value) : Option (Option Tree) := (env.asked v).bind (env.write env.stack)

/-- The function that a property `toJSON` of a record is. -/
def methodOf (fields : List (Text × Built)) : Option ℕ :=
  match fields.lookup (ascii "toJSON") with
  | some (.value (.object f)) => if (env.heap[f]?).any (·.kind = .callable) then some f else none
  | _ => none

mutual

/-- `JSON.stringify` of what a program has put together. -/
def stringifyBuilt : Built → Option (Option Tree)
  | .value v => env.stringify v
  | .array items toJSON =>
    match toJSON with
    | some f => (env.call f (.array items toJSON)).bind (env.write env.stack)
    | none => (writeItems items).map fun ts => some (.array ts)
  | .record fields =>
    match env.methodOf fields with
    | some f => (env.call f (.record fields)).bind (env.write env.stack)
    | none => (writeFields fields).map fun ts => some (.object ts)

def writeItems : List Built → Option (List Tree)
  | [] => some []
  | b :: rest => (stringifyBuilt b).bind fun t => (writeItems rest).map fun ts => t.getD .null :: ts

def writeFields : List (Text × Built) → Option (List (Text × Tree))
  | [] => some []
  | (key, b) :: rest => (stringifyBuilt b).bind fun t => (writeFields rest).map fun ts =>
    match t with
    | none => ts
    | some t => (key, t) :: ts

end

end Engine

/-! ### Text -/

def hexUnit (n : ℕ) : ℕ := if n < 10 then 0x30 + n else 0x61 + (n - 10)

def unicodeEscape (u : ℕ) : Text :=
  ascii "\\u" ++ [hexUnit (u / 0x1000 % 16), hexUnit (u / 0x100 % 16), hexUnit (u / 16 % 16), hexUnit (u % 16)]

def isHighSurrogate (u : ℕ) : Bool := 0xD800 ≤ u && u < 0xDC00

def isLowSurrogate (u : ℕ) : Bool := 0xDC00 ≤ u && u < 0xE000

def escapeUnit (u : ℕ) : Text :=
  if u = 0x22 then ascii "\\\""
  else if u = 0x5C then ascii "\\\\"
  else if u = 0x08 then ascii "\\b"
  else if u = 0x0C then ascii "\\f"
  else if u = 0x0A then ascii "\\n"
  else if u = 0x0D then ascii "\\r"
  else if u = 0x09 then ascii "\\t"
  else if u < 0x20 || isHighSurrogate u || isLowSurrogate u then unicodeEscape u
  else [u]

/-- Surrogates are escaped where they stand alone. -/
def escapeUnits : Text → Text
  | [] => []
  | [u] => escapeUnit u
  | u :: v :: rest =>
    if isHighSurrogate u && isLowSurrogate v then u :: v :: escapeUnits rest else escapeUnit u ++ escapeUnits (v :: rest)

def quote (s : Text) : Text := 0x22 :: escapeUnits s ++ [0x22]

mutual

/-- The text that is written. -/
def Tree.render : Tree → Text
  | .null => ascii "null"
  | .bool true => ascii "true"
  | .bool false => ascii "false"
  | .number text => text
  | .string s => quote s
  | .array items => ascii "[" ++ renderItems items ++ ascii "]"
  | .object fields => ascii "\x7b" ++ renderFields fields ++ ascii "\x7d"

def renderItems : List Tree → Text
  | [] => []
  | [t] => t.render
  | t :: rest => t.render ++ ascii "," ++ renderItems rest

def renderFields : List (Text × Tree) → Text
  | [] => []
  | [(key, t)] => quote key ++ ascii ":" ++ t.render
  | (key, t) :: rest => quote key ++ ascii ":" ++ t.render ++ ascii "," ++ renderFields rest

end

/-- `Buffer.byteLength(text, 'utf8')`. -/
def byteLength : Text → ℕ
  | [] => 0
  | [u] => if u < 0x80 then 1 else if u < 0x800 then 2 else 3
  | u :: v :: rest =>
    if isHighSurrogate u && isLowSurrogate v then 4 + byteLength rest
    else (if u < 0x80 then 1 else if u < 0x800 then 2 else 3) + byteLength (v :: rest)

/-! ### Strings that occur -/

/-- `s` is a string in the tree; keys are none. -/
inductive Tree.Has : Tree → Text → Prop where
  | here (s : Text) : Has (.string s) s
  | item {items t s} (hmem : t ∈ items) (h : Has t s) : Has (.array items) s
  | field {fields key t s} (hmem : (key, t) ∈ fields) (h : Has t s) : Has (.object fields) s

/-- `s` is a string in the value, so many objects deep. -/
inductive Value.Has (heap : List Object) : ℕ → Value → Text → Prop where
  | here (s : Text) : Has heap 0 (.string s) s
  | inside {level p o key v s} (ho : heap[p]? = some o) (hkind : o.kind ≠ .callable) (hmem : (key, some v) ∈ o.properties)
    (h : Has heap level v s) : Has heap (level + 1) (.object p) s

/-! ### Lists of outcomes -/

theorem mapM_mem {α β : Type} {f : α → Option β} {xs : List α} {ys : List β} (h : xs.mapM f = some ys) {y : β} (hy : y ∈ ys) :
    ∃ x ∈ xs, f x = some y := by
  induction xs generalizing ys with
  | nil =>
    cases h
    cases hy
  | cons x xs ih =>
    rw [List.mapM_cons] at h
    obtain ⟨y', hy', h⟩ := Option.bind_eq_some_iff.mp h
    obtain ⟨rest, hrest, h⟩ := Option.bind_eq_some_iff.mp h
    cases h
    rcases List.mem_cons.mp hy with rfl | hy
    · exact ⟨x, List.mem_cons_self, hy'⟩
    · obtain ⟨x', hx', hf⟩ := ih hrest hy
      exact ⟨x', List.mem_cons_of_mem _ hx', hf⟩

theorem map_mapM {α β γ : Type} (f : α → Option β) (g : β → γ) (xs : List α) :
    (xs.mapM f).map (List.map g) = xs.mapM fun x => (f x).map g := by
  induction xs with
  | nil => rfl
  | cons x xs ih =>
    rw [List.mapM_cons, List.mapM_cons, ← ih]
    cases f x with
    | none => rfl
    | some y =>
      cases xs.mapM f with
      | none => rfl
      | some ys => rfl

theorem mapM_append {α β : Type} (f : α → Option β) (xs ys : List α) :
    (xs ++ ys).mapM f = (xs.mapM f).bind fun a => (ys.mapM f).map (a ++ ·) := by
  rw [List.mapM_append]
  cases xs.mapM f with
  | none => rfl
  | some a => cases ys.mapM f <;> rfl

theorem isSome_mapM {α β : Type} (f : α → Option β) (xs : List α) : (xs.mapM f).isSome = xs.all fun x => (f x).isSome := by
  induction xs with
  | nil => rfl
  | cons x xs ih =>
    rw [List.mapM_cons, List.all_cons, ← ih]
    cases f x with
    | none => rfl
    | some y => cases xs.mapM f <;> rfl

/-- What is seen of the outcomes is seen of what they come from. -/
theorem map_of_mapM {α β γ : Type} {f : α → Option β} {g : β → γ} {k : α → γ} (hgk : ∀ x y, f x = some y → g y = k x) {xs : List α}
    {ys : List β} (h : xs.mapM f = some ys) : ys.map g = xs.map k := by
  induction xs generalizing ys with
  | nil =>
    cases h
    rfl
  | cons x xs ih =>
    rw [List.mapM_cons] at h
    obtain ⟨y, hy, h⟩ := Option.bind_eq_some_iff.mp h
    obtain ⟨rest, hrest, h⟩ := Option.bind_eq_some_iff.mp h
    cases h
    rw [List.map_cons, List.map_cons, hgk x y hy, ih hrest]

theorem all_mapM {α β : Type} {f : α → Option β} {p : β → Bool} {q : α → Bool} (hpq : ∀ x y, f x = some y → p y = q x) {xs : List α}
    {ys : List β} (h : xs.mapM f = some ys) : ys.all p = xs.all q := by
  have hmap := congrArg (List.all · id) (map_of_mapM hpq h)
  rwa [List.all_map, List.all_map] at hmap

section Engine

variable {env : Engine}

theorem write_string (room : ℕ) (s : Text) : env.write room (.string s) = some (some (.string s)) := by
  unfold Engine.write
  rfl

@[simp] theorem stringify_string (s : Text) : env.stringify (.string s) = some (some (.string s)) := write_string env.stack s

/-- Only a string is written as a string, and objects may contain one. -/
theorem write_scalar {room : ℕ} {v : Value} {tree : Tree} {t : Text} (hobject : ∀ p, v ≠ .object p) (hstring : ∀ s, v ≠ .string s)
    (h : env.write room v = some (some tree)) : ¬ tree.Has t := by
  unfold Engine.write at h
  intro ht
  cases v with
  | object p => exact hobject p rfl
  | string s => exact hstring s rfl
  | number text => cases text <;> cases h <;> cases ht
  | null =>
    cases h
    cases ht
  | bool b =>
    cases h
    cases ht
  | _ => cases h

/-- What is written for the items is written for each of them. -/
theorem writeItems_mem {items : List Built} {ts : List Tree} (h : env.writeItems items = some ts) {t : Tree} (ht : t ∈ ts) :
    ∃ b ∈ items, ∃ w, env.stringifyBuilt b = some w ∧ t = w.getD .null := by
  induction items generalizing ts with
  | nil =>
    cases h
    cases ht
  | cons b items ih =>
    rw [Engine.writeItems] at h
    obtain ⟨w, hw, h⟩ := Option.bind_eq_some_iff.mp h
    obtain ⟨rest, hrest, rfl⟩ := Option.map_eq_some_iff.mp h
    rcases List.mem_cons.mp ht with rfl | ht
    · exact ⟨b, List.mem_cons_self, w, hw, rfl⟩
    · obtain ⟨b', hb', hwritten⟩ := ih hrest ht
      exact ⟨b', List.mem_cons_of_mem _ hb', hwritten⟩

theorem writeFields_mem {fields : List (Text × Built)} {ts : List (Text × Tree)} (h : env.writeFields fields = some ts) {key : Text}
    {t : Tree} (ht : (key, t) ∈ ts) : ∃ b, (key, b) ∈ fields ∧ env.stringifyBuilt b = some (some t) := by
  induction fields generalizing ts with
  | nil =>
    cases h
    cases ht
  | cons field fields ih =>
    obtain ⟨key', b⟩ := field
    rw [Engine.writeFields] at h
    obtain ⟨w, hw, h⟩ := Option.bind_eq_some_iff.mp h
    obtain ⟨rest, hrest, rfl⟩ := Option.map_eq_some_iff.mp h
    cases w with
    | none =>
      obtain ⟨b', hb', hwritten⟩ := ih hrest ht
      exact ⟨b', List.mem_cons_of_mem _ hb', hwritten⟩
    | some w =>
      rcases List.mem_cons.mp ht with heq | ht
      · cases heq
        exact ⟨b, List.mem_cons_self, hw⟩
      · obtain ⟨b', hb', hwritten⟩ := ih hrest ht
        exact ⟨b', List.mem_cons_of_mem _ hb', hwritten⟩

end Engine

/-! ### Values that are JSON -/

mutual

/-- The value is this tree, as an object of its own kind for each array and each record in it. -/
inductive Represents (heap : List Object) : Value → Tree → Prop where
  | null : Represents heap .null .null
  | bool (b : Bool) : Represents heap (.bool b) (.bool b)
  | number (text : Text) : Represents heap (.number (some text)) (.number text)
  | string (s : Text) : Represents heap (.string s) (.string s)
  | array {p properties items} (hp : heap[p]? = some ⟨.array, properties, none⟩) (h : RepresentsItems heap properties items) :
    Represents heap (.object p) (.array items)
  | object {p properties fields} (hp : heap[p]? = some ⟨.ordinary, properties, none⟩) (h : RepresentsFields heap properties fields) :
    Represents heap (.object p) (.object fields)

inductive RepresentsItems (heap : List Object) : List (Text × Option Value) → List Tree → Prop where
  | nil : RepresentsItems heap [] []
  | cons {key v t properties items} (hv : Represents heap v t) (h : RepresentsItems heap properties items) :
    RepresentsItems heap ((key, some v) :: properties) (t :: items)

inductive RepresentsFields (heap : List Object) : List (Text × Option Value) → List (Text × Tree) → Prop where
  | nil : RepresentsFields heap [] []
  | cons {key v t properties fields} (hv : Represents heap v t) (h : RepresentsFields heap properties fields) :
    RepresentsFields heap ((key, some v) :: properties) ((key, t) :: fields)

end

mutual

/-- How deep the stack has to be. -/
def Tree.depth : Tree → ℕ
  | .array items => depthItems items + 1
  | .object fields => depthFields fields + 1
  | _ => 0

def depthItems : List Tree → ℕ
  | [] => 0
  | t :: rest => max t.depth (depthItems rest)

def depthFields : List (Text × Tree) → ℕ
  | [] => 0
  | (_, t) :: rest => max t.depth (depthFields rest)

end

theorem asked_of_represents {env : Engine} {v : Value} {t : Tree} (h : Represents env.heap v t) : env.asked v = some v := by
  cases h with
  | array hp h => simp [Engine.asked, hp]
  | object hp h => simp [Engine.asked, hp]
  | _ => rfl

mutual

theorem write_of_represents {env : Engine} {v : Value} {t : Tree} (h : Represents env.heap v t) (room : ℕ) (hroom : t.depth ≤ room) :
    env.write room v = some (some t) := by
  cases h with
  | @array p properties items hp h =>
    rw [Tree.depth] at hroom
    obtain ⟨room, rfl⟩ : ∃ n, room = n + 1 := ⟨room - 1, by omega⟩
    rw [Engine.write, hp]
    dsimp only
    rw [mapM_of_represents h room (by omega), Option.map_some, List.map_map]
    simp [Function.comp_def]
  | @object p properties fields hp h =>
    rw [Tree.depth] at hroom
    obtain ⟨room, rfl⟩ : ∃ n, room = n + 1 := ⟨room - 1, by omega⟩
    rw [Engine.write, hp]
    dsimp only
    rw [mapM_of_representsFields h room (by omega), Option.map_some, List.filterMap_map]
    simp
  | null => unfold Engine.write; rfl
  | bool b => unfold Engine.write; rfl
  | number text => unfold Engine.write; rfl
  | string s => unfold Engine.write; rfl

theorem mapM_of_represents {env : Engine} {properties : List (Text × Option Value)} {items : List Tree}
    (h : RepresentsItems env.heap properties items) (room : ℕ) (hroom : depthItems items ≤ room) :
    (properties.mapM fun (q : Text × Option Value) => q.2.bind fun v => (env.asked v).bind (env.write room)) = some (items.map some) := by
  cases h with
  | nil => rfl
  | cons hv h =>
    rw [depthItems] at hroom
    rw [List.mapM_cons, mapM_of_represents h room (by omega), Option.bind_some, asked_of_represents hv, Option.bind_some,
      write_of_represents hv room (by omega)]
    rfl

theorem mapM_of_representsFields {env : Engine} {properties : List (Text × Option Value)} {fields : List (Text × Tree)}
    (h : RepresentsFields env.heap properties fields) (room : ℕ) (hroom : depthFields fields ≤ room) :
    (properties.mapM fun (q : Text × Option Value) =>
      (q.2.bind fun v => (env.asked v).bind (env.write room)).map fun t => (q.1, t)) = some (fields.map fun f => (f.1, some f.2)) := by
  cases h with
  | nil => rfl
  | cons hv h =>
    rw [depthFields] at hroom
    rw [List.mapM_cons, mapM_of_representsFields h room (by omega), Option.bind_some, asked_of_represents hv, Option.bind_some,
      write_of_represents hv room (by omega)]
    rfl

end

/-- **A value that is JSON is written as it is.** -/
theorem stringify_of_represents {env : Engine} {v : Value} {t : Tree} (h : Represents env.heap v t) (hdepth : t.depth ≤ env.stack) :
    env.stringify v = some (some t) := by
  unfold Engine.stringify
  rw [asked_of_represents h, Option.bind_some, write_of_represents h env.stack hdepth]

end WebAudit.Lib.Values
