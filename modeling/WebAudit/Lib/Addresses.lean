import WebAudit.Lib.Concat
import WebAudit.Lib.Numerals
import WebAudit.Lib.Splits

/-!
# Internet addresses

The addresses of both versions, and the texts that stand for them: four numbers with dots, and the
forms of RFC 4291 with a zone of RFC 4007, where zeros may be left out once and the last two groups
may be written like an address of version 4.
-/

namespace WebAudit.Lib

open WebAudit.Lib.Uri (Text ascii dot)

def colon : ℕ := 0x3A

/-- `%`. -/
def percent : ℕ := 0x25

/-! ### Addresses -/

@[ext] structure Ipv4 where
  octets : List ℕ
  length_eq : octets.length = 4
  lt : ∀ o ∈ octets, o < 0x100
  deriving DecidableEq

@[ext] structure Ipv6 where
  groups : List ℕ
  length_eq : groups.length = 8
  lt : ∀ g ∈ groups, g < 0x10000
  deriving DecidableEq

namespace Ipv4

variable {a b : Ipv4} {u : ℕ}

theorem octets_eq (a : Ipv4) : ∃ p q r s, a.octets = [p, q, r, s] := by
  obtain ⟨octets, hlength, -⟩ := a
  rcases octets with _ | ⟨p, _ | ⟨q, _ | ⟨r, _ | ⟨s, _ | ⟨t, rest⟩⟩⟩⟩⟩
  all_goals first | exact ⟨_, _, _, _, rfl⟩ | simp at hlength

/-- The groups it is in an address of version 6. -/
def groups (a : Ipv4) : List ℕ :=
  match a.octets with
  | [p, q, r, s] => [0x100 * p + q, 0x100 * r + s]
  | _ => []

theorem groups_length (a : Ipv4) : a.groups.length = 2 := by
  obtain ⟨p, q, r, s, h⟩ := a.octets_eq
  unfold groups
  rw [h]
  rfl

/-- The only text it has. -/
def text (a : Ipv4) : Text := [dot].intercalate (a.octets.map decimalDigits)

theorem mem_text (h : u ∈ a.text) : u = dot ∨ (0x30 ≤ u ∧ u ≤ 0x39) := by
  rcases mem_intercalate h with h | ⟨part, hpart, hu⟩
  · exact .inl h
  · obtain ⟨n, -, rfl⟩ := List.mem_map.mp hpart
    exact .inr (mem_decimalDigits hu)

theorem colon_notMem_text (a : Ipv4) : colon ∉ a.text := by
  intro h
  rcases mem_text h with h | h
  · exact absurd h (by decide)
  · exact absurd h (by decide)

theorem dot_mem_text (a : Ipv4) : dot ∈ a.text := by
  obtain ⟨p, q, r, s, ho⟩ := a.octets_eq
  unfold text
  rw [ho]
  simp [List.intercalate_cons_cons]

theorem splitOn_text (a : Ipv4) : a.text.splitOn dot = a.octets.map decimalDigits := by
  refine List.splitOn_intercalate dot ?_ ?_
  · intro part hpart hdot
    obtain ⟨n, -, rfl⟩ := List.mem_map.mp hpart
    exact absurd (mem_decimalDigits hdot) (by decide)
  · obtain ⟨p, q, r, s, ho⟩ := a.octets_eq
    rw [ho]
    simp

theorem text_injective : Function.Injective text := by
  intro a b h
  have hsplit : a.octets.map decimalDigits = b.octets.map decimalDigits := by rw [← splitOn_text, ← splitOn_text, h]
  exact Ipv4.ext (decimalDigits_injective.list_map hsplit)

end Ipv4

namespace Ipv6

/-- The address of version 4 that an address below `::ffff:0:0` stands for. -/
def mapped (a : Ipv6) : Option Ipv4 :=
  match a.groups with
  | [0, 0, 0, 0, 0, 0xffff, g, g'] =>
    some
      { octets := [g / 0x100 % 0x100, g % 0x100, g' / 0x100 % 0x100, g' % 0x100]
        length_eq := rfl
        lt := by
          intro o ho
          simp only [List.mem_cons, List.not_mem_nil, or_false] at ho
          omega }
  | _ => none

/-- The groups of its /64. -/
def site (a : Ipv6) : List ℕ := a.groups.take 4

theorem site_length (a : Ipv6) : a.site.length = 4 := by
  unfold site
  rw [List.length_take, a.length_eq]
  rfl

theorem lt_of_mem_site {a : Ipv6} {g : ℕ} (h : g ∈ a.site) : g < 0x10000 := a.lt g (List.mem_of_mem_take h)

/-- The octets, from the highest. -/
def bytes (a : Ipv6) : List ℕ := a.groups.flatMap fun g => [g / 0x100, g % 0x100]

theorem bytes_length (a : Ipv6) : a.bytes.length = 16 := by
  unfold bytes
  simp [List.length_flatMap, a.length_eq]

theorem bytes_injective : Function.Injective bytes := by
  intro a b h
  refine Ipv6.ext (flatMap_injective (fun g => List.cons_ne_nil _ _) ?_ h)
  intro g g' r s heq
  simp only [List.cons_append, List.nil_append, List.cons.injEq] at heq
  exact ⟨by omega, heq.2.2⟩

end Ipv6

/-- The octets of the address of version 6 that maps it. -/
def Ipv4.mappedBytes (a : Ipv4) : List ℕ := List.replicate 10 0 ++ [0xff, 0xff] ++ a.octets

/-- A bit of octets, from the highest. -/
def bitAt (bytes : List ℕ) (i : ℕ) : Bool := (bytes.getD (i / 8) 0).testBit (7 - i % 8)

/-- The first `n` bits are the same. -/
def SamePrefix (n : ℕ) (bytes bytes' : List ℕ) : Prop := ∀ i < n, bitAt bytes i = bitAt bytes' i

/-! ### Texts of version 6 -/

/-- With colons between them. -/
def colons (pieces : List Text) : Text := [colon].intercalate pieces

theorem colons_cons (p : Text) (rest : List Text) : ∃ r, colons (p :: rest) = p ++ r := by
  unfold colons
  cases rest with
  | nil => exact ⟨[], by simp⟩
  | cons q rest =>
    rw [List.intercalate_cons_cons, List.append_assoc]
    exact ⟨_, rfl⟩

theorem splitOn_colons {pieces : List Text} (hne : pieces ≠ []) (h : ∀ p ∈ pieces, colon ∉ p) :
    (colons pieces).splitOn colon = pieces :=
  List.splitOn_intercalate colon h hne

/-- Pieces, and the groups they write: the last one may be an address of version 4. -/
inductive Pieces : List Text → List ℕ → Prop where
  | groups {pieces : List Text} (h : ∀ p ∈ pieces, IsGroup p) : Pieces pieces (pieces.map hexValue)
  | dotted {pieces : List Text} (h : ∀ p ∈ pieces, IsGroup p) (a : Ipv4) :
      Pieces (pieces ++ [a.text]) (pieces.map hexValue ++ a.groups)

/-- Without a zone. -/
inductive Bare : Text → List ℕ → Prop where
  | full {pieces : List Text} {groups : List ℕ} (h : Pieces pieces groups) (hlength : groups.length = 8) :
      Bare (colons pieces) groups
  /-- Where the colons are doubled, there are zeros. -/
  | compressed {front back : List Text} {groups : List ℕ} (hfront : ∀ p ∈ front, IsGroup p) (hback : Pieces back groups)
      (hlength : front.length + groups.length < 8) :
      Bare (colons front ++ [colon, colon] ++ colons back)
        (front.map hexValue ++ List.replicate (8 - (front.length + groups.length)) 0 ++ groups)

/-- A letter of a zone. -/
def IsZoneLetter (u : ℕ) : Prop :=
  (0x30 ≤ u ∧ u ≤ 0x39) ∨ (0x41 ≤ u ∧ u ≤ 0x5A) ∨ (0x61 ≤ u ∧ u ≤ 0x7A) ∨ u = 0x2D ∨ u = dot ∨ u = colon

/-- **The text stands for the address.** -/
inductive Spells : Text → Ipv6 → Prop where
  | bare {text : Text} {a : Ipv6} (h : Bare text a.groups) : Spells text a
  | zoned {text zone : Text} {a : Ipv6} (h : Bare text a.groups) (hne : zone ≠ []) (hzone : ∀ u ∈ zone, IsZoneLetter u) :
      Spells (text ++ percent :: zone) a

/-! ### Their letters -/

section Letters

variable {pieces : List Text} {groups : List ℕ} {text : Text} {u : ℕ}

theorem IsGroup.colon_notMem (h : IsGroup text) : colon ∉ text := fun hmem => absurd (h.letters _ hmem) (by decide)

theorem IsGroup.dot_notMem (h : IsGroup text) : dot ∉ text := fun hmem => absurd (h.letters _ hmem) (by decide)

/-- A hexadecimal digit or a full stop. -/
def IsPieceLetter (u : ℕ) : Prop := u = dot ∨ (0x30 ≤ u ∧ u ≤ 0x39) ∨ (0x41 ≤ u ∧ u ≤ 0x46) ∨ (0x61 ≤ u ∧ u ≤ 0x66)

instance : DecidablePred IsPieceLetter := fun u => by
  unfold IsPieceLetter
  infer_instance

theorem Ipv4.letters (a : Ipv4) : ∀ u ∈ a.text, IsPieceLetter u := by
  intro u hu
  rcases Ipv4.mem_text hu with h | h
  · exact .inl h
  · exact .inr (.inl h)

theorem Ipv4.text_ne_nil (a : Ipv4) : a.text ≠ [] := by
  intro h
  have hsplit := a.splitOn_text
  obtain ⟨p, q, r, s, ho⟩ := a.octets_eq
  rw [h, ho] at hsplit
  simp at hsplit

theorem Pieces.letters (h : Pieces pieces groups) : ∀ p ∈ pieces, p ≠ [] ∧ ∀ u ∈ p, IsPieceLetter u := by
  have hgroup {p : Text} (h : IsGroup p) : p ≠ [] ∧ ∀ u ∈ p, IsPieceLetter u := ⟨h.ne_nil, fun u hu => .inr (h.letters u hu)⟩
  intro p hp
  cases h with
  | groups h => exact hgroup (h p hp)
  | dotted h a =>
    rcases List.mem_append.mp hp with hp | hp
    · exact hgroup (h p hp)
    · rw [List.mem_singleton.mp hp]
      exact ⟨a.text_ne_nil, a.letters⟩

/-- No piece is empty, and none holds a colon. -/
theorem Pieces.colon_notMem (h : Pieces pieces groups) : ∀ p ∈ pieces, p ≠ [] ∧ colon ∉ p :=
  fun p hp => ⟨(h.letters p hp).1, fun hmem => absurd ((h.letters p hp).2 _ hmem) (by decide)⟩

/-- Written out in full, in lower case and without leading zeros. -/
theorem spells_hextets (a : Ipv6) : Spells (colons (a.groups.map hextet)) a := by
  have hgroups : (a.groups.map hextet).map hexValue = a.groups := by
    rw [List.map_map]
    exact (List.map_congr_left fun g hg => hexValue_hextet (a.lt g hg)).trans (List.map_id _)
  have hpieces : Pieces (a.groups.map hextet) a.groups := by
    have h : Pieces (a.groups.map hextet) ((a.groups.map hextet).map hexValue) := .groups fun p hp => by
      obtain ⟨g, hg, rfl⟩ := List.mem_map.mp hp
      exact isGroup_hextet (a.lt g hg)
    rwa [hgroups] at h
  exact .bare (.full hpieces a.length_eq)

theorem Pieces.groups_eq_nil (h : Pieces pieces groups) (hnil : pieces = []) : groups = [] := by
  cases h with
  | groups h => rw [hnil, List.map_nil]
  | dotted h a => simp at hnil

theorem Pieces.length_le (h : Pieces pieces groups) : groups.length ≤ pieces.length + 1 := by
  cases h with
  | groups h => simp
  | dotted h a => simp [a.groups_length]

theorem Bare.letters (h : Bare text groups) : ∀ u ∈ text, u = colon ∨ IsPieceLetter u := by
  have hcolons {pieces : List Text} {groups : List ℕ} (h : Pieces pieces groups) : ∀ u ∈ colons pieces, u = colon ∨ IsPieceLetter u := by
    intro u hu
    rcases mem_intercalate hu with hu | ⟨p, hp, hu⟩
    · exact .inl hu
    · exact .inr ((h.letters p hp).2 u hu)
  intro u hu
  cases h with
  | full h _ => exact hcolons h u hu
  | compressed hfront hback _ =>
    rcases List.mem_append.mp hu with hu | hu
    · rcases List.mem_append.mp hu with hu | hu
      · exact hcolons (.groups hfront) u hu
      · exact .inl (by simpa using hu)
    · exact hcolons hback u hu

theorem Bare.percent_notMem (h : Bare text groups) : percent ∉ text := fun hmem => absurd (h.letters _ hmem) (by decide)

theorem Bare.colon_mem (h : Bare text groups) : colon ∈ text := by
  cases h with
  | @full pieces _ h hlength =>
    have hle := h.length_le
    rcases pieces with _ | ⟨p, _ | ⟨q, rest⟩⟩
    · simp only [hlength, List.length_nil] at hle
      omega
    · simp only [hlength, List.length_cons, List.length_nil] at hle
      omega
    · unfold colons
      rw [List.intercalate_cons_cons]
      simp
  | compressed hfront hback _ => simp

theorem Spells.colon_mem {a : Ipv6} (h : Spells text a) : colon ∈ text := by
  cases h with
  | bare h => exact h.colon_mem
  | zoned h _ _ => exact List.mem_append_left _ h.colon_mem

/-- There is no bracket in it. -/
theorem Spells.bracket_notMem {a : Ipv6} (h : Spells text a) : 0x5B ∉ text := by
  intro hmem
  cases h with
  | bare h => exact absurd (h.letters _ hmem) (by decide)
  | zoned h _ hzone =>
    rcases List.mem_append.mp hmem with hmem | hmem
    · exact absurd (h.letters _ hmem) (by decide)
    · rcases List.mem_cons.mp hmem with hmem | hmem
      · exact absurd hmem (by decide)
      · exact absurd (hzone _ hmem) (by unfold IsZoneLetter; decide)

end Letters

end WebAudit.Lib
