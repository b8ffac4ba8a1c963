import WebAudit.Lib.Addresses
import WebAudit.SafeNet.Fetch

/-!
# The classes of addresses

Which addresses may be spoken to: `parseIpLiteral` reads a literal into bytes, `classifyHostAddress`
looks them up in two tables and takes apart the forms that carry an address of version 4 inside one
of version 6.

## The model

`isIPv4`, `isIPv6` and `BlockList` are a `Platform`; `Platform.Standard` says that it takes just the
standard literals, and that a list holds what begins with one of its prefixes.
-/

namespace WebAudit.SafeNet

open WebAudit.Lib
open WebAudit.Lib.Uri

/-! ### The platform -/

inductive Family where
  | ipv4
  | ipv6
  deriving DecidableEq

/-- What `addSubnet` is called with. -/
structure Subnet where
  address : Text
  bits : ℕ
  family : Family

structure Platform where
  isIPv4 : Text → Bool
  isIPv6 : Text → Bool
  /-- `block.check(address, type)`. -/
  check : List Subnet → Text → Family → Bool

/-- The bytes begin like the subnet; those of version 4 count as mapped. -/
def Subnet.Covers (subnet : Subnet) (bytes : List ℕ) : Prop :=
  match subnet.family with
  | .ipv4 => ∃ a : Ipv4, a.text = subnet.address ∧ SamePrefix (96 + subnet.bits) a.mappedBytes bytes
  | .ipv6 => ∃ a : Ipv6, Spells subnet.address a ∧ SamePrefix subnet.bits a.bytes bytes

structure Platform.Standard (platform : Platform) : Prop where
  isIPv4_iff : ∀ text, platform.isIPv4 text = true ↔ ∃ a : Ipv4, a.text = text
  isIPv6_iff : ∀ text, platform.isIPv6 text = true ↔ ∃ a, Spells text a
  check_v4 : ∀ block (a : Ipv4), platform.check block a.text .ipv4 = true ↔ ∃ subnet ∈ block, subnet.Covers a.mappedBytes
  check_v6 : ∀ block text a, Spells text a → (platform.check block text .ipv6 = true ↔ ∃ subnet ∈ block, subnet.Covers a.bytes)

/-! ### The tables -/

structure ClassRule where
  addressClass : String
  block : List Subnet

def rule (platform : Platform) (addressClass : String) (subnets : List (String × ℕ)) : ClassRule where
  addressClass := addressClass
  block := subnets.map fun subnet =>
    { address := ascii subnet.1, bits := subnet.2, family := if platform.isIPv6 (ascii subnet.1) then .ipv6 else .ipv4 }

/-- `IPV4_CLASSES`. -/
def ipv4Classes (platform : Platform) : List ClassRule :=
  [rule platform "METADATA" [("169.254.169.254", 32), ("100.100.100.200", 32), ("192.0.0.192", 32)],
   rule platform "UNSPECIFIED" [("0.0.0.0", 8)],
   rule platform "LOOPBACK" [("127.0.0.0", 8)],
   rule platform "PRIVATE" [("10.0.0.0", 8), ("172.16.0.0", 12), ("192.168.0.0", 16)],
   rule platform "SHARED" [("100.64.0.0", 10)],
   rule platform "LINK_LOCAL" [("169.254.0.0", 16)],
   rule platform "SIX_TO_FOUR_RELAY" [("192.88.99.0", 24)],
   rule platform "PROTOCOL_ASSIGNMENT" [("192.0.0.0", 24)],
   rule platform "DOCUMENTATION" [("192.0.2.0", 24), ("198.51.100.0", 24), ("203.0.113.0", 24)],
   rule platform "BENCHMARKING" [("198.18.0.0", 15)],
   rule platform "MULTICAST" [("224.0.0.0", 4)],
   rule platform "BROADCAST" [("255.255.255.255", 32)],
   rule platform "RESERVED" [("240.0.0.0", 4)]]

/-- `IPV6_CLASSES`. -/
def ipv6Classes (platform : Platform) : List ClassRule :=
  [rule platform "METADATA" [("fd00:ec2::254", 128)],
   rule platform "DISCARD" [("100::", 64)],
   rule platform "UNIQUE_LOCAL" [("fc00::", 7)],
   rule platform "LINK_LOCAL" [("fe80::", 10)],
   rule platform "SITE_LOCAL_RESERVED" [("fe00::", 8)],
   rule platform "MULTICAST" [("ff00::", 8)],
   rule platform "DOCUMENTATION" [("2001:db8::", 32), ("3fff::", 20)],
   rule platform "PROTOCOL_ASSIGNMENT" [("2001::", 23), ("5f00::", 16), ("2620:4f:8000::", 48)]]

/-! ### Reading a literal -/

/-- `Uint8Array` keeps eight bits of a number. -/
def ipv4ToBytes (address : Text) : List ℕ :=
  (List.range 4).map fun i => decimalValue ((address.splitOn dot).getD i []) % 0x100

/-- `split('::')`. -/
def splitDouble : Text → List Text
  | [] => [[]]
  | [u] => [[u]]
  | u :: v :: rest =>
    if u = colon ∧ v = colon then [] :: splitDouble rest
    else (splitDouble (v :: rest)).modifyHead (u :: ·)

/-- The loop of `parseGroups`, from the groups that were read. -/
def parseGroupsFrom (platform : Platform) : List ℕ → List Text → Option (List ℕ)
  | groups, [] => some groups
  | groups, group :: rest =>
    if group.contains dot then
      if platform.isIPv4 group then
        let quad := ipv4ToBytes group
        parseGroupsFrom platform
          (groups ++ [(quad.getD 0 0 <<< 8) ||| quad.getD 1 0, (quad.getD 2 0 <<< 8) ||| quad.getD 3 0]) rest
      else none
    else if IsGroup group then parseGroupsFrom platform (groups ++ [hexValue group]) rest
    else none

def parseGroups (platform : Platform) (part : Text) : Option (List ℕ) :=
  if part = [] then some [] else parseGroupsFrom platform [] (part.splitOn colon)

/-- The two bytes of each of the eight groups. -/
def groupBytes (groups : List ℕ) : List ℕ :=
  (List.range 8).flatMap fun i => [(groups.getD i 0 >>> 8) &&& 0xff, groups.getD i 0 &&& 0xff]

def ipv6ToBytes (platform : Platform) (address : Text) : Option (List ℕ) :=
  let bare := address.takeWhile (· ≠ percent)
  let halves := splitDouble bare
  if halves.length > 2 then none
  else
    match parseGroups platform (halves.getD 0 []) with
    | none => none
    | some head =>
      match if halves.length = 2 then parseGroups platform (halves.getD 1 []) else some [] with
      | none => none
      | some tail =>
        if halves.length = 1 then
          if head.length ≠ 8 then none else some (groupBytes head)
        else if 8 < head.length + tail.length + 1 then none
        else some (groupBytes (head ++ List.replicate (8 - head.length - tail.length) 0 ++ tail))

def parseIpLiteral (platform : Platform) (host : Text) : Option ParsedAddress :=
  if host.length = 0 then none
  else
    let bare := if startsWith host (ascii "[") && endsWith host (ascii "]") then (host.drop 1).dropLast else host
    if platform.isIPv4 bare then some ⟨4, bare, ipv4ToBytes bare⟩
    else if platform.isIPv6 bare then
      match ipv6ToBytes platform bare with
      | none => none
      | some bytes => some ⟨6, bare, bytes⟩
    else none

/-! ### Classes -/

def matchClasses (platform : Platform) (rules : List ClassRule) (parsed : ParsedAddress) : Option String :=
  let type := if parsed.version = 4 then Family.ipv4 else .ipv6
  (rules.find? fun rule => platform.check rule.block parsed.address type).map (·.addressClass)

def verdict (addressClass : Option String) (policy : AddressPolicy) : AddressVerdict :=
  match addressClass with
  | none => ⟨true, "PUBLIC"⟩
  | some addressClass =>
    if addressClass = "LOOPBACK" ∧ policy.allowLoopback = true then ⟨true, addressClass⟩ else ⟨false, addressClass⟩

/-- Numbers with dots between them. -/
def dotted (octets : List ℕ) : Text := [dot].intercalate (octets.map decimalDigits)

def bytesToIpv4 (bytes : List ℕ) (offset : ℕ) (mask : ℕ) : Text :=
  dotted ([0, 1, 2, 3].map fun i => bytes.getD (offset + i) 0 ^^^ mask)

def allZero (bytes : List ℕ) (first last : ℕ) : Bool :=
  (List.range' first (last - first)).all fun i => bytes.getD i 0 = 0

/-- `RFC6052_PREFIX_BITS`. -/
def rfc6052PrefixBits : List ℕ := [96, 64, 56, 48, 40, 32]

/-- The loop of `rfc6052Ipv4`, for so many octets from a bit. -/
def rfc6052Octets (bytes : List ℕ) : ℕ → ℕ → List ℕ
  | 0, _ => []
  | n + 1, bit =>
    let bit := if bit = 64 then 72 else bit
    bytes.getD (bit / 8) 0 :: rfc6052Octets bytes n (bit + 8)

def rfc6052Ipv4 (bytes : List ℕ) (bits : ℕ) : Text := dotted (rfc6052Octets bytes 4 bits)

def embeddedIpv4 (bytes : List ℕ) : Option (List Text) :=
  let byte := fun i => bytes.getD i 0
  if allZero bytes 0 10 ∧ byte 10 = 0xff ∧ byte 11 = 0xff then some [bytesToIpv4 bytes 12 0]
  else if allZero bytes 0 8 ∧ byte 8 = 0xff ∧ byte 9 = 0xff ∧ allZero bytes 10 12 then some [bytesToIpv4 bytes 12 0]
  else if byte 0 = 0 ∧ byte 1 = 0x64 ∧ byte 2 = 0xff ∧ byte 3 = 0x9b then some (rfc6052PrefixBits.map (rfc6052Ipv4 bytes))
  else if byte 0 = 0x20 ∧ byte 1 = 0x02 then some [bytesToIpv4 bytes 2 0]
  else if byte 0 = 0x20 ∧ byte 1 = 0x01 ∧ byte 2 = 0 ∧ byte 3 = 0 then some [bytesToIpv4 bytes 4 0, bytesToIpv4 bytes 12 0xff]
  else none

/-- The verdict on the first address within that is refused. -/
def embeddedVerdict (platform : Platform) (policy : AddressPolicy) : List Text → AddressVerdict
  | [] => ⟨false, "TRANSITION_TUNNEL"⟩
  | address :: rest =>
    match parseIpLiteral platform address with
    | none => embeddedVerdict platform policy rest
    | some inner =>
      let innerVerdict := verdict (matchClasses platform (ipv4Classes platform) inner) policy
      if innerVerdict.allowed then embeddedVerdict platform policy rest else innerVerdict

def classifyHostAddress (platform : Platform) (parsed : ParsedAddress) (policy : AddressPolicy) : AddressVerdict :=
  if parsed.version = 4 then verdict (matchClasses platform (ipv4Classes platform) parsed) policy
  else if allZero parsed.bytes 0 16 then verdict (some "UNSPECIFIED") policy
  else if allZero parsed.bytes 0 15 ∧ parsed.bytes.getD 15 0 = 1 then verdict (some "LOOPBACK") policy
  else
    match embeddedIpv4 parsed.bytes with
    | some embedded => embeddedVerdict platform policy embedded
    | none =>
      if allZero parsed.bytes 0 12 then verdict (some "IPV4_COMPATIBLE") policy
      else verdict (matchClasses platform (ipv6Classes platform) parsed) policy

/-! ### What the parser reads -/

section Reading

variable {platform : Platform} {text : Text} {pieces : List Text} {groups read : List ℕ} {p r : Text} {u v : ℕ}
  {a : Ipv6}

theorem ipv4ToBytes_text (a : Ipv4) : ipv4ToBytes a.text = a.octets := by
  obtain ⟨p, q, r, s, ho⟩ := a.octets_eq
  have hlt := a.lt
  rw [ho] at hlt
  unfold ipv4ToBytes
  rw [a.splitOn_text, ho]
  simp [List.range_succ, decimalValue_decimalDigits, Nat.mod_eq_of_lt (hlt p (by simp)), Nat.mod_eq_of_lt (hlt q (by simp)),
    Nat.mod_eq_of_lt (hlt r (by simp)), Nat.mod_eq_of_lt (hlt s (by simp))]

theorem splitDouble_cons (h : ¬ (u = colon ∧ r.head? = some colon)) :
    splitDouble (u :: r) = (splitDouble r).modifyHead (u :: ·) := by
  cases r with
  | nil => rfl
  | cons v r =>
    rw [splitDouble, if_neg]
    rintro ⟨hu, rfl⟩
    exact h ⟨hu, rfl⟩

theorem splitDouble_double (r : Text) : splitDouble ([colon, colon] ++ r) = [] :: splitDouble r := by
  rw [List.cons_append, List.cons_append, List.nil_append, splitDouble, if_pos ⟨rfl, rfl⟩]

theorem modifyHead_nil_append (l : List Text) : l.modifyHead (([] : Text) ++ ·) = l := by
  cases l <;> rfl

theorem splitDouble_append (h : colon ∉ p) (r : Text) : splitDouble (p ++ r) = (splitDouble r).modifyHead (p ++ ·) := by
  induction p with
  | nil => exact (modifyHead_nil_append _).symm
  | cons u p ih =>
    rw [List.mem_cons, not_or] at h
    rw [List.cons_append, splitDouble_cons fun hu => h.1 hu.1.symm, ih h.2, List.modifyHead_modifyHead]
    rfl

theorem splitDouble_colons (h : ∀ p ∈ pieces, p ≠ [] ∧ colon ∉ p) (r : Text) :
    splitDouble (colons pieces ++ r) = (splitDouble r).modifyHead (colons pieces ++ ·) := by
  induction pieces with
  | nil => exact (modifyHead_nil_append _).symm
  | cons p rest ih =>
    have hp := h p (List.mem_cons_self ..)
    cases rest with
    | nil =>
      unfold colons
      rw [List.intercalate_singleton]
      exact splitDouble_append hp.2 r
    | cons q rest =>
      obtain ⟨hq, hcolon⟩ := h q (List.mem_cons_of_mem _ (List.mem_cons_self ..))
      have hhead : (colons (q :: rest) ++ r).head? ≠ some colon := by
        obtain ⟨more, hmore⟩ := colons_cons q rest
        rw [hmore, List.append_assoc]
        cases q with
        | nil => exact absurd rfl hq
        | cons v q =>
          rintro ⟨⟩
          exact hcolon (List.mem_cons_self ..)
      have hcolons : colons (p :: q :: rest) = p ++ [colon] ++ colons (q :: rest) := List.intercalate_cons_cons ..
      rw [hcolons, List.append_assoc, List.append_assoc, splitDouble_append hp.2, List.singleton_append,
        splitDouble_cons fun hu => hhead hu.2, ih fun p hp => h p (List.mem_cons_of_mem _ hp), List.modifyHead_modifyHead,
        List.modifyHead_modifyHead]
      congr 1
      funext t
      simp

theorem parseGroupsFrom_groups (h : ∀ p ∈ pieces, IsGroup p) (rest : List Text) :
    parseGroupsFrom platform read (pieces ++ rest) = parseGroupsFrom platform (read ++ pieces.map hexValue) rest := by
  induction pieces generalizing read with
  | nil => simp
  | cons p pieces ih =>
    have hp := h p (List.mem_cons_self ..)
    rw [List.cons_append, parseGroupsFrom, if_neg (by simpa using hp.dot_notMem), if_pos hp,
      ih fun p hp => h p (List.mem_cons_of_mem _ hp)]
    simp

theorem quad_groups (a : Ipv4) :
    [(a.octets.getD 0 0 <<< 8) ||| a.octets.getD 1 0, (a.octets.getD 2 0 <<< 8) ||| a.octets.getD 3 0] = a.groups := by
  obtain ⟨p, q, r, s, ho⟩ := a.octets_eq
  have hlt := a.lt
  unfold Ipv4.groups
  rw [ho] at hlt ⊢
  have hq : q < 2 ^ 8 := hlt q (by simp)
  have hs : s < 2 ^ 8 := hlt s (by simp)
  simp only [List.getD_cons_zero, List.getD_cons_succ]
  rw [← Nat.shiftLeft_add_eq_or_of_lt hq, ← Nat.shiftLeft_add_eq_or_of_lt hs, Nat.shiftLeft_eq, Nat.shiftLeft_eq,
    Nat.mul_comm p, Nat.mul_comm r]

theorem parseGroups_colons (hv4 : ∀ text, platform.isIPv4 text = true ↔ ∃ a : Ipv4, a.text = text) (h : Pieces pieces groups) :
    parseGroups platform (colons pieces) = some groups := by
  have hletters := h.colon_notMem
  by_cases hne : pieces = []
  · rw [h.groups_eq_nil hne, hne]
    rfl
  · have hfrom : parseGroupsFrom platform [] pieces = some groups := by
      cases h with
      | groups h =>
        have hread : parseGroupsFrom platform [] (pieces ++ []) = some (pieces.map hexValue) := parseGroupsFrom_groups h []
        rwa [List.append_nil] at hread
      | dotted h a =>
        rw [parseGroupsFrom_groups h, parseGroupsFrom, if_pos (by simpa using a.dot_mem_text),
          if_pos ((hv4 _).mpr ⟨a, rfl⟩)]
        dsimp only
        rw [ipv4ToBytes_text, quad_groups]
        rfl
    have hcolons : colons pieces ≠ [] := by
      obtain ⟨p, rest, rfl⟩ := List.exists_cons_of_ne_nil hne
      obtain ⟨more, hmore⟩ := colons_cons p rest
      rw [hmore]
      exact List.append_ne_nil_of_left_ne_nil (hletters p (List.mem_cons_self ..)).1 more
    unfold parseGroups
    rw [if_neg hcolons, splitOn_colons hne fun p hp => (hletters p hp).2, hfrom]

theorem groupBytes_eq (a : Ipv6) : groupBytes a.groups = a.bytes := by
  have hbyte {g : ℕ} (hg : g ∈ a.groups) : [(g >>> 8) &&& 0xff, g &&& 0xff] = [g / 0x100, g % 0x100] := by
    have hlt := a.lt g hg
    rw [show (0xff : ℕ) = 2 ^ 8 - 1 from rfl, Nat.and_two_pow_sub_one_eq_mod, Nat.and_two_pow_sub_one_eq_mod,
      Nat.shiftRight_eq_div_pow, Nat.mod_eq_of_lt (by omega)]
  have hgroups : a.groups = (List.range 8).map fun i => a.groups.getD i 0 := by
    refine List.ext_getElem (by simp [a.length_eq]) fun i hi _ => ?_
    simp [List.getElem?_eq_getElem hi]
  unfold groupBytes Ipv6.bytes
  nth_rewrite 3 [hgroups]
  rw [List.flatMap_map]
  refine List.flatMap_congr fun i hi => hbyte ?_
  have hlt : i < a.groups.length := by simpa [a.length_eq] using hi
  rw [List.getD_eq_getElem?_getD, List.getElem?_eq_getElem hlt]
  exact List.getElem_mem _

theorem ipv6ToBytes_bare (hv4 : ∀ text, platform.isIPv4 text = true ↔ ∃ a : Ipv4, a.text = text)
    (h : Bare text groups) (hbare : p.takeWhile (· ≠ percent) = text) :
    ipv6ToBytes platform p = some (groupBytes groups) := by
  unfold ipv6ToBytes
  rw [hbare]
  dsimp only
  cases h with
  | @full pieces _ h hlength =>
    have hhalves := splitDouble_colons h.colon_notMem []
    rw [List.append_nil] at hhalves
    rw [hhalves]
    simp [splitDouble, parseGroups_colons hv4 h, hlength]
  | @compressed front back groups hfront hback hlength =>
    have hfront' : Pieces front (front.map hexValue) := .groups hfront
    have hhalves := splitDouble_colons hfront'.colon_notMem
      ([colon, colon] ++ colons back)
    have hback' := splitDouble_colons hback.colon_notMem []
    rw [List.append_nil] at hback'
    rw [splitDouble_double, hback', ← List.append_assoc] at hhalves
    rw [hhalves]
    have hfill : ¬ 8 < front.length + groups.length + 1 := by omega
    simp [splitDouble, parseGroups_colons hv4 hfront', parseGroups_colons hv4 hback, hfill, Nat.sub_sub]

/-- **The parser gives a literal the bytes of its address.** -/
theorem ipv6ToBytes_spells (hv4 : ∀ text, platform.isIPv4 text = true ↔ ∃ a : Ipv4, a.text = text) (h : Spells text a) : ipv6ToBytes platform text = some a.bytes := by
  have hletters {text : Text} {groups : List ℕ} (h : Bare text groups) : ∀ u ∈ text, decide (u ≠ percent) = true :=
    fun u hu => decide_eq_true fun heq => h.percent_notMem (heq ▸ hu)
  cases h with
  | bare h =>
    refine (ipv6ToBytes_bare hv4 h ?_).trans (congrArg some (groupBytes_eq a))
    have htake : (text ++ []).takeWhile (· ≠ percent) = text ++ [] := List.takeWhile_append_of_pos (hletters h)
    rwa [List.append_nil] at htake
  | zoned h hne hzone =>
    refine (ipv6ToBytes_bare hv4 h ?_).trans (congrArg some (groupBytes_eq a))
    rw [List.takeWhile_append_of_pos (hletters h), List.takeWhile_cons_of_neg (by simp), List.append_nil]

/-- A literal as it stands, or in brackets. -/
def HostOf (host text : Text) : Prop := host = text ∨ host = ascii "[" ++ text ++ ascii "]"

theorem unbracketed {host : Text} (h : HostOf host text) (hno : 0x5B ∉ text) :
    (if startsWith host (ascii "[") && endsWith host (ascii "]") then (host.drop 1).dropLast else host) = text := by
  rcases h with rfl | rfl
  · rw [if_neg]
    rw [Bool.and_eq_true]
    rintro ⟨hstart, -⟩
    obtain ⟨r, hr⟩ := List.isPrefixOf_iff_prefix.mp hstart
    exact hno (hr ▸ List.mem_cons_self ..)
  · rw [if_pos]
    · exact List.dropLast_concat
    · rw [Bool.and_eq_true]
      refine ⟨List.isPrefixOf_iff_prefix.mpr ?_, endsWith_iff.mpr ⟨ascii "[" ++ text, rfl⟩⟩
      rw [List.append_assoc]
      exact List.prefix_append _ _

theorem parseIpLiteral_v4 (hplatform : platform.Standard) (a : Ipv4) {host : Text} (h : HostOf host a.text) :
    parseIpLiteral platform host = some ⟨4, a.text, a.octets⟩ := by
  have hne : host ≠ [] := by
    rcases h with rfl | rfl
    · exact a.text_ne_nil
    · simp [ascii]
  unfold parseIpLiteral
  rw [if_neg (by simpa using hne), unbracketed h fun hmem => absurd (a.letters _ hmem) (by decide)]
  dsimp only
  rw [if_pos ((hplatform.isIPv4_iff _).mpr ⟨a, rfl⟩), ipv4ToBytes_text]

theorem parseIpLiteral_v6 (hplatform : platform.Standard) (hspells : Spells text a) {host : Text} (h : HostOf host text) :
    parseIpLiteral platform host = some ⟨6, text, a.bytes⟩ := by
  have hne : host ≠ [] := by
    rcases h with rfl | rfl
    · exact List.ne_nil_of_mem hspells.colon_mem
    · simp [ascii]
  have hv4 : ¬ platform.isIPv4 text = true := by
    rw [hplatform.isIPv4_iff]
    rintro ⟨b, rfl⟩
    exact b.colon_notMem_text hspells.colon_mem
  unfold parseIpLiteral
  rw [if_neg (by simpa using hne), unbracketed h hspells.bracket_notMem]
  dsimp only
  rw [if_neg hv4, if_pos ((hplatform.isIPv6_iff _).mpr ⟨a, hspells⟩), ipv6ToBytes_spells hplatform.isIPv4_iff hspells]

/-- What is read is a literal, with the bytes of its address. -/
theorem of_parseIpLiteral (hplatform : platform.Standard) {host : Text} {parsed : ParsedAddress}
    (h : parseIpLiteral platform host = some parsed) :
    (∃ b : Ipv4, parsed = ⟨4, b.text, b.octets⟩) ∨ ∃ text a, Spells text a ∧ parsed = ⟨6, text, a.bytes⟩ := by
  unfold parseIpLiteral at h
  generalize (if startsWith host (ascii "[") && endsWith host (ascii "]") then (host.drop 1).dropLast else host) = bare at h
  dsimp only at h
  split at h
  · cases h
  split at h
  · rename_i hv4
    obtain ⟨b, hb⟩ := (hplatform.isIPv4_iff _).mp hv4
    cases h
    rw [← hb, ipv4ToBytes_text]
    exact .inl ⟨b, rfl⟩
  split at h
  · rename_i hv6
    obtain ⟨a, ha⟩ := (hplatform.isIPv6_iff _).mp hv6
    rw [ipv6ToBytes_spells hplatform.isIPv4_iff ha] at h
    cases h
    exact .inr ⟨_, a, ha, rfl⟩
  · cases h

end Reading

/-! ### What is refused -/

section Refusals

variable {platform : Platform} {policy : AddressPolicy} {text : Text} {a : Ipv6} {parsed parsed' : ParsedAddress} {bytes : List ℕ}

/-- The tables are matched on the text, and see its address only. -/
theorem matchClasses_v6 (hplatform : platform.Standard) (rules : List ClassRule) {text' : Text} {bytes bytes' : List ℕ}
    (h : Spells text a) (h' : Spells text' a) :
    matchClasses platform rules ⟨6, text, bytes⟩ = matchClasses platform rules ⟨6, text', bytes'⟩ := by
  have hcheck (block : List Subnet) : platform.check block text .ipv6 = platform.check block text' .ipv6 := by
    rw [Bool.eq_iff_iff, hplatform.check_v6 block text a h, hplatform.check_v6 block text' a h']
  unfold matchClasses
  simp only [show ¬ (6 : ℕ) = 4 by decide, if_false, hcheck]

/-- **The verdict depends on the address only.** -/
theorem classifyHostAddress_congr (hplatform : platform.Standard) {host host' : Text}
    (h : parseIpLiteral platform host = some parsed) (h' : parseIpLiteral platform host' = some parsed')
    (hbytes : parsed.bytes = parsed'.bytes) (policy : AddressPolicy) :
    classifyHostAddress platform parsed policy = classifyHostAddress platform parsed' policy := by
  rcases of_parseIpLiteral hplatform h with ⟨b, rfl⟩ | ⟨text, a, hspells, rfl⟩
  · rcases of_parseIpLiteral hplatform h' with ⟨b', rfl⟩ | ⟨text', a', hspells', rfl⟩
    · rw [Ipv4.ext hbytes]
    · have hlength := congrArg List.length hbytes
      dsimp only at hlength
      rw [b.length_eq, Ipv6.bytes_length] at hlength
      cases hlength
  · rcases of_parseIpLiteral hplatform h' with ⟨b', rfl⟩ | ⟨text', a', hspells', rfl⟩
    · have hlength := congrArg List.length hbytes
      dsimp only at hlength
      rw [b'.length_eq, Ipv6.bytes_length] at hlength
      cases hlength
    · obtain rfl := Ipv6.bytes_injective hbytes
      unfold classifyHostAddress
      dsimp only
      rw [matchClasses_v6 hplatform (ipv6Classes platform) hspells hspells']
      rfl

/-- What is said of an address within another is never that it may be spoken to. -/
theorem embeddedVerdict_refused (addresses : List Text) : (embeddedVerdict platform policy addresses).allowed = false := by
  induction addresses with
  | nil => rfl
  | cons address rest ih =>
    unfold embeddedVerdict
    split
    · exact ih
    · dsimp only
      split
      · exact ih
      · rename_i h
        exact Bool.eq_false_iff.mpr h

theorem verdict_refused {addressClass : String} (h : addressClass ≠ "LOOPBACK") : (verdict (some addressClass) policy).allowed = false := by
  unfold verdict
  dsimp only
  rw [if_neg fun hloop => h hloop.1]

/-- An address that carries one of version 4 is refused, unless it is `::1`. -/
theorem classify_refused {version : ℕ} (hversion : version ≠ 4)
    (hloop : ¬ (allZero bytes 0 15 ∧ bytes.getD 15 0 = 1)) (h : (embeddedIpv4 bytes).isSome ∨ allZero bytes 0 12) :
    (classifyHostAddress platform ⟨version, text, bytes⟩ policy).allowed = false := by
  unfold classifyHostAddress
  dsimp only
  rw [if_neg hversion]
  by_cases hzero : allZero bytes 0 16
  · rw [if_pos hzero]
    exact verdict_refused (by decide)
  · rw [if_neg hzero, if_neg hloop]
    split
    · exact embeddedVerdict_refused _
    · rename_i hnone
      rw [if_pos (h.resolve_left (by simp [hnone]))]
      exact verdict_refused (by decide)

theorem allZero_iff {first last : ℕ} :
    allZero bytes first last = true ↔ ∀ i, first ≤ i → i < last → bytes.getD i 0 = 0 := by
  unfold allZero
  simp only [List.all_eq_true, List.mem_range'_1, decide_eq_true_eq, and_imp]
  exact forall_congr' fun i => ⟨fun h hi hi' => h hi (by omega), fun h hi hi' => h hi (by omega)⟩

/-- The five forms that are taken apart. -/
theorem embeddedIpv4_isSome
    (h : (allZero bytes 0 10 ∧ bytes.getD 10 0 = 0xff ∧ bytes.getD 11 0 = 0xff) ∨
      (allZero bytes 0 8 ∧ bytes.getD 8 0 = 0xff ∧ bytes.getD 9 0 = 0xff ∧ allZero bytes 10 12) ∨
      (bytes.getD 0 0 = 0 ∧ bytes.getD 1 0 = 0x64 ∧ bytes.getD 2 0 = 0xff ∧ bytes.getD 3 0 = 0x9b) ∨
      (bytes.getD 0 0 = 0x20 ∧ bytes.getD 1 0 = 0x02) ∨
      (bytes.getD 0 0 = 0x20 ∧ bytes.getD 1 0 = 0x01 ∧ bytes.getD 2 0 = 0 ∧ bytes.getD 3 0 = 0)) :
    (embeddedIpv4 bytes).isSome = true := by
  unfold embeddedIpv4
  dsimp only
  split_ifs with h1 h2 h3 h4 h5
  · rfl
  · rfl
  · rfl
  · rfl
  · rfl
  · exact absurd h (by simp only [h1, h2, h3, h4, h5, or_self, not_false_iff])

end Refusals

/-! ### Addresses within addresses -/

/-- The ways to carry an address of version 4; NAT64 under a prefix of so many bits. -/
inductive Embedding where
  | mapped
  | translated
  | compatible
  | sixToFour
  | teredoServer
  | teredoClient
  | nat64 (bits : ℕ)

/-- These bytes carry the address in that way. Below the prefix of NAT64 the octet that holds bits 64 to 71 is left out. -/
def Embeds (v : Ipv4) (bytes : List ℕ) : Embedding → Prop
  | .mapped => bytes = List.replicate 10 0 ++ [0xff, 0xff] ++ v.octets
  | .translated => bytes = List.replicate 8 0 ++ [0xff, 0xff, 0, 0] ++ v.octets
  | .compatible => bytes = List.replicate 12 0 ++ v.octets
  | .sixToFour => ∃ rest, bytes = [0x20, 0x02] ++ v.octets ++ rest
  | .teredoServer => ∃ rest, bytes = [0x20, 0x01, 0, 0] ++ v.octets ++ rest
  | .teredoClient => ∃ rest : List ℕ, rest.length = 8 ∧ bytes = [0x20, 0x01, 0, 0] ++ rest ++ v.octets.map (0xff - ·)
  | .nat64 bits =>
    ∃ front : List ℕ, 8 * front.length = bits ∧ [0, 0x64, 0xff, 0x9b] <+: front ∧
      ((bits = 96 ∧ bytes = front ++ v.octets) ∨
        bits ∈ [32, 40, 48, 56, 64] ∧ ∃ u rest, bytes = front ++ v.octets.take (8 - front.length) ++ u :: v.octets.drop (8 - front.length) ++ rest)

section Embeddings

variable {platform : Platform} {policy : AddressPolicy} {a : Ipv6} {v : Ipv4} {bytes : List ℕ}

/-- What carries an address of version 4 is taken apart, or has twelve zeros in front; and it is `::1` only for 0.0.0.1. -/
theorem embeds_cases {way : Embedding} (h : Embeds v bytes way) :
    ((embeddedIpv4 bytes).isSome ∨ allZero bytes 0 12) ∧
      (allZero bytes 0 15 ∧ bytes.getD 15 0 = 1 → way = .compatible ∧ v.octets = [0, 0, 0, 1]) := by
  have hnot {i u : ℕ} (hi : i < 15) (hbyte : bytes.getD i 0 = u) (hu : u ≠ 0) : ¬ (allZero bytes 0 15 ∧ bytes.getD 15 0 = 1) :=
    fun hloop => hu (hbyte.symm.trans (allZero_iff.mp hloop.1 i (Nat.zero_le _) hi))
  obtain ⟨p, q, r, s, ho⟩ := v.octets_eq
  cases way with
  | mapped =>
    unfold Embeds at h
    subst h
    refine ⟨.inl (embeddedIpv4_isSome (.inl ⟨rfl, rfl, rfl⟩)), fun hloop => absurd hloop (hnot (i := 10) (u := 0xff) (by decide) rfl (by decide))⟩
  | translated =>
    unfold Embeds at h
    subst h
    exact ⟨.inl (embeddedIpv4_isSome (.inr (.inl ⟨rfl, rfl, rfl, rfl⟩))), fun hloop => absurd hloop (hnot (i := 8) (u := 0xff) (by decide) rfl (by decide))⟩
  | compatible =>
    unfold Embeds at h
    rw [ho] at h ⊢
    subst h
    refine ⟨.inr rfl, fun hloop => ⟨rfl, ?_⟩⟩
    have hzero (i : ℕ) (hi : i < 15) := allZero_iff.mp hloop.1 i (Nat.zero_le _) hi
    obtain rfl : p = 0 := hzero 12 (by decide)
    obtain rfl : q = 0 := hzero 13 (by decide)
    obtain rfl : r = 0 := hzero 14 (by decide)
    obtain rfl : s = 1 := hloop.2
    rfl
  | sixToFour =>
    obtain ⟨rest, rfl⟩ := h
    exact ⟨.inl (embeddedIpv4_isSome (.inr (.inr (.inr (.inl ⟨rfl, rfl⟩))))),
      fun hloop => absurd hloop (hnot (i := 0) (u := 0x20) (by decide) rfl (by decide))⟩
  | teredoServer =>
    obtain ⟨rest, rfl⟩ := h
    exact ⟨.inl (embeddedIpv4_isSome (.inr (.inr (.inr (.inr ⟨rfl, rfl, rfl, rfl⟩))))),
      fun hloop => absurd hloop (hnot (i := 0) (u := 0x20) (by decide) rfl (by decide))⟩
  | teredoClient =>
    obtain ⟨rest, -, rfl⟩ := h
    exact ⟨.inl (embeddedIpv4_isSome (.inr (.inr (.inr (.inr ⟨rfl, rfl, rfl, rfl⟩))))),
      fun hloop => absurd hloop (hnot (i := 0) (u := 0x20) (by decide) rfl (by decide))⟩
  | nat64 bits =>
    obtain ⟨front, -, ⟨more, rfl⟩, hway⟩ := h
    obtain ⟨tail, rfl⟩ : ∃ tail, bytes = [0, 0x64, 0xff, 0x9b] ++ tail := by
      rcases hway with ⟨-, rfl⟩ | ⟨-, u, rest, rfl⟩
      · exact ⟨_, List.append_assoc ..⟩
      · simp only [List.append_assoc]
        exact ⟨_, rfl⟩
    exact ⟨.inl (embeddedIpv4_isSome (.inr (.inr (.inl ⟨rfl, rfl, rfl, rfl⟩)))),
      fun hloop => absurd hloop (hnot (i := 1) (u := 0x64) (by decide) rfl (by decide))⟩

/-- The host is a literal, and its address is refused. -/
def Refuses (platform : Platform) (policy : AddressPolicy) (host : Text) : Prop :=
  ∃ parsed, parseIpLiteral platform host = some parsed ∧ (classifyHostAddress platform parsed policy).allowed = false

/-- **Classification depends on the address, and refuses what carries a refused address of version 4**: the parser
gives every literal the bytes of its address; equal bytes have the same verdict; and an address that carries one of
version 4 which the policy refuses is refused itself, however it is written, but for the loopback address `::1`. -/
theorem classification (hplatform : platform.Standard) :
    (∀ text a, Spells text a → ipv6ToBytes platform text = some a.bytes) ∧
    (∀ host host' parsed parsed' policy, parseIpLiteral platform host = some parsed → parseIpLiteral platform host' = some parsed' →
      parsed.bytes = parsed'.bytes → classifyHostAddress platform parsed policy = classifyHostAddress platform parsed' policy) ∧
    (∀ (v : Ipv4) (way : Embedding) (a : Ipv6) (policy : AddressPolicy), Embeds v a.bytes way →
      ¬ (way = .compatible ∧ v.octets = [0, 0, 0, 1]) → Refuses platform policy v.text →
      ∀ host text, Spells text a → HostOf host text → Refuses platform policy host) := by
  refine ⟨fun text a => ipv6ToBytes_spells hplatform.isIPv4_iff, fun host host' parsed parsed' policy h h' hbytes =>
    classifyHostAddress_congr hplatform h h' hbytes policy, fun v way a policy hembeds hway _ host text hspells hhost => ?_⟩
  obtain ⟨hform, hloop⟩ := embeds_cases hembeds
  exact ⟨_, parseIpLiteral_v6 hplatform hspells hhost, classify_refused (by decide) (fun h => hway (hloop h)) hform⟩

/-! ### The loopback address -/

open Classical in
/-- A platform as it is documented. -/
noncomputable def standard : Platform where
  isIPv4 text := decide (∃ a : Ipv4, a.text = text)
  isIPv6 text := decide (∃ a, Spells text a)
  check block text family :=
    match family with
    | .ipv4 => decide (∃ a : Ipv4, a.text = text ∧ ∃ subnet ∈ block, subnet.Covers a.mappedBytes)
    | .ipv6 => decide (∃ a : Ipv6, Spells text a ∧ ∃ subnet ∈ block, subnet.Covers a.bytes)

theorem standard_isIPv4 (text : Text) : standard.isIPv4 text = true ↔ ∃ a : Ipv4, a.text = text := by
  unfold standard
  simp only [decide_eq_true_eq]

/-- A text stands for one address. -/
theorem spells_unique {text : Text} {b : Ipv6} (h : Spells text a) (h' : Spells text b) : a = b := by
  have hbytes := (ipv6ToBytes_spells standard_isIPv4 h).symm.trans (ipv6ToBytes_spells standard_isIPv4 h')
  exact Ipv6.bytes_injective (Option.some.inj hbytes)

theorem standard_standard : standard.Standard where
  isIPv4_iff := standard_isIPv4
  isIPv6_iff text := by
    unfold standard
    simp only [decide_eq_true_eq]
  check_v4 block a := by
    unfold standard
    simp only [decide_eq_true_eq]
    refine ⟨?_, fun h => ⟨a, rfl, h⟩⟩
    rintro ⟨b, hb, h⟩
    rwa [Ipv4.text_injective hb] at h
  check_v6 block text a hspells := by
    unfold standard
    simp only [decide_eq_true_eq]
    refine ⟨?_, fun h => ⟨a, hspells, h⟩⟩
    rintro ⟨b, hb, h⟩
    rwa [spells_unique hb hspells] at h

/-- 0.0.0.1. -/
def one : Ipv4 := ⟨[0, 0, 0, 1], rfl, by decide⟩

/-- `::1`. -/
def loopback : Ipv6 := ⟨[0, 0, 0, 0, 0, 0, 0, 1], rfl, by decide⟩

theorem spells_loopback : Spells (ascii "::1") loopback :=
  .bare (@Bare.compressed [] [ascii "1"] [1] nofun (.groups (by decide)) (by decide))

theorem refuses_one (hplatform : platform.Standard) (policy : AddressPolicy) : Refuses platform policy one.text := by
  have hunspecified : platform.check (rule platform "UNSPECIFIED" [("0.0.0.0", 8)]).block one.text .ipv4 = true := by
    have hfamily : ¬ platform.isIPv6 (ascii "0.0.0.0") = true := by
      rw [hplatform.isIPv6_iff]
      rintro ⟨b, hb⟩
      exact absurd hb.colon_mem (by decide)
    refine (hplatform.check_v4 _ one).mpr ⟨_, List.mem_singleton_self _, ?_⟩
    unfold Subnet.Covers
    dsimp only
    rw [if_neg hfamily]
    refine ⟨⟨[0, 0, 0, 0], rfl, by decide⟩, rfl, ?_⟩
    unfold SamePrefix
    decide
  refine ⟨_, parseIpLiteral_v4 hplatform one (.inl rfl), ?_⟩
  unfold classifyHostAddress matchClasses
  dsimp only
  rw [if_pos rfl]
  simp only [if_true]
  unfold ipv4Classes
  rw [List.find?_cons, List.find?_cons, hunspecified]
  split
  · show (verdict (some "METADATA") policy).allowed = false
    exact verdict_refused (by decide)
  · show (verdict (some "UNSPECIFIED") policy).allowed = false
    exact verdict_refused (by decide)

/-- 0.0.0.1 is refused, and so is the address that maps it. -/
theorem classification_mapped : Refuses standard ⟨true⟩ (ascii "[::ffff:0:1]") := by
  refine (classification standard_standard).2.2 one .mapped ⟨[0, 0, 0, 0, 0, 0xffff, 0, 1], rfl, by decide⟩ ⟨true⟩ rfl (fun h => nomatch h.1)
    (refuses_one standard_standard ⟨true⟩) _ (ascii "::ffff:0:1") ?_ (.inr rfl)
  exact .bare (@Bare.compressed [] (["ffff", "0", "1"].map ascii) [0xffff, 0, 1] nofun (.groups (by decide)) (by decide))

/-- `::1` carries 0.0.0.1, which is refused; where loopback addresses are allowed, it is not. -/
theorem loopback_allowed : ¬ ∀ (v : Ipv4) (way : Embedding) (a : Ipv6) (policy : AddressPolicy), Embeds v a.bytes way →
    Refuses standard policy v.text → ∀ host text, Spells text a → HostOf host text → Refuses standard policy host := by
  intro h
  obtain ⟨parsed, hparsed, hrefused⟩ :=
    h one .compatible loopback ⟨true⟩ rfl (refuses_one standard_standard ⟨true⟩) _ _ spells_loopback (.inl rfl)
  rw [parseIpLiteral_v6 standard_standard spells_loopback (.inl rfl)] at hparsed
  cases hparsed
  exact absurd hrefused (by decide)

end Embeddings

end WebAudit.SafeNet
