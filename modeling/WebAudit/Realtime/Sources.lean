import WebAudit.Lib.Addresses

/-!
# Sources

The bucket a request counts against. `clientKey` and `sourceKeyFor` cut it out of the text of the
peer's address, by its colons. The customer behind an address is an address of version 4 or a /64.
-/

namespace WebAudit.Realtime

open WebAudit.Lib
open WebAudit.Lib.Uri (Text ascii startsWith)

/-! ### The code -/

/-- What is read of a request to the API. -/
structure Request where
  ip : Option Text
  /-- `socket.remoteAddress`. -/
  remoteAddress : Option Text

/-- What is read of an upgrade to a web socket. -/
structure IncomingMessage where
  remoteAddress : Option Text

/-- `::ffff:`. -/
def mappedStart : Text := ascii "::ffff:"

/-- `raw.startsWith('::ffff:') ? raw.slice('::ffff:'.length) : raw`. -/
def unmapped (raw : Text) : Text := if startsWith raw mappedStart then raw.drop mappedStart.length else raw

/-- `::/64`. -/
def suffix64 : Text := ascii "::/64"

/-- What both functions do with the text. -/
def keyOf (raw : Text) : Text :=
  let ip := unmapped raw
  if ip.contains colon then colons ((ip.splitOn colon).take 4) ++ suffix64 else ip

def clientKey (req : Request) : Text := keyOf ((req.ip.orElse fun _ => req.remoteAddress).getD (ascii "unknown"))

def sourceKeyFor (req : IncomingMessage) : Text := keyOf (req.remoteAddress.getD (ascii "unknown"))

/-! ### Customers -/

/-- Of either version. -/
inductive Address where
  | v4 (a : Ipv4)
  | v6 (a : Ipv6)

/-- The text stands for the address. -/
inductive Written : Text → Address → Prop where
  | v4 (a : Ipv4) : Written a.text (.v4 a)
  | v6 {text : Text} {a : Ipv6} (h : Spells text a) : Written text (.v6 a)

/-- One address of version 4, or a /64. -/
inductive Customer where
  | host (a : Ipv4)
  | site (groups : List ℕ)
  deriving DecidableEq

def customer : Address → Customer
  | .v4 a => .host a
  | .v6 a =>
    match a.mapped with
    | some b => .host b
    | none => .site a.site

/-! ### Plain texts -/

/-- After a `::ffff:` in lower case, the four numbers with dots; otherwise the first four pieces between colons are
the groups of the /64, in lower case and without leading zeros. -/
def PlainlyWritten (raw : Text) : Customer → Prop
  | .host a => unmapped raw = a.text
  | .site groups => ((unmapped raw).splitOn colon).take 4 = groups.map hextet

/-- The key of a customer whose address is plainly written. -/
def plainKey : Customer → Text
  | .host a => a.text
  | .site groups => colons (groups.map hextet) ++ suffix64

section Keys

variable {raw raw' : Text} {address address' : Address} {groups groups' : List ℕ}

theorem colon_notMem_hextet {g : ℕ} (h : g < 0x10000) : colon ∉ hextet g := (isGroup_hextet h).colon_notMem

theorem splitOn_hextets (hne : groups ≠ []) (h : ∀ g ∈ groups, g < 0x10000) :
    (colons (groups.map hextet)).splitOn colon = groups.map hextet := by
  refine splitOn_colons (by simpa using hne) fun p hp => ?_
  obtain ⟨g, hg, rfl⟩ := List.mem_map.mp hp
  exact colon_notMem_hextet (h g hg)

theorem map_hextet_inj (h : ∀ g ∈ groups, g < 0x10000) (h' : ∀ g ∈ groups', g < 0x10000)
    (heq : groups.map hextet = groups'.map hextet) : groups = groups' := by
  have hread {groups : List ℕ} (h : ∀ g ∈ groups, g < 0x10000) : (groups.map hextet).map hexValue = groups := by
    rw [List.map_map]
    exact (List.map_congr_left fun g hg => hexValue_hextet (h g hg)).trans (List.map_id _)
  rw [← hread h, ← hread h', heq]

/-- The groups of a customer, if it is a site. -/
theorem of_customer_site (h : customer address = .site groups) : groups.length = 4 ∧ ∀ g ∈ groups, g < 0x10000 := by
  cases address with
  | v4 a => cases h
  | v6 a =>
    unfold customer at h
    dsimp only at h
    cases hmapped : a.mapped with
    | some b =>
      rw [hmapped] at h
      cases h
    | none =>
      rw [hmapped] at h
      cases h
      exact ⟨a.site_length, fun g hg => Ipv6.lt_of_mem_site hg⟩

/-- **A plainly written address has the key of its customer, and no other one has.** -/
theorem keyOf_eq_plainKey_iff (address : Address) :
    keyOf raw = plainKey (customer address) ↔ PlainlyWritten raw (customer address) := by
  have hcontains : (unmapped raw).contains colon = true ↔ colon ∈ unmapped raw := List.contains_iff_mem ..
  unfold keyOf
  dsimp only
  cases hc : customer address with
  | host a =>
    unfold plainKey PlainlyWritten
    dsimp only
    split_ifs with hcolon
    · refine ⟨fun h => ?_, fun h => ?_⟩
      · refine absurd (h ▸ List.mem_append_right _ ?_) a.colon_notMem_text
        decide
      · rw [hcontains, h] at hcolon
        exact absurd hcolon a.colon_notMem_text
    · rfl
  | site groups =>
    obtain ⟨hlength, hlt⟩ := of_customer_site hc
    have hne : groups ≠ [] := by
      rintro rfl
      cases hlength
    unfold plainKey PlainlyWritten
    dsimp only
    split_ifs with hcolon
    · refine ⟨fun h => ?_, fun h => by rw [h]⟩
      have hpieces := List.append_cancel_right h
      have hleft : (colons (((unmapped raw).splitOn colon).take 4)).splitOn colon = ((unmapped raw).splitOn colon).take 4 := by
        refine splitOn_colons ?_ fun p hp => (of_mem_splitOn (List.mem_of_mem_take hp)).1
        simp [List.splitOn_ne_nil]
      rw [← hleft, hpieces, splitOn_hextets hne hlt]
    · refine ⟨fun h => ?_, fun h => ?_⟩
      · refine absurd (hcontains.mpr (h ▸ List.mem_append_right _ ?_)) hcolon
        decide
      · rw [List.splitOn_eq_singleton fun hmem => hcolon (hcontains.mpr hmem)] at h
        have hlengths := congrArg List.length h
        rw [List.length_map, hlength] at hlengths
        cases hlengths

theorem plainKey_inj (h : plainKey (customer address) = plainKey (customer address')) :
    customer address = customer address' := by
  have hcolon (groups : List ℕ) : colon ∈ plainKey (.site groups) :=
    List.mem_append_right _ (List.contains_iff_mem.mp (by decide))
  have hno (a : Ipv4) : colon ∉ plainKey (.host a) := a.colon_notMem_text
  cases hc : customer address with
  | host a =>
    cases hc' : customer address' with
    | host a' =>
      rw [hc, hc'] at h
      rw [Ipv4.text_injective h]
    | site groups' =>
      rw [hc, hc'] at h
      exact absurd (h ▸ hcolon groups') (hno a)
  | site groups =>
    cases hc' : customer address' with
    | host a' =>
      rw [hc, hc'] at h
      exact absurd (h ▸ hcolon groups) (hno a')
    | site groups' =>
      rw [hc, hc'] at h
      obtain ⟨hlength, hlt⟩ := of_customer_site hc
      obtain ⟨hlength', hlt'⟩ := of_customer_site hc'
      have hne {groups : List ℕ} (h : groups.length = 4) : groups ≠ [] := by
        rintro rfl
        cases h
      have hcolons : colons (groups.map hextet) = colons (groups'.map hextet) := List.append_cancel_right h
      refine congrArg Customer.site (map_hextet_inj hlt hlt' ?_)
      rw [← splitOn_hextets (hne hlength) hlt, hcolons, splitOn_hextets (hne hlength') hlt']

theorem firstOf_lt {groups : List ℕ} (hlt : ∀ g ∈ groups, g < 0x10000) : ∀ g ∈ groups ++ [0, 0, 0, 0], g < 0x10000 := by
  intro g hg
  rcases List.mem_append.mp hg with hg | hg
  · exact hlt g hg
  · simp only [List.mem_cons, List.not_mem_nil, or_false, or_self] at hg
    omega

theorem firstOf_length {groups : List ℕ} (hlength : groups.length = 4) : (groups ++ [0, 0, 0, 0]).length = 8 :=
  List.length_append.trans (hlength ▸ rfl)

/-- The first address of a /64. -/
def firstOf (groups : List ℕ) (hlength : groups.length = 4) (hlt : ∀ g ∈ groups, g < 0x10000) : Ipv6 :=
  ⟨groups ++ [0, 0, 0, 0], firstOf_length hlength, firstOf_lt hlt⟩

theorem firstOf_groups (hlength : groups.length = 4) (hlt : ∀ g ∈ groups, g < 0x10000) :
    (firstOf groups hlength hlt).groups = groups ++ [0, 0, 0, 0] := rfl

theorem mapped_firstOf (hlength : groups.length = 4) (hlt : ∀ g ∈ groups, g < 0x10000) :
    (firstOf groups hlength hlt).mapped = none := by
  unfold Ipv6.mapped
  split
  · rename_i g g' h
    have hsix := congrArg (·[5]?) h
    simp [firstOf, hlength] at hsix
  · rfl

/-- A text that begins with another letter than a colon is left alone. -/
theorem unmapped_append {x r : Text} (hne : x ≠ []) (hno : colon ∉ x) : unmapped (x ++ r) = x ++ r := by
  unfold unmapped
  rw [if_neg]
  intro hstart
  cases x with
  | nil => exact hne rfl
  | cons u x =>
    have hu : colon = u := by
      have h := List.isPrefixOf_iff_prefix.mp hstart
      exact (List.cons_prefix_cons.mp h).1
    exact hno (hu ▸ List.mem_cons_self ..)

theorem unmapped_hextets (hne : groups ≠ []) (hlt : ∀ g ∈ groups, g < 0x10000) :
    unmapped (colons (groups.map hextet)) = colons (groups.map hextet) := by
  cases groups with
  | nil => exact absurd rfl hne
  | cons g rest =>
    have hgroup := isGroup_hextet (hlt g (List.mem_cons_self ..))
    obtain ⟨r, hr⟩ := colons_cons (hextet g) (rest.map hextet)
    rw [List.map_cons, hr]
    exact unmapped_append hgroup.ne_nil hgroup.colon_notMem

/-- **Every customer has an address that is plainly written.** -/
theorem exists_plain (address : Address) :
    ∃ raw' address', Written raw' address' ∧ customer address' = customer address ∧ PlainlyWritten raw' (customer address) := by
  cases hc : customer address with
  | host a =>
    refine ⟨a.text, .v4 a, .v4 a, rfl, ?_⟩
    have h := unmapped_append (r := []) a.text_ne_nil a.colon_notMem_text
    rwa [List.append_nil] at h
  | site groups =>
    obtain ⟨hlength, hlt⟩ := of_customer_site hc
    have hfirst := firstOf_groups hlength hlt
    refine ⟨_, .v6 (firstOf groups hlength hlt), .v6 (spells_hextets _), ?_, ?_⟩
    · unfold customer
      dsimp only
      rw [mapped_firstOf hlength hlt]
      unfold Ipv6.site
      dsimp only
      rw [hfirst, List.take_left' hlength]
    · have hne : (firstOf groups hlength hlt).groups ≠ [] := by
        rw [hfirst]
        simp
      unfold PlainlyWritten
      dsimp only
      rw [unmapped_hextets hne (firstOf groups hlength hlt).lt, splitOn_hextets hne (firstOf groups hlength hlt).lt,
        hfirst, List.map_append, List.take_left' (by rw [List.length_map, hlength])]

end Keys

/-! ### Telling customers apart -/

/-- The text that is looked at. -/
def Request.raw (req : Request) : Option Text := req.ip.orElse fun _ => req.remoteAddress

/-- The keys of two texts are equal just when `same` holds, whichever function gives them. -/
def KeysTell (raw raw' : Text) (same : Prop) : Prop :=
  ∀ (req req' : Request) (msg msg' : IncomingMessage), req.raw = some raw → req'.raw = some raw' →
    msg.remoteAddress = some raw → msg'.remoteAddress = some raw' →
      (clientKey req = clientKey req' ↔ same) ∧ (sourceKeyFor msg = sourceKeyFor msg' ↔ same) ∧
        (clientKey req = sourceKeyFor msg' ↔ same)

section Telling

variable {raw raw' : Text} {address address' : Address} {same : Prop} {req : Request} {msg : IncomingMessage}

theorem clientKey_of_raw (h : req.raw = some raw) : clientKey req = keyOf raw := by
  unfold clientKey
  rw [show (req.ip.orElse fun _ => req.remoteAddress) = some raw from h]
  rfl

theorem sourceKeyFor_of_raw (h : msg.remoteAddress = some raw) : sourceKeyFor msg = keyOf raw := by
  unfold sourceKeyFor
  rw [h]
  rfl

theorem keysTell_iff : KeysTell raw raw' same ↔ (keyOf raw = keyOf raw' ↔ same) := by
  refine ⟨fun h => ?_, fun h => ?_⟩
  · exact (h ⟨some raw, none⟩ ⟨some raw', none⟩ ⟨some raw⟩ ⟨some raw'⟩ rfl rfl rfl rfl).1
  · intro req req' msg msg' hreq hreq' hmsg hmsg'
    rw [clientKey_of_raw hreq, clientKey_of_raw hreq', sourceKeyFor_of_raw hmsg, sourceKeyFor_of_raw hmsg']
    exact ⟨h, h, h⟩

theorem keysTell_of_plain (h : PlainlyWritten raw (customer address)) (h' : PlainlyWritten raw' (customer address')) :
    KeysTell raw raw' (customer address = customer address') := by
  rw [keysTell_iff, (keyOf_eq_plainKey_iff address).mpr h, (keyOf_eq_plainKey_iff address').mpr h']
  exact ⟨plainKey_inj, fun heq => by rw [heq]⟩

/-- **The texts whose keys tell customers apart are those that are plainly written**: the key of a text for an address
tells it from, and joins it with, the addresses that are plainly written just when it is plainly written itself.
Both functions give a text the same key. -/
theorem keys_tell_iff (raw : Text) (address : Address) :
    (∀ (req : Request) (msg : IncomingMessage), req.raw = some raw → msg.remoteAddress = some raw →
      clientKey req = sourceKeyFor msg) ∧
    ((∀ raw' address', Written raw' address' → PlainlyWritten raw' (customer address') →
      KeysTell raw raw' (customer address = customer address')) ↔ PlainlyWritten raw (customer address)) := by
  refine ⟨fun req msg hreq hmsg => ?_, fun h => ?_, fun h raw' address' _ h' => keysTell_of_plain h h'⟩
  · rw [clientKey_of_raw hreq, sourceKeyFor_of_raw hmsg]
  · obtain ⟨raw', address', hwritten, hcustomer, hplain⟩ := exists_plain address
    have hplain' : PlainlyWritten raw' (customer address') := by rwa [hcustomer]
    have hkey := (keysTell_iff.mp (h raw' address' hwritten hplain')).mpr hcustomer.symm
    rw [← keyOf_eq_plainKey_iff, hkey, (keyOf_eq_plainKey_iff address').mpr hplain', hcustomer]

/-- `2001:db8:0:0:0:0:0:n`. -/
def documented (n : Fin 0x10000) : Ipv6 where
  groups := [0x2001, 0xdb8, 0, 0, 0, 0, 0, n]
  length_eq := rfl
  lt := by simp

/-- Where the zeros are left out, each host of a /64 has a key of its own. -/
theorem hosts_split_site : ¬ ∀ raw raw' address address', Written raw address → Written raw' address' →
    KeysTell raw raw' (customer address = customer address') := by
  intro h
  have hone : Written (ascii "2001:db8::1") (.v6 (documented 1)) :=
    .v6 (.bare (@Bare.compressed (["2001", "db8"].map ascii) (["1"].map ascii) [1] (by decide) (.groups (by decide)) (by decide)))
  have htwo : Written (ascii "2001:db8::2") (.v6 (documented 2)) :=
    .v6 (.bare (@Bare.compressed (["2001", "db8"].map ascii) (["2"].map ascii) [2] (by decide) (.groups (by decide)) (by decide)))
  exact absurd ((keysTell_iff.mp (h _ _ _ _ hone htwo)).mpr (by decide)) (by decide)

end Telling

end WebAudit.Realtime
