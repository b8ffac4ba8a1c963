import Mathlib.Data.List.TakeWhile
import WebAudit.Runner.Attribute
import WebAudit.SafeNet.Fetch

/-!
# The cookies of a response

`owasp-checker`, with the header that `headerRecord` makes of the `Set-Cookie` lines of a response. The lines are joined by commas, and
`splitSetCookie` takes them apart at each comma before a name and an equals sign; of each piece it is tested whether an attribute is there.
-/

namespace WebAudit.Capabilities

open WebAudit.Lib.Uri WebAudit.Lib.Values WebAudit.Runner WebAudit.SafeNet
open WebAudit.Lib.Regex (isSpace isWord)
open WebAudit.Redaction (isDigit)

/-! ### The code -/

/-- `[^;,=\s]`. -/
def isNameUnit (u : ℕ) : Bool := !(u == 0x3B || u == 0x2C || u == 0x3D || isSpace u)

/-- `/^\s*[^;,=\s]+=/`. -/
def startsPair (text : Text) : Bool :=
  let rest := text.dropWhile isSpace
  rest.takeWhile isNameUnit ≠ [] && (rest.dropWhile isNameUnit).head? = some 0x3D

/-- `value.split(/,(?=\s*[^;,=\s]+=)/)`. -/
def splitPairs : Text → List Text
  | [] => [[]]
  | u :: rest => if u = 0x2C ∧ startsPair rest then [] :: splitPairs rest else (splitPairs rest).modifyHead (u :: ·)

def splitSetCookie (value : Text) : List Text := ((splitPairs value).map trim).filter (· ≠ [])

/-- `/;\s*…/`. -/
def carries (test : Text → Bool) : Text → Bool
  | [] => false
  | u :: rest => (u == 0x3B && test (rest.dropWhile isSpace)) || carries test rest

/-- `/^<name>\b/i`. -/
def named (name text : Text) : Bool := startsWith (text.map asciiLower) name && !(text.drop name.length).head?.any isWord

/-- `/^<name>\s*=/i`. -/
def assigned (name text : Text) : Bool :=
  startsWith (text.map asciiLower) name && ((text.drop name.length).dropWhile isSpace).head? = some 0x3D

def secureFlag : Text → Bool := carries (named (ascii "secure"))

def httpOnlyFlag : Text → Bool := carries (named (ascii "httponly"))

def sameSiteValue : Text → Bool := carries (assigned (ascii "samesite"))

/-- What is found of a flag that is missing. -/
def missingFlag (flag : String) (severity : Severity) (title description consequence : String) (setCookie url : Text) : CapabilityFinding where
  checkId := ascii "owasp.cookie-missing-" ++ ascii flag
  fingerprintParts := [.text (ascii flag)]
  severity := severity
  title := ascii title
  description := ascii description
  location := some url
  consequence := some (ascii consequence)
  evidence := some (.object [(ascii "setCookie", .string setCookie)])
  fixable := true

def missingSecure : Text → Text → CapabilityFinding :=
  missingFlag "secure" .HIGH "A cookie is set without the Secure flag"
    "At least one Set-Cookie entry does not carry a Secure attribute."
    "A cookie without Secure can be sent over an unencrypted connection if one is ever attempted, exposing it to interception."

def missingHttpOnly : Text → Text → CapabilityFinding :=
  missingFlag "httponly" .MEDIUM "A cookie is set without the HttpOnly flag"
    "At least one Set-Cookie entry does not carry an HttpOnly attribute."
    "A cookie without HttpOnly is readable from JavaScript, so a cross-site scripting vulnerability elsewhere on the page can steal it."

def missingSameSite : Text → Text → CapabilityFinding :=
  missingFlag "samesite" .LOW "A cookie is set without a SameSite attribute"
    "At least one Set-Cookie entry does not carry a SameSite attribute."
    ("Without SameSite, the cookie is sent on cross-site requests by default in older browsers, widening the surface for " ++
      "cross-site request forgery.")

/-- `none`: the address is none. -/
def cookieFindings (net : Net) (setCookie url : Text) : Option (List CapabilityFinding) :=
  let cookies := splitSetCookie setCookie
  (net.parse url).map fun address =>
    let isHttps := address.protocol = ascii "https:"
    (if isHttps ∧ cookies.any (!secureFlag ·) then [missingSecure setCookie url] else []) ++
      (if cookies.any (!httpOnlyFlag ·) then [missingHttpOnly setCookie url] else []) ++
      if cookies.any (!sameSiteValue ·) then [missingSameSite setCookie url] else []

/-- `/\d+\.\d+/`. -/
def namesVersion : Text → Bool
  | a :: b :: c :: rest => (isDigit a && b == dot && isDigit c) || namesVersion (b :: c :: rest)
  | _ => false

def versionFinding (url header value : Text) : CapabilityFinding where
  checkId := ascii "owasp.server-version-disclosed"
  fingerprintParts := [.text header]
  severity := .LOW
  title := (if header = ascii "server" then ascii "Server" else ascii "X-Powered-By") ++ ascii " header discloses a software version"
  description := ascii "The response's " ++ header ++ ascii " header is \"" ++ value ++ ascii "\", naming a specific software version."
  location := some url
  consequence := some (ascii ("Publishing a specific software version narrows an attacker’s search for a known " ++
    "vulnerability affecting that exact version."))
  evidence := some (.object [(ascii "header", .string header), (ascii "value", .string value)])
  fixable := true

/-- What is found in a response. -/
def runCodeLayer (net : Net) (response : SafeResponse) : Option (List CapabilityFinding) :=
  let cookies := match response.headers.lookup (ascii "set-cookie") with
    | some setCookie => cookieFindings net setCookie response.url
    | none => some []
  cookies.map fun findings =>
    findings ++ [ascii "server", ascii "x-powered-by"].filterMap fun header =>
      (response.headers.lookup header).bind fun value => if namesVersion value then some (versionFinding response.url header value) else none

/-! ### Cookies -/

/-- A character of a token. -/
def isTokenUnit (u : ℕ) : Bool := 0x21 ≤ u && u ≤ 0x7E && !(ascii "()<>@,;:\\\"/[]?=\x7b\x7d").contains u

/-- A character of a cookie's value. -/
def isCookieOctet (u : ℕ) : Bool := 0x21 ≤ u && u ≤ 0x7E && !(ascii "\",;\\").contains u

/-- A character of an attribute. -/
def isAttributeUnit (u : ℕ) : Bool := 0x20 ≤ u && u ≤ 0x7E && u != 0x3B

/-- What a `Set-Cookie` line says. -/
structure SetCookie where
  name : Text
  value : Text
  attributes : List Text
  token : name ≠ [] ∧ name.all isTokenUnit = true
  octets : value.all isCookieOctet = true ∨ ∃ inner, value = [0x22] ++ inner ++ [0x22] ∧ inner.all isCookieOctet = true
  units : ∀ av ∈ attributes, av.all isAttributeUnit = true

namespace SetCookie

def text (line : SetCookie) : Text := line.name ++ [0x3D] ++ line.value ++ line.attributes.flatMap ([0x3B, 0x20] ++ ·)

/-- The name of an attribute, in lower case. -/
def attributeName (av : Text) : Text := (trim (av.takeWhile (· ≠ 0x3D))).map asciiLower

def Has (line : SetCookie) (name : Text) : Prop := ∃ av ∈ line.attributes, attributeName av = name

/-- An attribute begins like the name, up to the end of a word. -/
def Resembles (line : SetCookie) (name : Text) : Prop := ∃ av ∈ line.attributes, named name (av.dropWhile isSpace) = true

/-- The attribute has a value. -/
def Assigns (line : SetCookie) (name : Text) : Prop :=
  ∃ av ∈ line.attributes, attributeName av = name ∧ 0x3D ∈ av

instance (line : SetCookie) (name : Text) : Decidable (line.Has name) :=
  inferInstanceAs (Decidable (∃ av ∈ line.attributes, attributeName av = name))

instance (line : SetCookie) (name : Text) : Decidable (line.Resembles name) :=
  inferInstanceAs (Decidable (∃ av ∈ line.attributes, named name (av.dropWhile isSpace) = true))

end SetCookie

/-! ### The split -/

section Split

variable {text a b x rest : Text} {u : ℕ}

theorem splitPairs_ne_nil (text : Text) : splitPairs text ≠ [] := by
  induction text with
  | nil => exact List.cons_ne_nil _ _
  | cons u rest ih =>
    unfold splitPairs
    split
    · exact List.cons_ne_nil _ _
    · rwa [ne_eq, List.modifyHead_eq_nil_iff]

theorem takeWhile_append_cons {p : ℕ → Bool} (h : p u = false) : (a ++ u :: x).takeWhile p = a.takeWhile p := by
  induction a with
  | nil => rw [List.nil_append, List.takeWhile_cons, h, if_neg Bool.false_ne_true, List.takeWhile_nil]
  | cons v a ih => rw [List.cons_append, List.takeWhile_cons, List.takeWhile_cons, ih]

theorem dropWhile_append_cons {p : ℕ → Bool} (h : p u = false) : (a ++ u :: x).dropWhile p = a.dropWhile p ++ u :: x := by
  induction a with
  | nil => rw [List.nil_append, List.dropWhile_cons, h, if_neg Bool.false_ne_true, List.dropWhile_nil, List.nil_append]
  | cons v a ih =>
    rw [List.cons_append, List.dropWhile_cons, List.dropWhile_cons]
    split
    · exact ih
    · rfl

/-- Where a comma follows, nothing more is read. -/
theorem startsPair_append_comma : startsPair (a ++ 0x2C :: x) = startsPair a := by
  unfold startsPair
  dsimp only
  rw [dropWhile_append_cons (by decide), takeWhile_append_cons (by decide), dropWhile_append_cons (by decide)]
  rcases (a.dropWhile isSpace).dropWhile isNameUnit with _ | ⟨v, rest⟩
  · simp
  · rfl

/-- At a comma before a name and an equals sign the text is cut. -/
theorem splitPairs_append (h : startsPair b = true) : splitPairs (a ++ 0x2C :: b) = splitPairs a ++ splitPairs b := by
  induction a with
  | nil =>
    rw [List.nil_append]
    exact if_pos ⟨rfl, h⟩
  | cons u a ih =>
    rw [List.cons_append, splitPairs, splitPairs, startsPair_append_comma, ih]
    split
    · rfl
    · rcases hp : splitPairs a with _ | ⟨piece, pieces⟩
      · exact absurd hp (splitPairs_ne_nil a)
      · rfl

theorem splitSetCookie_cons_space : splitSetCookie (0x20 :: text) = splitSetCookie text := by
  unfold splitSetCookie
  have hpieces : splitPairs (0x20 :: text) = (splitPairs text).modifyHead (0x20 :: ·) := if_neg (by simp)
  rw [hpieces]
  rcases splitPairs text with _ | ⟨piece, pieces⟩
  · rfl
  · rfl

theorem startsPair_cons_space : startsPair (0x20 :: text) = startsPair text := rfl

/-- **The lines are split one by one.** -/
theorem splitSetCookie_join {texts : List Text} (hne : texts ≠ []) (h : ∀ text ∈ texts, startsPair text = true) :
    splitSetCookie ((ascii ", ").intercalate texts) = texts.flatMap splitSetCookie := by
  induction texts with
  | nil => exact absurd rfl hne
  | cons text texts ih =>
    cases texts with
    | nil => simp [List.intercalate]
    | cons next texts =>
      have hrest := ih (List.cons_ne_nil _ _) fun t ht => h t (List.mem_cons_of_mem _ ht)
      have hstart : startsPair ((ascii ", ").intercalate (next :: texts)) = true := by
        have hnext := h next (List.mem_cons_of_mem _ (List.mem_cons_self ..))
        cases texts with
        | nil => simpa [List.intercalate] using hnext
        | cons t texts =>
          rw [List.intercalate_cons_cons, List.append_assoc]
          exact startsPair_append_comma.trans hnext
      have hjoin : (ascii ", ").intercalate (text :: next :: texts) = text ++ 0x2C :: 0x20 :: (ascii ", ").intercalate (next :: texts) := by
        rw [List.intercalate_cons_cons, List.append_assoc]
        rfl
      have hsplit : splitSetCookie (text ++ 0x2C :: 0x20 :: (ascii ", ").intercalate (next :: texts)) =
          splitSetCookie text ++ splitSetCookie (0x20 :: (ascii ", ").intercalate (next :: texts)) := by
        unfold splitSetCookie
        rw [splitPairs_append (startsPair_cons_space.trans hstart), List.map_append, List.filter_append]
      rw [hjoin, hsplit, splitSetCookie_cons_space, hrest]
      rfl

/-- Somewhere inside a comma comes before a name and an equals sign. -/
def cut : Text → Bool
  | [] => false
  | u :: rest => (u == 0x2C && startsPair rest) || cut rest

theorem splitPairs_of_not_cut (h : cut text = false) : splitPairs text = [text] := by
  induction text with
  | nil => rfl
  | cons u rest ih =>
    obtain ⟨hhead, hrest⟩ := Bool.or_eq_false_iff.mp h
    rw [splitPairs, if_neg, ih hrest]
    · rfl
    · rintro ⟨rfl, hpair⟩
      rw [hpair] at hhead
      cases hhead

theorem two_le_of_cut (h : cut text = true) : 2 ≤ (splitPairs text).length := by
  induction text with
  | nil => cases h
  | cons u rest ih =>
    rw [splitPairs]
    split
    · exact Nat.succ_le_succ (List.length_pos_of_ne_nil (splitPairs_ne_nil rest))
    · rename_i hnot
      rw [List.length_modifyHead]
      refine ih ?_
      rcases Bool.or_eq_true_iff.mp h with hhead | hrest
      · obtain ⟨hu, hpair⟩ := Bool.and_eq_true_iff.mp hhead
        exact absurd ⟨beq_iff_eq.mp hu, hpair⟩ hnot
      · exact hrest

/-- Blanks, the trimmed text, and blanks. -/
theorem trim_spec (text : Text) : ∃ before after, text = before ++ trim text ++ after ∧ (∀ u ∈ before, isSpace u = true) ∧
    (∀ u ∈ after, isSpace u = true) ∧ (∀ u ∈ (trim text).head?, isSpace u = false) ∧ ∀ u ∈ (trim text).getLast?, isSpace u = false := by
  have hhead (p : ℕ → Bool) (l : List ℕ) : ∀ u ∈ (l.dropWhile p).head?, p u = false := by
    intro u hu
    have := List.head?_dropWhile_not p l
    rw [Option.mem_def.mp hu] at this
    simpa using this
  have hsplit : text.dropWhile isSpace = trim text ++ ((text.dropWhile isSpace).reverse.takeWhile isSpace).reverse := by
    unfold trim dropTail
    rw [← List.reverse_append, List.takeWhile_append_dropWhile, List.reverse_reverse]
  refine ⟨text.takeWhile isSpace, ((text.dropWhile isSpace).reverse.takeWhile isSpace).reverse, ?_, fun u hu => List.all_eq_true.mp List.all_takeWhile u hu,
    fun u hu => List.all_eq_true.mp List.all_takeWhile u (List.mem_reverse.mp hu), fun u hu => ?_, fun u hu => ?_⟩
  · rw [List.append_assoc, ← hsplit, List.takeWhile_append_dropWhile]
  · refine hhead isSpace text u ?_
    rw [hsplit]
    rcases htrim : trim text with _ | ⟨v, more⟩
    · rw [htrim] at hu
      cases hu
    · rwa [htrim] at hu
  · unfold trim dropTail at hu
    rw [List.getLast?_reverse] at hu
    exact hhead isSpace _ u hu

theorem trim_eq_self_iff (h : ∀ u ∈ text.head?, isSpace u = false) : trim text = text ↔ ∀ u ∈ text.getLast?, isSpace u = false := by
  obtain ⟨before, after, heq, hbefore, hafter, -, hlast⟩ := trim_spec text
  constructor
  · intro htrim
    rwa [htrim] at hlast
  · intro hend
    have hnil : before = [] := by
      rcases before with _ | ⟨v, more⟩
      · rfl
      · rw [heq] at h
        have := h v rfl
        rw [hbefore v (List.mem_cons_self ..)] at this
        cases this
    have hnil' : after = [] := by
      rcases List.eq_nil_or_concat' after with hnil | ⟨more, v, rfl⟩
      · exact hnil
      · rw [heq, ← List.append_assoc] at hend
        have := hend v (by rw [List.getLast?_concat]; rfl)
        rw [hafter v (List.mem_append_right _ (List.mem_singleton_self v))] at this
        cases this
    rw [hnil, hnil', List.nil_append, List.append_nil] at heq
    exact heq.symm

theorem trim_ne_nil (h : text.all isSpace = false) : trim text ≠ [] := by
  intro hnil
  obtain ⟨before, after, heq, hbefore, hafter, -, -⟩ := trim_spec text
  rw [hnil, List.append_nil] at heq
  rw [heq, List.all_append, List.all_eq_true.mpr hbefore, List.all_eq_true.mpr hafter] at h
  cases h

/-- Every piece has something in it. -/
theorem pieces_not_blank : (startsPair text = true → ∀ piece ∈ (splitPairs text).head?, piece.all isSpace = false) ∧
    ∀ piece ∈ (splitPairs text).tail, piece.all isSpace = false := by
  induction text with
  | nil => exact ⟨fun h => (nomatch h), fun _ h => absurd h List.not_mem_nil⟩
  | cons u rest ih =>
    rcases hp : splitPairs rest with _ | ⟨piece, pieces⟩
    · exact absurd hp (splitPairs_ne_nil rest)
    · rw [hp] at ih
      obtain ⟨hhead, htail⟩ := ih
      rw [splitPairs, hp]
      split
      · rename_i hcut
        obtain ⟨rfl, hpair⟩ := hcut
        refine ⟨fun h => (nomatch h), fun p hmem => ?_⟩
        rcases List.mem_cons.mp hmem with rfl | hmem
        · exact hhead hpair p rfl
        · exact htail p hmem
      · refine ⟨fun h p hmem => ?_, htail⟩
        obtain rfl := Option.some.inj hmem
        rw [List.all_cons]
        rcases hspace : isSpace u with _ | _
        · rfl
        · refine hhead ?_ piece rfl
          rwa [startsPair, List.dropWhile_cons, if_pos hspace] at h

/-- A line by itself is not cut, and its end is not trimmed. -/
theorem splitSetCookie_eq_singleton_iff (h : startsPair text = true) (hhead : ∀ u ∈ text.head?, isSpace u = false) :
    splitSetCookie text = [text] ↔ cut text = false ∧ ∀ u ∈ text.getLast?, isSpace u = false := by
  have hfilter : splitSetCookie text = (splitPairs text).map trim := by
    refine List.filter_eq_self.mpr fun piece hpiece => ?_
    obtain ⟨p, hp, rfl⟩ := List.mem_map.mp hpiece
    refine decide_eq_true (trim_ne_nil ?_)
    obtain ⟨hfirst, hrest⟩ := @pieces_not_blank text
    rcases hsplit : splitPairs text with _ | ⟨first, rest⟩
    · exact absurd hsplit (splitPairs_ne_nil text)
    · rw [hsplit] at hfirst hrest hp
      rcases List.mem_cons.mp hp with rfl | hp
      · exact hfirst h p rfl
      · exact hrest p hp
  rw [hfilter, ← trim_eq_self_iff hhead]
  constructor
  · intro heq
    have hcut : cut text = false := by
      by_contra hcut
      have htwo := two_le_of_cut (Bool.not_eq_false _ ▸ hcut)
      have hone := congrArg List.length heq
      rw [List.length_map, List.length_singleton] at hone
      omega
    rw [splitPairs_of_not_cut hcut] at heq
    exact ⟨hcut, List.head_eq_of_cons_eq heq⟩
  · rintro ⟨hcut, htrim⟩
    rw [splitPairs_of_not_cut hcut, List.map_singleton, htrim]

theorem splitSetCookie_ne_nil (h : startsPair text = true) : splitSetCookie text ≠ [] := by
  obtain ⟨hfirst, -⟩ := @pieces_not_blank text
  unfold splitSetCookie
  rcases hsplit : splitPairs text with _ | ⟨first, rest⟩
  · exact absurd hsplit (splitPairs_ne_nil text)
  · rw [hsplit] at hfirst
    rw [List.map_cons, List.filter_cons, if_pos (decide_eq_true (trim_ne_nil (hfirst h first rfl)))]
    exact List.cons_ne_nil _ _

theorem length_le_flatMap {α : Type} {f : α → List α} {xs : List α} (h : ∀ x ∈ xs, f x ≠ []) : xs.length ≤ (xs.flatMap f).length := by
  induction xs with
  | nil => exact Nat.le_refl _
  | cons x xs ih =>
    have hpos := List.length_pos_of_ne_nil (h x (List.mem_cons_self ..))
    have hrest := ih fun y hy => h y (List.mem_cons_of_mem _ hy)
    rw [List.flatMap_cons, List.length_append, List.length_cons]
    omega

/-- What comes of each is just itself. -/
theorem flatMap_eq_self_iff {α : Type} {f : α → List α} {xs : List α} (h : ∀ x ∈ xs, f x ≠ []) :
    xs.flatMap f = xs ↔ ∀ x ∈ xs, f x = [x] := by
  induction xs with
  | nil => exact ⟨fun _ _ hx => absurd hx List.not_mem_nil, fun _ => rfl⟩
  | cons x xs ih =>
    have hrest := fun y hy => h y (List.mem_cons_of_mem _ hy)
    rw [List.flatMap_cons, List.forall_mem_cons]
    constructor
    · intro heq
      rcases hfx : f x with _ | ⟨y, ys⟩
      · exact absurd hfx (h x (List.mem_cons_self ..))
      · rw [hfx, List.cons_append] at heq
        obtain ⟨rfl, htail⟩ := List.cons.inj heq
        have hlength := length_le_flatMap hrest
        have hnil : ys = [] := by
          have := congrArg List.length htail
          rw [List.length_append] at this
          exact List.eq_nil_of_length_eq_zero (by omega)
        rw [hnil, List.nil_append] at htail
        exact ⟨by rw [hnil], (ih hrest).mp htail⟩
    · rintro ⟨hx, hxs⟩
      rw [hx, (ih hrest).mpr hxs]
      rfl

end Split

/-! ### The attributes -/

section Attributes

variable {text a b x rest name av : Text} {test : Text → Bool} {attributes : List Text} {line : SetCookie}

/-- The test does not look beyond a semicolon. -/
def Local (test : Text → Bool) : Prop := ∀ x rest, test (x ++ 0x3B :: rest) = test x

theorem startsWith_append_semicolon (h : 0x3B ∉ name) : startsWith ((x ++ 0x3B :: rest).map asciiLower) name = startsWith (x.map asciiLower) name := by
  unfold startsWith
  induction name generalizing x with
  | nil => simp
  | cons u name ih =>
    obtain ⟨hu, hname⟩ := not_or.mp (fun hmem => h (List.mem_cons.mpr hmem))
    cases x with
    | nil =>
      have hne : (u == 0x3B) = false := beq_eq_false_iff_ne.mpr (Ne.symm hu)
      simp [List.isPrefixOf, asciiLower, hne]
    | cons v x => simp only [List.cons_append, List.map_cons, List.isPrefixOf, ih hname]

theorem length_le_of_startsWith (h : startsWith (x.map asciiLower) name = true) : name.length ≤ x.length := by
  have := (List.isPrefixOf_iff_prefix.mp h).length_le
  rwa [List.length_map] at this

theorem local_named (h : 0x3B ∉ name) : Local (named name) := by
  intro x rest
  unfold named
  rw [startsWith_append_semicolon h]
  rcases hstart : startsWith (x.map asciiLower) name with _ | _
  · rfl
  · rw [List.drop_append_of_le_length (length_le_of_startsWith hstart)]
    rcases x.drop name.length with _ | ⟨v, more⟩ <;> rfl

theorem local_assigned (h : 0x3B ∉ name) : Local (assigned name) := by
  intro x rest
  unfold assigned
  rw [startsWith_append_semicolon h]
  rcases hstart : startsWith (x.map asciiLower) name with _ | _
  · rfl
  · rw [List.drop_append_of_le_length (length_le_of_startsWith hstart), dropWhile_append_cons (by decide)]
    rcases (x.drop name.length).dropWhile isSpace with _ | ⟨v, more⟩ <;> simp

theorem carries_append (h : 0x3B ∉ a) : carries test (a ++ b) = carries test b := by
  induction a with
  | nil => rfl
  | cons u a ih =>
    obtain ⟨hu, ha⟩ := not_or.mp (fun hmem => h (List.mem_cons.mpr hmem))
    have hne : (u == 0x3B) = false := beq_eq_false_iff_ne.mpr (Ne.symm hu)
    rw [List.cons_append, carries, hne, Bool.false_and, Bool.false_or, ih ha]

/-- **A test goes over the attributes.** -/
theorem carries_attributes (htest : Local test) (h : ∀ av ∈ attributes, 0x3B ∉ av) :
    carries test (attributes.flatMap ([0x3B, 0x20] ++ ·)) = attributes.any fun av => test (av.dropWhile isSpace) := by
  induction attributes with
  | nil => rfl
  | cons av attributes ih =>
    have hrest := ih fun b hb => h b (List.mem_cons_of_mem _ hb)
    have hspace : 0x3B ∉ 0x20 :: av := by
      intro hmem
      rcases List.mem_cons.mp hmem with heq | hmem
      · cases heq
      · exact h av (List.mem_cons_self ..) hmem
    have hfirst : test ((0x20 :: av ++ attributes.flatMap ([0x3B, 0x20] ++ ·)).dropWhile isSpace) = test (av.dropWhile isSpace) := by
      cases attributes with
      | nil =>
        rw [List.flatMap_nil, List.append_nil]
        rfl
      | cons b attributes =>
        have hcons : (b :: attributes).flatMap ([0x3B, 0x20] ++ ·) = 0x3B :: (0x20 :: b ++ attributes.flatMap ([0x3B, 0x20] ++ ·)) := rfl
        rw [hcons, dropWhile_append_cons (by decide), htest]
        rfl
    have hcons : (av :: attributes).flatMap ([0x3B, 0x20] ++ ·) = 0x3B :: (0x20 :: av ++ attributes.flatMap ([0x3B, 0x20] ++ ·)) := rfl
    rw [hcons, carries, hfirst, carries_append hspace, hrest]
    rfl

/-- The text of an attribute, up to the end of its name. -/
theorem attributeName_split (hne : name ≠ []) (h : SetCookie.attributeName av = name) :
    ∃ core after more, av.dropWhile isSpace = core ++ (after ++ more) ∧ core.map asciiLower = name ∧ (∀ u ∈ after, isSpace u = true) ∧
      (more = [] ∧ 0x3D ∉ av ∨ more.head? = some 0x3D) := by
  unfold SetCookie.attributeName at h
  obtain ⟨before, after, heq, hbefore, hafter, hhead, -⟩ := trim_spec (av.takeWhile (· ≠ 0x3D))
  generalize trim (av.takeWhile (· ≠ 0x3D)) = core at *
  refine ⟨core, after, av.dropWhile (· ≠ 0x3D), ?_, h, hafter, ?_⟩
  · have hsplit : av = before ++ (core ++ (after ++ av.dropWhile (· ≠ 0x3D))) := by
      rw [← List.append_assoc core, ← List.append_assoc before, ← List.append_assoc before, ← heq, List.takeWhile_append_dropWhile]
    have hdrop : (before ++ (core ++ (after ++ av.dropWhile (· ≠ 0x3D)))).dropWhile isSpace = core ++ (after ++ av.dropWhile (· ≠ 0x3D)) := by
      rw [List.dropWhile_append_of_pos hbefore]
      rcases core with _ | ⟨v, core⟩
      · exact absurd h.symm hne
      · rw [List.cons_append, List.dropWhile_cons, hhead v rfl, if_neg Bool.false_ne_true]
    rw [← hdrop, ← hsplit]
  · rcases hmore : av.dropWhile (· ≠ 0x3D) with _ | ⟨v, more⟩
    · refine .inl ⟨hmore, fun hmem => ?_⟩
      have hall := List.dropWhile_eq_nil_iff.mp hmore 0x3D hmem
      simp at hall
    · refine .inr ?_
      have := List.head?_dropWhile_not (fun u : ℕ => decide (u ≠ 0x3D)) av
      rw [hmore] at this ⊢
      simpa using this

/-- The attribute of that name begins like it. -/
theorem named_of_attributeName (hne : name ≠ []) (h : SetCookie.attributeName av = name) : named name (av.dropWhile isSpace) = true := by
  obtain ⟨core, after, more, heq, hcore, hafter, hmore⟩ := attributeName_split hne h
  have hlength : name.length = core.length := by rw [← hcore, List.length_map]
  have hstart : startsWith ((core ++ (after ++ more)).map asciiLower) name = true := by
    unfold startsWith
    rw [List.map_append, hcore]
    exact List.isPrefixOf_iff_prefix.mpr (List.prefix_append _ _)
  unfold named
  rw [heq, hstart, hlength, List.drop_left, Bool.true_and]
  rcases after with _ | ⟨v, after⟩
  · rcases hmore with ⟨rfl, -⟩ | hmore
    · rfl
    · rw [List.nil_append, hmore]
      rfl
  · have hv := hafter v (List.mem_cons_self ..)
    rw [List.cons_append, List.head?_cons, Option.any_some]
    by_contra hword
    have hword : isWord v = true := by simpa using hword
    unfold isWord at hword
    unfold isSpace at hv
    simp only [Bool.or_eq_true, Bool.and_eq_true, beq_iff_eq, decide_eq_true_eq] at hv hword
    omega

/-- A name, without blanks or equals signs. -/
structure PlainName (name : Text) : Prop where
  ne_nil : name ≠ []
  units : ∀ u ∈ name, isSpace u = false ∧ u ≠ 0x3D ∧ u ≠ 0x3B

theorem trim_of_blanks {before core after : Text} (hbefore : ∀ u ∈ before, isSpace u = true) (hafter : ∀ u ∈ after, isSpace u = true)
    (hne : core ≠ []) (hcore : ∀ u ∈ core, isSpace u = false) : trim (before ++ core ++ after) = core := by
  have hdrop : (before ++ core ++ after).dropWhile isSpace = core ++ after := by
    rw [List.append_assoc, List.dropWhile_append_of_pos hbefore]
    rcases core with _ | ⟨v, core⟩
    · exact absurd rfl hne
    · rw [List.cons_append, List.dropWhile_cons, hcore v (List.mem_cons_self ..), if_neg Bool.false_ne_true]
  unfold trim dropTail
  rw [hdrop, List.reverse_append, List.dropWhile_append_of_pos fun u hu => hafter u (List.mem_reverse.mp hu)]
  rcases hrev : core.reverse with _ | ⟨v, more⟩
  · exact absurd (List.reverse_eq_nil_iff.mp hrev) hne
  · have hv := hcore v (List.mem_reverse.mp (hrev ▸ List.mem_cons_self ..))
    rw [List.dropWhile_cons, hv, if_neg Bool.false_ne_true, ← hrev, List.reverse_reverse]

/-- **An attribute is assigned to** when it has the name and an equals sign. -/
theorem assigned_iff (hname : PlainName name) :
    assigned name (av.dropWhile isSpace) = true ↔ SetCookie.attributeName av = name ∧ 0x3D ∈ av := by
  constructor
  · intro h
    unfold assigned at h
    obtain ⟨hstart, hequals⟩ := Bool.and_eq_true_iff.mp h
    have hequals := of_decide_eq_true hequals
    have hcore : ((av.dropWhile isSpace).take name.length).map asciiLower = name := by
      rw [List.map_take]
      exact (List.prefix_iff_eq_take.mp (List.isPrefixOf_iff_prefix.mp hstart)).symm
    obtain ⟨more, hmore⟩ : ∃ more, ((av.dropWhile isSpace).drop name.length).dropWhile isSpace = 0x3D :: more := by
      rcases hrest : ((av.dropWhile isSpace).drop name.length).dropWhile isSpace with _ | ⟨v, more⟩
      · rw [hrest] at hequals
        cases hequals
      · rw [hrest] at hequals
        exact ⟨more, by rw [Option.some.inj hequals]⟩
    have hsplit : av = av.takeWhile isSpace ++ (av.dropWhile isSpace).take name.length ++
        ((av.dropWhile isSpace).drop name.length).takeWhile isSpace ++ 0x3D :: more := by
      rw [← hmore, List.append_assoc, List.takeWhile_append_dropWhile, List.append_assoc, List.take_append_drop, List.takeWhile_append_dropWhile]
    have hunits : ∀ u ∈ (av.dropWhile isSpace).take name.length, isSpace u = false ∧ u ≠ 0x3D := by
      intro u hu
      obtain ⟨hspace, hequal, -⟩ := hname.units (asciiLower u) (hcore ▸ List.mem_map_of_mem hu)
      by_cases hlower : 0x41 ≤ u ∧ u ≤ 0x5A
      · refine ⟨?_, by omega⟩
        unfold isSpace
        simp only [Bool.or_eq_false_iff, Bool.and_eq_false_iff, beq_eq_false_iff_ne, decide_eq_false_iff_not]
        omega
      · rw [asciiLower, if_neg hlower] at hspace hequal
        exact ⟨hspace, hequal⟩
    have hblank {l : Text} : ∀ u ∈ l.takeWhile isSpace, isSpace u = true := fun u hu => List.mem_takeWhile_imp hu
    have hnone : ∀ u ∈ av.takeWhile isSpace ++ (av.dropWhile isSpace).take name.length ++
        ((av.dropWhile isSpace).drop name.length).takeWhile isSpace, decide (u ≠ 0x3D) = true := by
      intro u hu
      refine decide_eq_true fun heq => ?_
      subst heq
      rcases List.mem_append.mp hu with hu | hu
      · rcases List.mem_append.mp hu with hu | hu
        · exact absurd (hblank _ hu) (by decide)
        · exact (hunits _ hu).2 rfl
      · exact absurd (hblank _ hu) (by decide)
    have hbeforeEqual : av.takeWhile (· ≠ 0x3D) = av.takeWhile isSpace ++ (av.dropWhile isSpace).take name.length ++
        ((av.dropWhile isSpace).drop name.length).takeWhile isSpace := by
      conv_lhs => rw [hsplit]
      rw [takeWhile_append_cons (by decide)]
      exact List.takeWhile_eq_self_iff.mpr hnone
    have hne : (av.dropWhile isSpace).take name.length ≠ [] := by
      intro hnil
      rw [hnil] at hcore
      exact hname.ne_nil hcore.symm
    constructor
    · unfold SetCookie.attributeName
      rw [hbeforeEqual, trim_of_blanks hblank hblank hne fun u hu => (hunits u hu).1, hcore]
    · rw [hsplit]
      exact List.mem_append_right _ (List.mem_cons_self ..)
  · rintro ⟨h, hmem⟩
    obtain ⟨core, after, more, heq, hcore, hafter, hmore⟩ := attributeName_split hname.ne_nil h
    have hlength : name.length = core.length := by rw [← hcore, List.length_map]
    have hstart : startsWith ((core ++ (after ++ more)).map asciiLower) name = true := by
      unfold startsWith
      rw [List.map_append, hcore]
      exact List.isPrefixOf_iff_prefix.mpr (List.prefix_append _ _)
    unfold assigned
    rw [heq, hstart, hlength, List.drop_left, Bool.true_and, List.dropWhile_append_of_pos hafter]
    rcases hmore with ⟨-, hnot⟩ | hmore
    · exact absurd hmem hnot
    · rcases more with _ | ⟨v, more⟩
      · cases hmore
      · obtain rfl := Option.some.inj hmore
        simp [isSpace]

end Attributes

/-! ### The lines -/

namespace SetCookie

section Lines

variable {line : SetCookie} {lines : List SetCookie} {name : Text} {test : Text → Bool}

theorem nameUnit_of_token {u : ℕ} (h : isTokenUnit u = true) : isNameUnit u = true ∧ isSpace u = false ∧ u ≠ 0x3B := by
  have hall : ∀ u < 0x7F, isTokenUnit u = true → isNameUnit u = true ∧ isSpace u = false ∧ u ≠ 0x3B := by decide
  refine hall u ?_ h
  unfold isTokenUnit at h
  simp only [Bool.and_eq_true, decide_eq_true_eq] at h
  omega

theorem semicolon_notMem_pair : 0x3B ∉ line.name ++ [0x3D] ++ line.value := by
  have hoctets {text : Text} (h : text.all isCookieOctet = true) : 0x3B ∉ text := fun hmem =>
    absurd (List.all_eq_true.mp h _ hmem) (by decide)
  intro hmem
  rcases List.mem_append.mp hmem with hmem | hmem
  · rcases List.mem_append.mp hmem with hmem | hmem
    · exact (nameUnit_of_token (List.all_eq_true.mp line.token.2 _ hmem)).2.2 rfl
    · exact absurd (List.mem_singleton.mp hmem) (by decide)
  · rcases line.octets with h | ⟨inner, heq, h⟩
    · exact hoctets h hmem
    · rw [heq] at hmem
      rcases List.mem_append.mp hmem with hmem | hmem
      · rcases List.mem_append.mp hmem with hmem | hmem
        · exact absurd (List.mem_singleton.mp hmem) (by decide)
        · exact hoctets h hmem
      · exact absurd (List.mem_singleton.mp hmem) (by decide)

theorem startsPair_text (line : SetCookie) : startsPair line.text = true ∧ ∀ u ∈ line.text.head?, isSpace u = false := by
  obtain ⟨hne, htoken⟩ := line.token
  have hunits := fun u hu => nameUnit_of_token (List.all_eq_true.mp htoken u hu)
  have hsplit : line.text = line.name ++ 0x3D :: (line.value ++ line.attributes.flatMap ([0x3B, 0x20] ++ ·)) := by
    unfold SetCookie.text
    rw [List.append_assoc, List.append_assoc]
    rfl
  have hhead : ∀ u ∈ line.text.head?, isSpace u = false := by
    rw [hsplit]
    rcases hname : line.name with _ | ⟨v, name⟩
    · exact absurd hname hne
    · intro u hu
      obtain rfl := Option.some.inj hu
      exact (hunits v (hname ▸ List.mem_cons_self ..)).2.1
  refine ⟨?_, hhead⟩
  have hdrop : line.text.dropWhile isSpace = line.text := by
    rcases htext : line.text with _ | ⟨v, more⟩
    · rfl
    · rw [htext] at hhead
      rw [List.dropWhile_cons, hhead v rfl, if_neg Bool.false_ne_true]
  unfold startsPair
  rw [hdrop, hsplit]
  dsimp only
  rw [takeWhile_append_cons (by decide), dropWhile_append_cons (by decide), List.takeWhile_eq_self_iff.mpr fun u hu => (hunits u hu).1,
    List.dropWhile_eq_nil_iff.mpr fun u hu => (hunits u hu).1]
  simpa using hne

theorem carries_text (htest : Local test) (line : SetCookie) :
    carries test line.text = line.attributes.any fun av => test (av.dropWhile isSpace) := by
  unfold SetCookie.text
  rw [carries_append semicolon_notMem_pair, carries_attributes htest]
  intro av hav hmem
  exact absurd (List.all_eq_true.mp (line.units av hav) _ hmem) (by decide)

theorem resembles_iff (h : 0x3B ∉ name) : carries (named name) line.text = true ↔ line.Resembles name := by
  rw [carries_text (local_named h), List.any_eq_true]
  rfl

theorem assigns_iff (h : PlainName name) : carries (assigned name) line.text = true ↔ line.Assigns name := by
  rw [carries_text (local_assigned fun hmem => (h.units _ hmem).2.2 rfl), List.any_eq_true]
  exact exists_congr fun av => and_congr_right fun _ => assigned_iff h

theorem Has.resembles (h : line.Has name) (hne : name ≠ []) : line.Resembles name := by
  obtain ⟨av, hav, hname⟩ := h
  exact ⟨av, hav, named_of_attributeName hne hname⟩

theorem Assigns.has (h : line.Assigns name) : line.Has name := by
  obtain ⟨av, hav, hname, -⟩ := h
  exact ⟨av, hav, hname⟩

/-- A test of the pieces, when they are the lines. -/
theorem any_iff {P : SetCookie → Prop} (h : ∀ line, carries test line.text = true ↔ P line) :
    ((lines.map SetCookie.text).any (!carries test ·)) = true ↔ ∃ line ∈ lines, ¬ P line := by
  rw [List.any_map, List.any_eq_true]
  refine exists_congr fun line => and_congr_right fun _ => ?_
  rw [Function.comp_apply, Bool.not_eq_true', ← h, Bool.not_eq_true]

end Lines

end SetCookie

/-! ### The response -/

section Response

variable {net : Net} {raw before after : List (Text × HeaderValue)} {record : Headers} {key key' value joined : Text} {response : SafeResponse}
  {lines : List SetCookie} {address : URL}

theorem lookup_assign : (assign record key value).lookup key' = if key' = key then some value else record.lookup key' := by
  induction record with
  | nil =>
    show List.lookup key' [(key, value)] = _
    rw [List.lookup_cons]
    by_cases h : key' = key
    · rw [if_pos h, h, beq_self_eq_true]
    · rw [if_neg h, beq_eq_false_iff_ne.mpr h]
  | cons entry record ih =>
    obtain ⟨k, v⟩ := entry
    unfold assign at ih ⊢
    rw [List.any_cons, List.map_cons, List.cons_append]
    by_cases hk : k = key
    · subst hk
      rw [beq_self_eq_true, Bool.true_or, if_pos rfl, if_pos rfl, List.lookup_cons, List.lookup_cons]
      by_cases h : key' = k
      · rw [if_pos h, h, beq_self_eq_true]
      · rw [if_neg h, beq_eq_false_iff_ne.mpr h]
        dsimp only
        split at ih
        · rw [ih]
        · rename_i hany
          congr 1
          refine (List.map_congr_left fun e he => ?_).trans (List.map_id _)
          rw [if_neg fun heq => hany (List.any_eq_true.mpr ⟨e, he, heq⟩)]
          rfl
    · rw [beq_eq_false_iff_ne.mpr hk, Bool.false_or, if_neg Bool.false_ne_true]
      split
      · rename_i hany
        rw [if_pos hany] at ih
        rw [List.lookup_cons, List.lookup_cons, ih]
        by_cases h : key' = k
        · rw [h, beq_self_eq_true, if_neg hk, if_neg hk]
        · rw [beq_eq_false_iff_ne.mpr h]
      · rename_i hany
        rw [if_neg hany] at ih
        rw [List.lookup_cons, List.lookup_cons, ih]
        by_cases h : key' = k
        · rw [h, beq_self_eq_true, if_neg hk, if_neg hk]
        · rw [beq_eq_false_iff_ne.mpr h]

/-- The headers of a response, among them the lines of its cookies. -/
def Sends (net : Net) (raw : List (Text × HeaderValue)) (lines : List SetCookie) : Prop :=
  ∃ before key value after, raw = before ++ (key, value) :: after ∧ net.toLowerCase key = ascii "set-cookie" ∧
    (∀ entry ∈ after, net.toLowerCase entry.1 ≠ ascii "set-cookie") ∧
    (value = .many (lines.map SetCookie.text) ∨ ∃ line, lines = [line] ∧ value = .one line.text)

theorem lookup_headerRecord (h : Sends net raw lines) :
    (headerRecord net raw).lookup (ascii "set-cookie") = some ((ascii ", ").intercalate (lines.map SetCookie.text)) := by
  obtain ⟨before, key, value, after, rfl, hkey, hafter, hvalue⟩ := h
  unfold headerRecord
  rw [List.foldl_append, List.foldl_cons]
  generalize List.foldl _ _ before = record
  -- the other headers do not touch it
  refine List.foldlRecOn (motive := fun record : Headers => record.lookup (ascii "set-cookie") = some _) after _ ?_
    fun record hlookup entry hentry => ?_
  · rcases hvalue with rfl | ⟨line, rfl, rfl⟩
    · dsimp only
      rw [lookup_assign, if_pos hkey.symm]
    · dsimp only
      rw [lookup_assign, if_pos hkey.symm, List.map_singleton]
      simp [List.intercalate]
  · have hne := Ne.symm (hafter entry hentry)
    split
    · exact hlookup
    · rw [lookup_assign, if_neg hne, hlookup]
    · rw [lookup_assign, if_neg hne, hlookup]

/-- A flag is reported to be missing. -/
def Reports (net : Net) (response : SafeResponse) (flag : String) : Prop :=
  ∃ findings, runCodeLayer net response = some findings ∧ ∃ finding ∈ findings, finding.checkId = ascii "owasp.cookie-missing-" ++ ascii flag

theorem exists_mem_ite {c : Prop} [Decidable c] {f : CapabilityFinding} {id : Text} :
    (∃ finding ∈ if c then [f] else [], finding.checkId = id) ↔ c ∧ f.checkId = id := by
  split
  · rename_i h
    simp [h]
  · rename_i h
    simp [h]

theorem reports_iff_or (flag : String) (hlookup : response.headers.lookup (ascii "set-cookie") = some joined)
    (haddress : net.parse response.url = some address) :
    Reports net response flag ↔
      ((address.protocol = ascii "https:" ∧ (splitSetCookie joined).any (!secureFlag ·) = true) ∧
          ascii "owasp.cookie-missing-" ++ ascii "secure" = ascii "owasp.cookie-missing-" ++ ascii flag ∨
        (splitSetCookie joined).any (!httpOnlyFlag ·) = true ∧
          ascii "owasp.cookie-missing-" ++ ascii "httponly" = ascii "owasp.cookie-missing-" ++ ascii flag) ∨
        (splitSetCookie joined).any (!sameSiteValue ·) = true ∧
          ascii "owasp.cookie-missing-" ++ ascii "samesite" = ascii "owasp.cookie-missing-" ++ ascii flag := by
  have hversion {findings : List CapabilityFinding} {f : Text → Option Text} :
      (∃ finding ∈ findings ++ [ascii "server", ascii "x-powered-by"].filterMap fun header =>
          (f header).bind fun value => if namesVersion value then some (versionFinding response.url header value) else none,
        finding.checkId = ascii "owasp.cookie-missing-" ++ ascii flag) ↔
      ∃ finding ∈ findings, finding.checkId = ascii "owasp.cookie-missing-" ++ ascii flag := by
    constructor
    · rintro ⟨finding, hmem, hid⟩
      rcases List.mem_append.mp hmem with hmem | hmem
      · exact ⟨finding, hmem, hid⟩
      · obtain ⟨header, -, hheader⟩ := List.mem_filterMap.mp hmem
        obtain ⟨value, -, hvalue⟩ := Option.bind_eq_some_iff.mp hheader
        split at hvalue
        · obtain rfl := Option.some.inj hvalue
          have hletter : some 0x73 = some 0x63 := congrArg (fun text : Text => text[6]?) hid
          cases hletter
        · cases hvalue
    · rintro ⟨finding, hmem, hid⟩
      exact ⟨finding, List.mem_append_left _ hmem, hid⟩
  unfold Reports runCodeLayer cookieFindings
  rw [hlookup]
  dsimp only
  rw [haddress]
  simp only [Option.map_some, Option.some.injEq, exists_eq_left', hversion]
  simp only [List.mem_append, or_and_right, exists_or, exists_mem_ite]
  rfl

/-- **What is reported**, of the pieces. -/
theorem reports_iff (hlookup : response.headers.lookup (ascii "set-cookie") = some joined) (haddress : net.parse response.url = some address) :
    (Reports net response "secure" ↔ address.protocol = ascii "https:" ∧ (splitSetCookie joined).any (!secureFlag ·) = true) ∧
      (Reports net response "httponly" ↔ (splitSetCookie joined).any (!httpOnlyFlag ·) = true) ∧
      (Reports net response "samesite" ↔ (splitSetCookie joined).any (!sameSiteValue ·) = true) := by
  have hother {a b : String} (h : ascii a ≠ ascii b) : ¬ ascii "owasp.cookie-missing-" ++ ascii a = ascii "owasp.cookie-missing-" ++ ascii b :=
    fun heq => h (List.append_cancel_left heq)
  refine ⟨?_, ?_, ?_⟩
  · rw [reports_iff_or "secure" hlookup haddress]
    simp only [hother (show ascii "httponly" ≠ ascii "secure" by decide), hother (show ascii "samesite" ≠ ascii "secure" by decide), and_false,
      or_false, and_true]
  · rw [reports_iff_or "httponly" hlookup haddress]
    simp only [hother (show ascii "secure" ≠ ascii "httponly" by decide), hother (show ascii "samesite" ≠ ascii "httponly" by decide), and_false,
      or_false, false_or, and_true]
  · rw [reports_iff_or "samesite" hlookup haddress]
    simp only [hother (show ascii "secure" ≠ ascii "samesite" by decide), hother (show ascii "httponly" ≠ ascii "samesite" by decide), and_false,
      or_false, false_or, and_true]

/-- The split gives the lines back, and a flag is reported to be missing when some line has no attribute of that name. -/
structure Checked (net : Net) (response : SafeResponse) (address : URL) (lines : List SetCookie) : Prop where
  split : ∃ joined, response.headers.lookup (ascii "set-cookie") = some joined ∧ splitSetCookie joined = lines.map SetCookie.text
  httpOnly : Reports net response "httponly" ↔ ∃ line ∈ lines, ¬ line.Has (ascii "httponly")
  sameSite : Reports net response "samesite" ↔ ∃ line ∈ lines, ¬ line.Has (ascii "samesite")
  secure : address.protocol = ascii "https:" → (Reports net response "secure" ↔ ∃ line ∈ lines, ¬ line.Has (ascii "secure"))

/-- In no line a comma comes before a name and an equals sign, none ends in a blank; not all lines without the attribute have one that begins
like it, and if all have a `SameSite` all assign to it. -/
structure Plain (address : URL) (lines : List SetCookie) : Prop where
  uncut : ∀ line ∈ lines, cut line.text = false
  ended : ∀ line ∈ lines, ∀ u ∈ line.text.getLast?, isSpace u = false
  httpOnly : (∃ line ∈ lines, ¬ line.Has (ascii "httponly")) → ∃ line ∈ lines, ¬ line.Resembles (ascii "httponly")
  sameSite : (∃ line ∈ lines, ¬ line.Assigns (ascii "samesite")) → ∃ line ∈ lines, ¬ line.Has (ascii "samesite")
  secure : address.protocol = ascii "https:" → (∃ line ∈ lines, ¬ line.Has (ascii "secure")) → ∃ line ∈ lines, ¬ line.Resembles (ascii "secure")

/-- **Every cookie is checked**, exactly when the lines are plain. -/
theorem checked_iff (net : Net) (raw : List (Text × HeaderValue)) (lines : List SetCookie) (hne : lines ≠ []) (hraw : Sends net raw lines)
    (response : SafeResponse) (hresponse : response.headers = headerRecord net raw) (address : URL)
    (haddress : net.parse response.url = some address) : Checked net response address lines ↔ Plain address lines := by
  have hlookup := lookup_headerRecord hraw
  rw [← hresponse] at hlookup
  have hstarts : ∀ text ∈ lines.map SetCookie.text, startsPair text = true ∧ ∀ u ∈ text.head?, isSpace u = false := by
    intro text htext
    obtain ⟨line, -, rfl⟩ := List.mem_map.mp htext
    exact SetCookie.startsPair_text line
  have hjoin := splitSetCookie_join (by simpa using hne) fun text htext => (hstarts text htext).1
  have hsplit : splitSetCookie ((ascii ", ").intercalate (lines.map SetCookie.text)) = lines.map SetCookie.text ↔
      ∀ line ∈ lines, cut line.text = false ∧ ∀ u ∈ line.text.getLast?, isSpace u = false := by
    rw [hjoin, flatMap_eq_self_iff fun text htext => splitSetCookie_ne_nil (hstarts text htext).1, List.forall_mem_map]
    refine forall₂_congr fun line hline => splitSetCookie_eq_singleton_iff ?_ ?_
    · exact (SetCookie.startsPair_text line).1
    · exact (SetCookie.startsPair_text line).2
  obtain ⟨hsecure, hhttpOnly, hsameSite⟩ := reports_iff hlookup haddress
  have hnames : 0x3B ∉ ascii "secure" ∧ 0x3B ∉ ascii "httponly" ∧ PlainName (ascii "samesite") := ⟨by decide, by decide, by decide, by decide⟩
  -- what is reported, once the pieces are the lines
  have hreports (heq : splitSetCookie ((ascii ", ").intercalate (lines.map SetCookie.text)) = lines.map SetCookie.text) :
      (Reports net response "secure" ↔ address.protocol = ascii "https:" ∧ ∃ line ∈ lines, ¬ line.Resembles (ascii "secure")) ∧
      (Reports net response "httponly" ↔ ∃ line ∈ lines, ¬ line.Resembles (ascii "httponly")) ∧
      (Reports net response "samesite" ↔ ∃ line ∈ lines, ¬ line.Assigns (ascii "samesite")) := by
    rw [heq] at hsecure hhttpOnly hsameSite
    refine ⟨hsecure.trans (and_congr_right fun _ => ?_), hhttpOnly.trans ?_, hsameSite.trans ?_⟩
    · exact SetCookie.any_iff fun line => SetCookie.resembles_iff hnames.1
    · exact SetCookie.any_iff fun line => SetCookie.resembles_iff hnames.2.1
    · exact SetCookie.any_iff fun line => SetCookie.assigns_iff hnames.2.2
  have hhas {name : Text} (hname : name ≠ []) : (∃ line ∈ lines, ¬ line.Resembles name) → ∃ line ∈ lines, ¬ line.Has name := by
    rintro ⟨line, hline, hnot⟩
    exact ⟨line, hline, fun h => hnot (h.resembles hname)⟩
  constructor
  · intro hc
    obtain ⟨joined, hjoined, heq⟩ := hc.split
    obtain rfl := Option.some.inj (hlookup.symm.trans hjoined)
    obtain ⟨hs, hh, hv⟩ := hreports heq
    have hlines := hsplit.mp heq
    exact ⟨fun line hline => (hlines line hline).1, fun line hline => (hlines line hline).2, fun h => hh.mp (hc.httpOnly.mpr h),
      fun h => hc.sameSite.mp (hv.mpr h), fun hhttps h => (hs.mp ((hc.secure hhttps).mpr h)).2⟩
  · intro hp
    have heq := hsplit.mpr fun line hline => ⟨hp.uncut line hline, hp.ended line hline⟩
    obtain ⟨hs, hh, hv⟩ := hreports heq
    refine ⟨⟨_, hlookup, heq⟩, ⟨fun h => hhas (by decide) (hh.mp h), fun h => hh.mpr (hp.httpOnly h)⟩,
      ⟨fun h => hp.sameSite (hv.mp h), ?_⟩, fun hhttps => ⟨fun h => hhas (by decide) (hs.mp h).2, fun h => hs.mpr ⟨hhttps, hp.secure hhttps h⟩⟩⟩
    rintro ⟨line, hline, hnot⟩
    exact hv.mpr ⟨line, hline, fun h => hnot h.has⟩

def shop : URL := ⟨ascii "https://shop.test/", ascii "https:", [], [], ascii "shop.test", none, nofun⟩

def shopNet : Net := ⟨fun _ => some shop, fun _ _ => some shop, id, id, fun _ => none, fun _ _ => ⟨true, "PUBLIC"⟩⟩

/-- A response of the shop. -/
def answers (lines : List SetCookie) : SafeResponse :=
  ⟨shop.href, 200, headerRecord shopNet [(ascii "set-cookie", .many (lines.map SetCookie.text))], [shop.href], []⟩

theorem sends_answers (lines : List SetCookie) : Sends shopNet [(ascii "set-cookie", .many (lines.map SetCookie.text))] lines :=
  ⟨[], ascii "set-cookie", _, [], rfl, rfl, fun _ h => absurd h List.not_mem_nil, .inl rfl⟩

/-- With a date, and every flag. -/
def session : SetCookie :=
  ⟨ascii "id", ascii "1", [ascii "Expires=Wed, 21 Oct 2026 07:28:00 GMT", ascii "Secure", ascii "HttpOnly", ascii "SameSite=Lax"],
    by decide, .inl (by decide), by decide⟩

/-- Without any. -/
def theme : SetCookie := ⟨ascii "theme", ascii "dark", [ascii "Path=/"], by decide, .inl (by decide), by decide⟩

theorem checked_session : Checked shopNet (answers [session, theme]) shop [session, theme] := by
  have hmem : theme ∈ [session, theme] := List.mem_cons_of_mem _ (List.mem_singleton_self _)
  refine (checked_iff shopNet _ [session, theme] (List.cons_ne_nil _ _) (sends_answers _) _ rfl shop rfl).mpr ⟨?_, ?_, ?_, ?_, ?_⟩
  · rintro line (_ | ⟨_, _ | ⟨_, h⟩⟩) <;> first | decide | cases h
  · rintro line (_ | ⟨_, _ | ⟨_, h⟩⟩) <;> first | decide | cases h
  · exact fun _ => ⟨theme, hmem, by decide⟩
  · exact fun _ => ⟨theme, hmem, by decide⟩
  · exact fun _ _ => ⟨theme, hmem, by decide⟩

/-- With a comma in its path. -/
def elsewhere : SetCookie :=
  ⟨ascii "id", ascii "1", [ascii "Path=/a, b=c", ascii "Secure", ascii "HttpOnly", ascii "SameSite=Lax"], by decide, .inl (by decide), by decide⟩

/-- Of one line two are made. -/
theorem path_cut : ¬ Checked shopNet (answers [elsewhere]) shop [elsewhere] := by
  intro h
  obtain ⟨joined, hjoined, heq⟩ := h.split
  obtain rfl := Option.some.inj ((lookup_headerRecord (sends_answers [elsewhere])).symm.trans hjoined)
  exact absurd (congrArg List.length heq) (by decide)

end Response

end WebAudit.Capabilities
