import Mathlib.Data.List.Infix
import WebAudit.Lib.Uri

/-!
# What a scope admits

A scope definition lists hosts, paths, schemes, ports and refs; `isInScope` judges one destination
at a time. Before a grant is written, `validateBounded` checks that every host of its scope is the
host of the target or below it.

## The model

Strings are texts. The case mapping of strings, `domainToASCII` and the parser behind `new URL` are
those of the platform: a `Platform` is these functions with what is known of the case mapping. A port
that is not an integer is `Num.other`, and so is what `STANDARD_PORTS` inherits.
-/

namespace WebAudit.Authorization

open WebAudit.Lib.Uri

structure Platform where
  toLowerCase : Text → Text
  domainToASCII : Text → Text
  /-- `new URL(text).hostname`; `none` where the constructor throws. -/
  hostname : Text → Option Text
  /-- The case of ASCII letters is lost. -/
  toLowerCase_ascii : ∀ s t : Text, s.map asciiLower = t.map asciiLower → toLowerCase s = toLowerCase t
  /-- A dot stays where it is. -/
  toLowerCase_dot : ∀ s : Text, toLowerCase (s ++ [dot]) = toLowerCase s ++ [dot]
  /-- And none comes up at the end. -/
  toLowerCase_last : ∀ s : Text, (toLowerCase s).getLast? = some dot → s.getLast? = some dot

/-! ### Normalization -/

/-- `LABEL_PATTERN`. -/
def labelPattern (label : Text) : Bool :=
  !label.isEmpty && label.all fun u =>
    (0x61 ≤ u && u ≤ 0x7A) || (0x30 ≤ u && u ≤ 0x39) || u == 0x5F || u == 0x2D

def normalizeHost (p : Platform) (raw : Text) : Option Text :=
  let stripped := stripDot (p.toLowerCase raw)
  if stripped.isEmpty then none
  else
    let folded := p.domainToASCII stripped
    if folded.isEmpty then none
    else if (folded.splitOn dot).all labelPattern then some folded
    else none

/-- Up to the query or the fragment. -/
def withoutQuery (raw : Text) : Text := raw.takeWhile fun u => u != 0x3F && u != 0x23

/-- The root is the empty path. -/
def render (resolved : List Text) : Text := if resolved.isEmpty then [] else slash :: [slash].intercalate resolved

def normalizePath (raw : Text) : Option Text :=
  (decodeURIComponent (withoutQuery raw)).map fun decoded =>
    render (resolve skipped parent (decoded.splitOn slash))

example : normalizePath (ascii "//a/./b/%2e%2E/%61dmin/?q=..") = some (ascii "/a/admin") := by decide

/-! ### Matching -/

/-- `*.`. -/
def wildcard : Text := [0x2A, dot]

def matchesHostPattern (p : Platform) (pattern host : Text) : Bool :=
  if startsWith pattern wildcard then
    match normalizeHost p (pattern.drop 2) with
    | none => false
    | some base =>
      if endsWith host (dot :: base) then
        let sub := host.take (host.length - base.length - 1)
        decide (0 < sub.length) && !sub.contains dot
      else false
  else normalizeHost p pattern == some host

def matchesPathPrefix (start path : Text) : Bool :=
  match normalizePath start with
  | none => false
  | some [] => true
  | some normalized => path == normalized || startsWith path (normalized ++ [slash])

def anyHost (p : Platform) (patterns : List Text) (host : Text) : Bool :=
  patterns.any fun pattern => matchesHostPattern p pattern host

def anyPath (starts : List Text) (path : Text) : Bool := starts.any fun start => matchesPathPrefix start path

inductive TargetKind where
  | web
  | repository
  deriving DecidableEq

/-- The fields of a `ScopeDefinition` row that matching reads. -/
structure ScopeDefinitionData where
  targetKind : TargetKind
  includedHosts : List Text
  excludedHosts : List Text
  includedPathPrefixes : List Text
  excludedPathPrefixes : List Text
  schemes : List Text
  ports : List ℤ
  repositoryFullName : Option Text
  includedRefs : List Text
  excludedRefs : List Text

/-- A value where a number is expected. -/
inductive Num where
  | int (n : ℤ)
  | other
  deriving DecidableEq

structure WebDestination where
  host : Text
  path : Text
  scheme : Text
  port : Option Num := none

structure RepositoryDestination where
  repositoryFullName : Text
  ref : Text
  path : Text

inductive Destination where
  | web (d : WebDestination)
  | repository (d : RepositoryDestination)

/-- `STANDARD_PORTS[scheme]`, with what the object inherits under a name without capitals. -/
def standardPort (scheme : Text) : Option Num :=
  if scheme = ascii "http" then some (.int 80)
  else if scheme = ascii "https" then some (.int 443)
  else if scheme = ascii "constructor" ∨ scheme = ascii "__proto__" then some .other
  else none

def isInWebScope (p : Platform) (scope : ScopeDefinitionData) (destination : WebDestination) : Bool :=
  let scheme := p.toLowerCase destination.scheme
  match normalizeHost p destination.host, normalizePath destination.path, standardPort scheme with
  | some host, some path, some standard =>
    match destination.port.getD standard with
    | .other => false
    | .int port =>
      if port < 1 ∨ 65535 < port then false
      else if anyHost p scope.excludedHosts host || anyPath scope.excludedPathPrefixes path then false
      else
        let schemeAdmitted := scope.schemes.isEmpty || scope.schemes.any fun allowed => p.toLowerCase allowed == scheme
        let portAdmitted := if scope.ports.isEmpty then .int port == standard else scope.ports.contains port
        schemeAdmitted && portAdmitted && anyHost p scope.includedHosts host && anyPath scope.includedPathPrefixes path
  | _, _, _ => false

def isInRepositoryScope (p : Platform) (scope : ScopeDefinitionData) (destination : RepositoryDestination) : Bool :=
  match scope.repositoryFullName with
  | none => false
  | some name =>
    if p.toLowerCase name ≠ p.toLowerCase destination.repositoryFullName then false
    else
      match normalizePath destination.path with
      | none => false
      | some path =>
        if scope.excludedRefs.contains destination.ref || anyPath scope.excludedPathPrefixes path then false
        else scope.includedRefs.contains destination.ref && anyPath scope.includedPathPrefixes path

def isInScope (p : Platform) (scope : ScopeDefinitionData) : Destination → Bool
  | .repository destination => scope.targetKind == .repository && isInRepositoryScope p scope destination
  | .web destination => scope.targetKind == .web && isInWebScope p scope destination

/-! ### What a grant may be written for -/

/-- The scope of a request. -/
structure ScopeDefinitionInput where
  targetKind : TargetKind
  includedHosts : Option (List Text) := none
  excludedHosts : Option (List Text) := none
  includedPathPrefixes : Option (List Text) := none
  excludedPathPrefixes : Option (List Text) := none
  schemes : Option (List Text) := none
  ports : Option (List ℤ) := none
  repositoryFullName : Option Text := none
  includedRefs : Option (List Text) := none
  excludedRefs : Option (List Text) := none

/-- What `insertGrant` writes of it. -/
def ScopeDefinitionInput.row (scope : ScopeDefinitionInput) : ScopeDefinitionData where
  targetKind := scope.targetKind
  includedHosts := scope.includedHosts.getD []
  excludedHosts := scope.excludedHosts.getD []
  includedPathPrefixes := scope.includedPathPrefixes.getD []
  excludedPathPrefixes := scope.excludedPathPrefixes.getD []
  schemes := scope.schemes.getD []
  ports := scope.ports.getD []
  repositoryFullName := scope.repositoryFullName
  includedRefs := scope.includedRefs.getD []
  excludedRefs := scope.excludedRefs.getD []

structure AuthorizationValidationError where
  code : String
  message : String
  deriving DecidableEq

def targetHost (p : Platform) (canonicalValue : Text) : Option Text :=
  match p.hostname canonicalValue with
  | some hostname => if hostname.isEmpty then normalizeHost p canonicalValue else normalizeHost p hostname
  | none => normalizeHost p canonicalValue

def isBoundedHost (p : Platform) (entry base : Text) : Bool :=
  match normalizeHost p (if startsWith entry wildcard then entry.drop 2 else entry) with
  | none => false
  | some host => host == base || endsWith host (dot :: base)

def refuseUnbounded : Except AuthorizationValidationError Unit :=
  .error ⟨"SCOPE_NOT_BOUNDED_TO_TARGET", "Scope names a host or repository outside the Target it is granted on."⟩

/-- For a target with this `canonicalValue`. -/
def validateBounded (p : Platform) (scope : ScopeDefinitionInput) (canonicalValue : Text) :
    Except AuthorizationValidationError Unit :=
  match scope.targetKind with
  | .repository => if scope.repositoryFullName = some canonicalValue then .ok () else refuseUnbounded
  | .web =>
    match targetHost p canonicalValue with
    | none => refuseUnbounded
    | some base =>
      let entries := scope.includedHosts.getD [] ++ scope.excludedHosts.getD []
      if entries.all fun entry => isBoundedHost p entry base then .ok () else refuseUnbounded

/-! ### Hosts -/

section Hosts

variable {p : Platform} {raw host base pattern : Text}

/-- The host itself, or one of its subdomains. -/
def Within (base host : Text) : Prop := host = base ∨ ∃ sub : Text, sub ≠ [] ∧ host = sub ++ dot :: base

theorem normalizeHost_labels (h : normalizeHost p raw = some host) :
    ∀ label ∈ host.splitOn dot, labelPattern label = true := by
  unfold normalizeHost at h
  dsimp only at h
  split at h
  · cases h
  split at h
  · cases h
  split at h
  · rename_i hlabels
    cases h
    exact List.all_eq_true.mp hlabels
  · cases h

/-- A normalized host does not start with a dot. -/
theorem normalizeHost_ne_dot (h : normalizeHost p raw = some (dot :: base)) : False := by
  have hlabel := normalizeHost_labels h [] (by rw [List.splitOn_cons_eq_if_modifyHead]; simp)
  simp [labelPattern] at hlabel

theorem within_of_endsWith (h : endsWith host (dot :: base) = true) (hne : ∀ tail, host ≠ dot :: tail) :
    Within base host := by
  obtain ⟨sub, hsub⟩ := endsWith_iff.mp h
  refine .inr ⟨sub, ?_, hsub.symm⟩
  intro hnil
  subst hnil
  exact hne base hsub.symm

theorem isBoundedHost_within {entry : Text} (h : isBoundedHost p entry base = true) :
    ∃ host, normalizeHost p (if startsWith entry wildcard then entry.drop 2 else entry) = some host ∧
      Within base host := by
  unfold isBoundedHost at h
  split at h
  · cases h
  · rename_i host hhost
    refine ⟨host, hhost, ?_⟩
    rw [Bool.or_eq_true, beq_iff_eq] at h
    rcases h with rfl | h
    · exact .inl rfl
    · exact within_of_endsWith h fun tail htail => normalizeHost_ne_dot (htail ▸ hhost)

/-- What a pattern that is not a wildcard matches. -/
theorem matchesHostPattern_exact (hw : startsWith pattern wildcard = false) :
    matchesHostPattern p pattern host = true ↔ normalizeHost p pattern = some host := by
  simp [matchesHostPattern, hw]

/-- What a wildcard matches: one label more. -/
theorem matchesHostPattern_wildcard (hw : startsWith pattern wildcard = true) :
    matchesHostPattern p pattern host = true ↔
      ∃ base label, normalizeHost p (pattern.drop 2) = some base ∧ host = label ++ dot :: base ∧ label ≠ [] ∧ dot ∉ label := by
  unfold matchesHostPattern
  rw [if_pos hw]
  cases normalizeHost p (pattern.drop 2) with
  | none => simp
  | some base =>
    dsimp only
    have htake (label : Text) : (label ++ dot :: base).take ((label ++ dot :: base).length - base.length - 1) = label := by
      rw [List.length_append, List.length_cons, show label.length + (base.length + 1) - base.length - 1 = label.length by omega]
      exact List.take_left
    constructor
    · intro h
      split at h
      · rename_i hends
        obtain ⟨label, hlabel⟩ := endsWith_iff.mp hends
        subst hlabel
        rw [htake] at h
        refine ⟨base, label, rfl, rfl, ?_, ?_⟩
        · rintro rfl
          simp at h
        · simpa using (Bool.and_eq_true_iff.mp h).2
      · cases h
    · rintro ⟨_, label, hbase, rfl, hne, hdot⟩
      cases hbase
      rw [if_pos (endsWith_iff.mpr ⟨label, rfl⟩), htake]
      simp [List.length_pos_iff.mpr hne, hdot]

/-- A bounded pattern matches only hosts within the base. -/
theorem matchesHostPattern_within (hb : isBoundedHost p pattern base = true)
    (h : matchesHostPattern p pattern host = true) : Within base host := by
  obtain ⟨entry, hentry, hwithin⟩ := isBoundedHost_within hb
  cases hw : startsWith pattern wildcard with
  | false =>
    rw [hw] at hentry
    rw [matchesHostPattern_exact hw] at h
    cases hentry.symm.trans h
    exact hwithin
  | true =>
    rw [hw] at hentry
    obtain ⟨_, label, hbase, rfl, hne, -⟩ := (matchesHostPattern_wildcard hw).mp h
    cases hentry.symm.trans hbase
    rcases hwithin with rfl | ⟨sub, hsub, rfl⟩
    · exact .inr ⟨label, hne, rfl⟩
    · exact .inr ⟨label ++ dot :: sub, by simp, by simp⟩

end Hosts

/-! ### One destination, written differently -/

/-- Two ways to write a host: in letters of either case, with or without one trailing dot. -/
inductive SameHost : Text → Text → Prop where
  | letters {s t : Text} (h : s.map asciiLower = t.map asciiLower) : SameHost s t
  | dot {s : Text} (h : s.getLast? ≠ some dot) : SameHost s (s ++ [dot])
  | symm {s t : Text} (h : SameHost s t) : SameHost t s
  | trans {s t u : Text} (h : SameHost s t) (h' : SameHost t u) : SameHost s u

/-- Two ways to write a path: they decode to texts whose segments differ in empty segments and dot segments. -/
structure SamePath (raw raw' : Text) : Prop where
  decoded : ∃ text text', Encodes (withoutQuery raw) text ∧ Encodes (withoutQuery raw') text' ∧
    Same skipped parent (text.splitOn slash) (text'.splitOn slash)

/-- They name the same host and the same path. -/
structure WebDestination.Same (d d' : WebDestination) : Prop where
  host : SameHost d.host d'.host
  path : SamePath d.path d'.path

section Respelled

variable {p : Platform} {s t raw raw' : Text}

theorem stripDot_concat (text : Text) : stripDot (text ++ [dot]) = text := by
  unfold stripDot
  rw [if_pos (endsWith_iff.mpr ⟨text, rfl⟩), List.dropLast_concat]

theorem stripDot_of_last {text : Text} (h : text.getLast? ≠ some dot) : stripDot text = text := by
  unfold stripDot
  rw [if_neg]
  intro hends
  obtain ⟨front, rfl⟩ := endsWith_iff.mp hends
  exact h List.getLast?_concat

/-- The dot and the case are gone before anything else is done. -/
theorem SameHost.strip (h : SameHost s t) : stripDot (p.toLowerCase s) = stripDot (p.toLowerCase t) := by
  induction h with
  | letters h => rw [p.toLowerCase_ascii _ _ h]
  | dot h =>
    rw [p.toLowerCase_dot, stripDot_concat]
    exact stripDot_of_last fun hlast => h (p.toLowerCase_last _ hlast)
  | symm _ ih => exact ih.symm
  | trans _ _ ih ih' => exact ih.trans ih'

theorem SameHost.normalize (h : SameHost s t) : normalizeHost p s = normalizeHost p t := by
  unfold normalizeHost
  rw [h.strip]

theorem SamePath.normalize (h : SamePath raw raw') : normalizePath raw = normalizePath raw' := by
  obtain ⟨text, text', htext, htext', hsame⟩ := h.decoded
  unfold normalizePath
  rw [decodeURIComponent_eq_some.mpr htext, decodeURIComponent_eq_some.mpr htext', Option.map_some, Option.map_some,
    hsame.resolve_eq]

end Respelled

/-! ### Containment -/

section Containment

variable {p : Platform} {data : ScopeDefinitionData} {d d' : WebDestination}

/-- The destination is judged by its normal form, and this is what is found. -/
structure Admits (p : Platform) (data : ScopeDefinitionData) (host path : Text) : Prop where
  hosts : ∃ pattern ∈ data.includedHosts, matchesHostPattern p pattern host = true
  paths : ∃ start ∈ data.includedPathPrefixes, matchesPathPrefix start path = true
  hostsOut : ∀ pattern ∈ data.excludedHosts, matchesHostPattern p pattern host = false
  pathsOut : ∀ start ∈ data.excludedPathPrefixes, matchesPathPrefix start path = false

/-- The normal form of the destination matches an exclusion. -/
def Excluded (p : Platform) (data : ScopeDefinitionData) (d : WebDestination) : Prop :=
  (∃ host, normalizeHost p d.host = some host ∧ ∃ pattern ∈ data.excludedHosts, matchesHostPattern p pattern host = true) ∨
    ∃ path, normalizePath d.path = some path ∧
      ∃ start ∈ data.excludedPathPrefixes, matchesPathPrefix start path = true

theorem isInScope_admits (h : isInScope p data (.web d) = true) :
    data.targetKind = .web ∧ ∃ host path, normalizeHost p d.host = some host ∧ normalizePath d.path = some path ∧
      Admits p data host path := by
  rw [isInScope, Bool.and_eq_true, beq_iff_eq] at h
  obtain ⟨hkind, h⟩ := h
  refine ⟨hkind, ?_⟩
  unfold isInWebScope at h
  dsimp only at h
  split at h
  · rename_i host path standard hhost hpath _
    refine ⟨host, path, hhost, hpath, ?_⟩
    split at h
    · cases h
    split at h
    · cases h
    split at h
    · cases h
    rename_i hout
    rw [Bool.or_eq_true, not_or, Bool.not_eq_true, Bool.not_eq_true] at hout
    simp only [Bool.and_eq_true] at h
    exact
      { hosts := List.any_eq_true.mp h.1.2
        paths := List.any_eq_true.mp h.2
        hostsOut := by simpa [anyHost] using hout.1
        pathsOut := by simpa [anyPath] using hout.2 }
  · cases h

theorem not_excluded (h : isInScope p data (.web d) = true) : ¬ Excluded p data d := by
  obtain ⟨-, host, path, hhost, hpath, hadmits⟩ := isInScope_admits h
  rintro (⟨host', hhost', pattern, hmem, hmatch⟩ | ⟨path', hpath', start, hmem, hmatch⟩)
  · cases hhost.symm.trans hhost'
    exact Bool.false_ne_true ((hadmits.hostsOut pattern hmem).symm.trans hmatch)
  · cases hpath.symm.trans hpath'
    exact Bool.false_ne_true ((hadmits.pathsOut start hmem).symm.trans hmatch)

theorem Excluded.same (h : Excluded p data d) (hsame : d.Same d') : Excluded p data d' := by
  unfold Excluded
  rw [← hsame.host.normalize, ← hsame.path.normalize]
  exact h

theorem validateBounded_web {scope : ScopeDefinitionInput} {canonicalValue : Text} (hkind : scope.targetKind = .web)
    (h : validateBounded p scope canonicalValue = .ok ()) :
    ∃ base, targetHost p canonicalValue = some base ∧
      ∀ entry ∈ scope.row.includedHosts ++ scope.row.excludedHosts, isBoundedHost p entry base = true := by
  unfold validateBounded at h
  rw [hkind] at h
  dsimp only at h
  split at h
  · cases h
  · rename_i base hbase
    refine ⟨base, hbase, ?_⟩
    split at h
    · rename_i hall
      exact List.all_eq_true.mp hall
    · cases h

/-- **Containment**, and no way around an exclusion. -/
theorem scope_contains (p : Platform) (scope : ScopeDefinitionInput) (canonicalValue : Text)
    (hbounded : validateBounded p scope canonicalValue = .ok ()) :
    (∀ d : WebDestination, isInScope p scope.row (.web d) = true →
      ∃ base host path, targetHost p canonicalValue = some base ∧ normalizeHost p d.host = some host ∧
        normalizePath d.path = some path ∧ Within base host ∧ Admits p scope.row host path) ∧
    ∀ d d' : WebDestination, d.Same d' → Excluded p scope.row d → isInScope p scope.row (.web d') = false := by
  constructor
  · intro d hin
    obtain ⟨hkind, host, path, hhost, hpath, hadmits⟩ := isInScope_admits hin
    obtain ⟨base, hbase, hentries⟩ := validateBounded_web hkind hbounded
    obtain ⟨pattern, hmem, hmatch⟩ := hadmits.hosts
    have hpattern := hentries pattern (List.mem_append_left _ hmem)
    exact ⟨base, host, path, hbase, hhost, hpath, matchesHostPattern_within hpattern hmatch, hadmits⟩
  · intro d d' hsame hexcluded
    by_contra hin
    rw [Bool.not_eq_false] at hin
    exact not_excluded hin (hexcluded.same hsame)

end Containment

/-! ### An instance -/

theorem last_map_asciiLower (s : Text) (h : (s.map asciiLower).getLast? = some dot) : s.getLast? = some dot := by
  rw [List.getLast?_map] at h
  obtain ⟨u, hu, hdot⟩ := Option.map_eq_some_iff.mp h
  rw [hu]
  unfold asciiLower dot at hdot
  split at hdot
  · omega
  · rw [hdot]
    rfl

/-- A platform for ASCII texts, with bare hosts as targets. -/
def plain : Platform where
  toLowerCase s := s.map asciiLower
  domainToASCII s := s
  hostname _ := none
  toLowerCase_ascii _ _ h := h
  toLowerCase_dot _ := List.map_append
  toLowerCase_last := last_map_asciiLower

/-- All of a site but what is under `/admin` and its host for documents. -/
def siteScope : ScopeDefinitionInput where
  targetKind := .web
  includedHosts := some [ascii "Example.com", ascii "*.example.com"]
  excludedHosts := some [ascii "docs.example.com"]
  includedPathPrefixes := some [ascii ""]
  excludedPathPrefixes := some [ascii "/admin"]

theorem scope_contains_site :
    validateBounded plain siteScope (ascii "example.com") = .ok () ∧
      (∀ d : WebDestination, isInScope plain siteScope.row (.web d) = true →
        ∃ base host path, targetHost plain (ascii "example.com") = some base ∧ normalizeHost plain d.host = some host ∧
          normalizePath d.path = some path ∧ Within base host ∧ Admits plain siteScope.row host path) ∧
      ∀ d d' : WebDestination, d.Same d' → Excluded plain siteScope.row d →
        isInScope plain siteScope.row (.web d') = false :=
  ⟨by decide, scope_contains plain siteScope (ascii "example.com") (by decide)⟩

end WebAudit.Authorization
