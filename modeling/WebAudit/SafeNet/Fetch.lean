import Mathlib.Algebra.Order.Ring.Int
import Mathlib.Data.List.Chain
import WebAudit.Lib.Uri

/-!
# Guarded fetches

`guardedFetch` follows redirects by hand: every hop is validated by its form and by the addresses
its name resolves to, and the socket that is dialled is checked again before anything is written to
it.

## The model

The parser of URLs, the case mappings and the classification of addresses are a `Net`. What the
outside answers at each hop is a `World`: the resolver, the peer of the socket, and the reply; a
request or an answer may fail there, with an error in `ε`. A fetch is the list of the requests that
were written and its result.
-/

namespace WebAudit.SafeNet

open WebAudit.Lib.Uri

/-! ### URLs -/

/-- The port that goes without saying. -/
def defaultPort (protocol : Text) : Option ℕ :=
  if protocol = ascii "http:" then some 80 else if protocol = ascii "https:" then some 443 else none

structure URL where
  href : Text
  protocol : Text
  username : Text
  password : Text
  hostname : Text
  /-- `none` for the default. -/
  port : Option ℕ
  elided : ∀ n, port = some n → defaultPort protocol ≠ some n

namespace URL

/-- `host` is `hostname`, followed by the port unless it is elided. -/
def host (u : URL) : Text × Option ℕ := (u.hostname, u.port)

def effectivePort (u : URL) : Option ℕ := u.port.or (defaultPort u.protocol)

/-- The same scheme, host and port. -/
structure SameOrigin (u v : URL) : Prop where
  protocol : u.protocol = v.protocol
  hostname : u.hostname = v.hostname
  port : u.effectivePort = v.effectivePort

theorem sameOrigin_of_host {u v : URL} (hprotocol : u.protocol = v.protocol) (hhost : u.host = v.host) : SameOrigin u v where
  protocol := hprotocol
  hostname := congrArg Prod.fst hhost
  port := by
    unfold effectivePort
    rw [hprotocol, show u.port = v.port from congrArg Prod.snd hhost]

end URL

structure ParsedAddress where
  version : ℕ
  address : Text
  bytes : List ℕ

structure AddressPolicy where
  allowLoopback : Bool

structure AddressVerdict where
  allowed : Bool
  addressClass : String

/-- What the guard asks of the platform, and of the classifier. -/
structure Net where
  /-- `new URL(text)`; `none` where it throws. -/
  parse : Text → Option URL
  /-- `new URL(text, base)`. -/
  parseAt : Text → URL → Option URL
  toLowerCase : Text → Text
  toUpperCase : Text → Text
  parseIpLiteral : Text → Option ParsedAddress
  classifyHostAddress : ParsedAddress → AddressPolicy → AddressVerdict

def classifyAddressString (net : Net) (address : Text) (policy : AddressPolicy) : AddressVerdict :=
  match net.parseIpLiteral address with
  | none => ⟨false, "UNPARSEABLE"⟩
  | some parsed => net.classifyHostAddress parsed policy

/-! ### Refusals -/

inductive SsrfRefusalReason where
  | urlUnparseable
  | schemeNotAllowed
  | credentialsInUrl
  | hostnameNotPublic
  | literalAddressDisallowed
  | dnsNoAddresses
  | resolvedAddressDisallowed
  | connectAddressDisallowed
  | tooManyRedirects
  | redirectLocationInvalid
  deriving DecidableEq

structure SsrfRefusedError where
  reason : SsrfRefusalReason
  target : Text
  addressClass : Option String := none
  hop : ℤ

inductive Failure (ε : Type) where
  | refused (e : SsrfRefusedError)
  | other (e : ε)
  /-- `Response exceeded … bytes`. -/
  | exceeded (maxBytes : ℕ)

/-! ### The form of a URL -/

structure ValidatedTarget where
  url : URL
  hostname : Text
  literal : Option ParsedAddress

/-- `INTERNAL_SUFFIXES`. -/
def internalSuffixes : List Text :=
  ["localhost", "local", "internal", "intranet", "private", "corp", "lan", "home.arpa", "localdomain"].map ascii

def isInternalName (hostname : Text) : Bool :=
  let name := stripDot hostname
  internalSuffixes.any fun suffix => name == suffix || endsWith name (dot :: suffix)

/-- Without the brackets of an IPv6 address. -/
def unbracket (hostname : Text) : Text :=
  let rest := if startsWith hostname (ascii "[") then hostname.drop 1 else hostname
  if endsWith rest (ascii "]") then rest.dropLast else rest

def validateUrl (net : Net) (policy : AddressPolicy) (raw : Text) (hop : ℕ) : Except SsrfRefusedError ValidatedTarget :=
  match net.parse raw with
  | none => .error ⟨.urlUnparseable, raw, none, hop⟩
  | some url =>
    if url.protocol ≠ ascii "http:" ∧ url.protocol ≠ ascii "https:" then .error ⟨.schemeNotAllowed, raw, none, hop⟩
    else if url.username ≠ [] ∨ url.password ≠ [] then .error ⟨.credentialsInUrl, raw, none, hop⟩
    else if url.hostname = [] then .error ⟨.urlUnparseable, raw, none, hop⟩
    else
      let hostname := unbracket url.hostname
      match net.parseIpLiteral hostname with
      | some literal =>
        let verdict := net.classifyHostAddress literal policy
        if verdict.allowed then .ok ⟨url, hostname, some literal⟩
        else .error ⟨.literalAddressDisallowed, raw, some verdict.addressClass, hop⟩
      | none =>
        if isInternalName hostname then .error ⟨.hostnameNotPublic, raw, none, hop⟩
        else .ok ⟨url, hostname, none⟩

/-! ### What a name resolves to -/

/-- With the `code` of the error. -/
structure ResolverError (ε : Type) where
  code : Text
  error : ε

def assertResolvedAddressesAllowed {ε : Type} (net : Net) (policy : AddressPolicy) (hostname : Text) (hop : ℕ)
    (answer : Except (ResolverError ε) (List Text)) : Except (Failure ε) (List Text) :=
  match answer with
  | .error e =>
    if e.code = ascii "ENOTFOUND" ∨ e.code = ascii "ENODATA" ∨ e.code = ascii "EAI_AGAIN" then
      .error (.refused ⟨.dnsNoAddresses, hostname, none, hop⟩)
    else .error (.other e.error)
  | .ok [] => .error (.refused ⟨.dnsNoAddresses, hostname, none, hop⟩)
  | .ok addresses =>
    match addresses.find? fun address => !(classifyAddressString net address policy).allowed with
    | some address =>
      .error (.refused ⟨.resolvedAddressDisallowed, address, some (classifyAddressString net address policy).addressClass, hop⟩)
    | none => .ok addresses

/-- The peer of the socket, once it may be written to. -/
def safeConnect {ε : Type} (net : Net) (policy : AddressPolicy) (hostname : Text) (hop : ℕ)
    (remoteAddress : Except ε (Option Text)) : Except (Failure ε) Text :=
  match remoteAddress with
  | .error e => .error (.other e)
  | .ok none => .error (.refused ⟨.connectAddressDisallowed, hostname, some "UNKNOWN", hop⟩)
  | .ok (some remote) =>
    let verdict := classifyAddressString net remote policy
    if verdict.allowed then .ok remote
    else .error (.refused ⟨.connectAddressDisallowed, remote, some verdict.addressClass, hop⟩)

/-! ### One hop -/

abbrev Headers := List (Text × Text)

/-- A header as the client gives it. -/
inductive HeaderValue where
  | one (value : Text)
  | many (values : List Text)
  | absent

/-- Assign to a property of a record. -/
def assign (record : Headers) (key value : Text) : Headers :=
  if record.any fun entry => entry.1 == key then record.map fun entry => if entry.1 == key then (key, value) else entry
  else record ++ [(key, value)]

def headerRecord (net : Net) (raw : List (Text × HeaderValue)) : Headers :=
  raw.foldl
    (fun out entry =>
      match entry.2 with
      | .absent => out
      | .one value => assign out (net.toLowerCase entry.1) value
      | .many values => assign out (net.toLowerCase entry.1) ((ascii ", ").intercalate values))
    []

def methodAfterRedirect (status : ℕ) (method : Text) : Text :=
  if status = 303 ∧ method ≠ ascii "GET" ∧ method ≠ ascii "HEAD" then ascii "GET"
  else if status = 301 ∨ status = 302 then if method = ascii "POST" then ascii "GET" else method
  else method

/-- `SENSITIVE_HEADERS`. -/
def sensitiveHeaders : List Text := [ascii "authorization", ascii "cookie", ascii "proxy-authorization"]

/-- `__proto__` is not assigned to. -/
def headersForHop (net : Net) (headers : Option Headers) (hop : ℕ) (hostname : Text) (host : Text × Option ℕ)
    (previousHost : Option (Text × Option ℕ)) (allowedRedirectHosts : Option (List Text)) : Option Headers :=
  match headers with
  | none => none
  | some headers =>
    if hop = 0 ∨ previousHost = some host ∨ hostname ∈ allowedRedirectHosts.getD [] then some headers
    else some (headers.filter fun entry => !sensitiveHeaders.contains (net.toLowerCase entry.1) && entry.1 != ascii "__proto__")

structure GuardedFetchOptions where
  method : Option Text := none
  headers : Option Headers := none
  body : Option (List ℕ) := none
  maxRedirects : Option ℤ := none
  maxResponseBytes : Option ℕ := none
  allowedRedirectHosts : Option (List Text) := none
  policy : Option AddressPolicy := none

namespace GuardedFetchOptions

def addressPolicy (options : GuardedFetchOptions) : AddressPolicy := options.policy.getD ⟨false⟩
def redirectBudget (options : GuardedFetchOptions) : ℤ := options.maxRedirects.getD 5
def maxBytes (options : GuardedFetchOptions) : ℕ := options.maxResponseBytes.getD (10 * 1024 * 1024)
def allowlist (options : GuardedFetchOptions) : List Text := options.allowedRedirectHosts.getD []

end GuardedFetchOptions

/-- What comes back for a request. -/
inductive Reply (ε : Type) where
  | failed (e : ε)
  | response (statusCode : ℕ) (headers : List (Text × HeaderValue)) (body : List (List ℕ))

/-- What the outside answers, at each hop. -/
structure World (ε : Type) where
  resolver : ℕ → Text → Except (ResolverError ε) (List Text)
  socket : ℕ → Except ε (Option Text)
  reply : ℕ → Reply ε

/-- A request that is written to a socket. -/
structure Request where
  hop : ℕ
  target : ValidatedTarget
  peer : Text
  method : Text
  headers : Option Headers
  body : Option (List ℕ)

structure SafeResponse where
  url : Text
  status : ℕ
  headers : Headers
  redirects : List Text
  bytes : List ℕ

/-- The variables of the loop. -/
structure State where
  hop : ℕ
  redirects : List Text
  currentUrl : Text
  method : Text
  body : Option (List ℕ)
  previousHost : Option (Text × Option ℕ)
  carriedHeaders : Option Headers

section Hop

variable {ε : Type}

/-- Whether the addresses of a name, as opposed to a literal, are allowed. -/
def resolveGuard (net : Net) (world : World ε) (options : GuardedFetchOptions) (hop : ℕ) (target : ValidatedTarget) :
    Except (Failure ε) Unit :=
  match target.literal with
  | some _ => .ok ()
  | none =>
    (assertResolvedAddressesAllowed net options.addressPolicy target.hostname hop (world.resolver hop target.hostname)).map
      fun _ => ()

/-- A hop, up to its request. -/
def dial (net : Net) (world : World ε) (options : GuardedFetchOptions) (s : State) : Except (Failure ε) Request :=
  match validateUrl net options.addressPolicy s.currentUrl s.hop with
  | .error e => .error (.refused e)
  | .ok target =>
    let headers := headersForHop net s.carriedHeaders s.hop target.hostname target.url.host s.previousHost
      options.allowedRedirectHosts
    match resolveGuard net world options s.hop target with
    | .error e => .error e
    | .ok () =>
      (safeConnect net options.addressPolicy target.hostname s.hop (world.socket s.hop)).map fun peer =>
        { hop := s.hop, target, peer, method := s.method, headers
          body := if s.method = ascii "GET" ∨ s.method = ascii "HEAD" then none else s.body }

/-- `REDIRECT_STATUSES`. -/
def redirectStatuses : List ℕ := [301, 302, 303, 307, 308]

/-- Where a redirect leads. -/
def follow (net : Net) (s : State) (request : Request) (status : ℕ) (headers : Headers) : Except (Failure ε) State :=
  match headers.lookup (ascii "location") with
  | none | some [] => .error (.refused ⟨.redirectLocationInvalid, request.target.url.href, none, s.hop⟩)
  | some location =>
    match net.parseAt location request.target.url with
    | none => .error (.refused ⟨.redirectLocationInvalid, location, none, s.hop⟩)
    | some next =>
      let method := methodAfterRedirect status s.method
      .ok { hop := s.hop + 1
            redirects := s.redirects ++ [request.target.url.href]
            currentUrl := next.href
            method
            body := if method ≠ s.method then none else s.body
            previousHost := some request.target.url.host
            carriedHeaders := request.headers }

def readBounded (maxBytes : ℕ) (body : List (List ℕ)) : Except (Failure ε) (List ℕ) :=
  if maxBytes < body.flatten.length then .error (.exceeded maxBytes) else .ok body.flatten

inductive Turn (ε : Type) where
  | refused (e : Failure ε)
  | ended (request : Request) (result : Except (Failure ε) SafeResponse)
  | redirected (request : Request) (next : State)

/-- A hop. -/
def turn (net : Net) (world : World ε) (options : GuardedFetchOptions) (s : State) : Turn ε :=
  match dial net world options s with
  | .error e => .refused e
  | .ok request =>
    match world.reply s.hop with
    | .failed e => .ended request (.error (.other e))
    | .response status raw body =>
      let headers := headerRecord net raw
      if status ∈ redirectStatuses then
        match follow net s request status headers with
        | .error e => .ended request (.error e)
        | .ok next => .redirected request next
      else
        .ended request ((readBounded options.maxBytes body).map fun bytes =>
          { url := request.target.url.href, status, headers, redirects := s.redirects ++ [request.target.url.href], bytes })

/-- The hops that the budget still allows. -/
def loop (net : Net) (world : World ε) (options : GuardedFetchOptions) :
    ℕ → State → List Request × Except (Failure ε) SafeResponse
  | 0, s => ([], .error (.refused ⟨.tooManyRedirects, s.currentUrl, none, options.redirectBudget + 1⟩))
  | n + 1, s =>
    match turn net world options s with
    | .refused e => ([], .error e)
    | .ended request result => ([request], result)
    | .redirected request next =>
      let rest := loop net world options n next
      (request :: rest.1, rest.2)

/-- The variables before the first hop. -/
def start (net : Net) (url : Text) (options : GuardedFetchOptions) : State where
  hop := 0
  redirects := []
  currentUrl := url
  method := net.toUpperCase (options.method.getD (ascii "GET"))
  body := options.body
  previousHost := none
  carriedHeaders := options.headers

def guardedFetch (net : Net) (world : World ε) (url : Text) (options : GuardedFetchOptions) :
    List Request × Except (Failure ε) SafeResponse :=
  loop net world options (options.redirectBudget + 1).toNat (start net url options)

end Hop

/-! ### What a hop does -/

section Spec

variable {ε : Type} {net : Net} {world : World ε} {options : GuardedFetchOptions} {s next : State} {r : Request}
  {policy : AddressPolicy} {raw hostname : Text} {hop : ℕ} {target : ValidatedTarget}

theorem validateUrl_literal (h : validateUrl net policy raw hop = .ok target) :
    ∀ literal, target.literal = some literal → (net.classifyHostAddress literal policy).allowed = true := by
  intro literal hliteral
  unfold validateUrl at h
  split at h
  · cases h
  split at h
  · cases h
  split at h
  · cases h
  split at h
  · cases h
  dsimp only at h
  split at h
  · split at h
    · rename_i hallowed
      cases h
      cases hliteral
      exact hallowed
    · cases h
  · split at h
    · cases h
    · cases h
      cases hliteral

theorem assertResolvedAddressesAllowed_ok {answer : Except (ResolverError ε) (List Text)} {addresses : List Text}
    (h : assertResolvedAddressesAllowed net policy hostname hop answer = .ok addresses) :
    answer = .ok addresses ∧ addresses ≠ [] ∧
      ∀ address ∈ addresses, (classifyAddressString net address policy).allowed = true := by
  unfold assertResolvedAddressesAllowed at h
  split at h
  · split at h <;> cases h
  · cases h
  · rename_i addresses' hne
    split at h
    · cases h
    · rename_i hnone
      cases h
      refine ⟨rfl, hne, fun address hmem => ?_⟩
      simpa using List.find?_eq_none.mp hnone address hmem

theorem safeConnect_ok {remoteAddress : Except ε (Option Text)} {peer : Text}
    (h : safeConnect net policy hostname hop remoteAddress = .ok peer) :
    remoteAddress = .ok (some peer) ∧ (classifyAddressString net peer policy).allowed = true := by
  unfold safeConnect at h
  split at h
  · cases h
  · cases h
  · dsimp only at h
    split at h
    · rename_i hallowed
      cases h
      exact ⟨rfl, hallowed⟩
    · cases h

/-- What holds of every request that is written. -/
structure Sound (net : Net) (world : World ε) (options : GuardedFetchOptions) (r : Request) : Prop where
  accepted : ∃ raw, validateUrl net options.addressPolicy raw r.hop = .ok r.target
  literal : ∀ literal, r.target.literal = some literal →
    (net.classifyHostAddress literal options.addressPolicy).allowed = true
  resolved : r.target.literal = none → ∃ addresses, world.resolver r.hop r.target.hostname = .ok addresses ∧
    addresses ≠ [] ∧ ∀ address ∈ addresses, (classifyAddressString net address options.addressPolicy).allowed = true
  peer : world.socket r.hop = .ok (some r.peer) ∧ (classifyAddressString net r.peer options.addressPolicy).allowed = true
  bodiless : r.method = ascii "GET" → r.body = none

/-- A request is made of the variables. -/
structure Dialled (net : Net) (options : GuardedFetchOptions) (s : State) (r : Request) : Prop where
  hop : r.hop = s.hop
  method : r.method = s.method
  headers : r.headers = headersForHop net s.carriedHeaders s.hop r.target.hostname r.target.url.host s.previousHost
    options.allowedRedirectHosts

theorem dial_ok (h : dial net world options s = .ok r) : Sound net world options r ∧ Dialled net options s r := by
  unfold dial at h
  split at h
  · cases h
  rename_i target htarget
  dsimp only at h
  split at h
  · cases h
  rename_i hguard
  cases hconnect : safeConnect net options.addressPolicy target.hostname s.hop (world.socket s.hop) with
  | error e =>
    rw [hconnect] at h
    cases h
  | ok peer =>
    rw [hconnect] at h
    cases h
    refine ⟨⟨⟨_, htarget⟩, validateUrl_literal htarget, fun hnone => ?_, safeConnect_ok hconnect, fun hget => ?_⟩, rfl, rfl, rfl⟩
    · unfold resolveGuard at hguard
      change target.literal = none at hnone
      rw [hnone] at hguard
      dsimp only at hguard
      cases hanswer : assertResolvedAddressesAllowed net options.addressPolicy target.hostname s.hop
          (world.resolver s.hop target.hostname) with
      | error e =>
        rw [hanswer] at hguard
        cases hguard
      | ok addresses => exact ⟨addresses, assertResolvedAddressesAllowed_ok hanswer⟩
    · exact if_pos (.inl hget)

/-- What a redirect leaves for the next hop. -/
structure Followed (s : State) (r : Request) (next : State) : Prop where
  hop : next.hop = s.hop + 1
  method : ∃ status, next.method = methodAfterRedirect status s.method
  previousHost : next.previousHost = some r.target.url.host
  carriedHeaders : next.carriedHeaders = r.headers

theorem follow_ok {status : ℕ} {headers : Headers} (h : follow (ε := ε) net s r status headers = .ok next) :
    Followed s r next := by
  unfold follow at h
  split at h
  · cases h
  · cases h
  · split at h
    · cases h
    · cases h
      exact ⟨rfl, ⟨status, rfl⟩, rfl, rfl⟩

theorem turn_ended {result : Except (Failure ε) SafeResponse} (h : turn net world options s = .ended r result) :
    dial net world options s = .ok r := by
  unfold turn at h
  split at h
  · cases h
  rename_i hdial
  split at h
  · cases h
    exact hdial
  · dsimp only at h
    split at h
    · split at h
      · cases h
        exact hdial
      · cases h
    · cases h
      exact hdial

theorem turn_redirected (h : turn net world options s = .redirected r next) :
    dial net world options s = .ok r ∧ Followed s r next := by
  unfold turn at h
  split at h
  · cases h
  rename_i hdial
  split at h
  · cases h
  · dsimp only at h
    split at h
    · split at h
      · cases h
      · rename_i hfollow
        cases h
        exact ⟨hdial, follow_ok hfollow⟩
    · cases h

end Spec

/-! ### What a chain of redirects does -/

section Chain

variable {ε : Type} {net : Net} {world : World ε} {options : GuardedFetchOptions} {s next : State} {a b r : Request}
  {requests : List Request} {name : Text}

/-- One request follows another. -/
structure Leads (net : Net) (options : GuardedFetchOptions) (a b : Request) : Prop where
  later : b.hop ≠ 0
  method : ∃ status, b.method = methodAfterRedirect status a.method
  headers : b.headers = headersForHop net a.headers b.hop b.target.hostname b.target.url.host (some a.target.url.host)
    options.allowedRedirectHosts

/-- The step of the loop. -/
theorem Followed.leads (ha : Dialled net options s a) (h : Followed s a next) (hb : Dialled net options next b) :
    Leads net options a b where
  later := by
    rw [hb.hop, h.hop]
    exact Nat.succ_ne_zero _
  method := by
    obtain ⟨status, hstatus⟩ := h.method
    exact ⟨status, by rw [hb.method, hstatus, ha.method]⟩
  headers := by
    rw [hb.headers, hb.hop, h.previousHost, h.carriedHeaders]

variable (net world options) in
/-- The requests of the loop: how many, each of them, and the first of them. -/
theorem loop_requests (n : ℕ) (s : State) :
    (loop net world options n s).1.length ≤ n ∧ (∀ r ∈ (loop net world options n s).1, Sound net world options r) ∧
      (∀ r ∈ (loop net world options n s).1.head?, Dialled net options s r) ∧
      List.IsChain (Leads net options) (loop net world options n s).1 := by
  induction n generalizing s with
  | zero => exact ⟨le_rfl, fun _ h => (List.not_mem_nil h).elim, nofun, .nil⟩
  | succ n ih =>
    unfold loop
    cases hturn : turn net world options s with
    | refused e => exact ⟨Nat.zero_le _, fun _ h => (List.not_mem_nil h).elim, nofun, .nil⟩
    | ended request result =>
      obtain ⟨hsound, hdialled⟩ := dial_ok (turn_ended hturn)
      refine ⟨Nat.succ_le_succ (Nat.zero_le _), fun r hr => ?_, fun r hr => ?_, .singleton _⟩
      · exact List.mem_singleton.mp hr ▸ hsound
      · cases hr
        exact hdialled
    | redirected request next =>
      obtain ⟨hdial, hfollowed⟩ := turn_redirected hturn
      obtain ⟨hsound, hdialled⟩ := dial_ok hdial
      obtain ⟨hlength, hall, hhead, hchain⟩ := ih next
      refine ⟨Nat.succ_le_succ hlength, fun r hr => ?_, fun r hr => ?_, List.isChain_cons.mpr ⟨fun b hb => ?_, hchain⟩⟩
      · rcases List.mem_cons.mp hr with rfl | hr
        · exact hsound
        · exact hall r hr
      · cases hr
        exact hdialled
      · exact hfollowed.leads hdialled (hhead b hb)

/-- A header of this name is sent. -/
def Carries (net : Net) (name : Text) (r : Request) : Prop :=
  ∃ headers, r.headers = some headers ∧ ∃ key value, (key, value) ∈ headers ∧ net.toLowerCase key = name

/-- To the same origin, or to a host that is allowlisted. -/
def Kept (options : GuardedFetchOptions) (a b : Request) : Prop :=
  a.target.url.SameOrigin b.target.url ∨ b.target.hostname ∈ options.allowlist

/-- The transitions at which headers are not narrowed. -/
def Passes (options : GuardedFetchOptions) (a b : Request) : Prop :=
  a.target.url.host = b.target.url.host ∨ b.target.hostname ∈ options.allowlist

theorem Leads.headers_of_passes (h : Leads net options a b) (hpasses : Passes options a b) : b.headers = a.headers := by
  rw [h.headers]
  unfold headersForHop
  cases a.headers with
  | none => rfl
  | some headers =>
    dsimp only
    refine if_pos ?_
    rcases hpasses with hhost | hallowed
    · exact .inr (.inl (congrArg some hhost))
    · exact .inr (.inr hallowed)

/-- Narrowing is one way. -/
theorem Leads.carries (h : Leads net options a b) (hb : Carries net name b) : Carries net name a := by
  obtain ⟨headers, hheaders, key, value, hmem, hkey⟩ := hb
  rw [h.headers] at hheaders
  unfold headersForHop at hheaders
  split at hheaders
  · cases hheaders
  · rename_i carried hcarried
    split at hheaders
    · cases hheaders
      exact ⟨_, hcarried, key, value, hmem, hkey⟩
    · cases hheaders
      exact ⟨carried, hcarried, key, value, (List.mem_filter.mp hmem).1, hkey⟩

/-- And no sensitive header gets through it. -/
theorem Leads.passes (h : Leads net options a b) (hname : name ∈ sensitiveHeaders) (hb : Carries net name b) :
    Passes options a b := by
  obtain ⟨headers, hheaders, key, value, hmem, hkey⟩ := hb
  rw [h.headers] at hheaders
  unfold headersForHop at hheaders
  split at hheaders
  · cases hheaders
  · split at hheaders
    · rename_i hkeep
      rcases hkeep with hzero | hhost | hallowed
      · exact absurd hzero h.later
      · exact .inl (Option.some.inj hhost)
      · exact .inr hallowed
    · cases hheaders
      have hout := (List.mem_filter.mp hmem).2
      simp [hkey, hname] at hout

theorem methodAfterRedirect_changed {status : ℕ} {method : Text} (h : methodAfterRedirect status method ≠ method) :
    methodAfterRedirect status method = ascii "GET" := by
  unfold methodAfterRedirect at h ⊢
  split_ifs at h ⊢ <;> first | rfl | exact absurd rfl h

theorem methodAfterRedirect_get (status : ℕ) : methodAfterRedirect status (ascii "GET") = ascii "GET" := by
  unfold methodAfterRedirect
  split_ifs <;> rfl

end Chain

/-! ### Containment -/

section Containment

variable {ε : Type} {net : Net} {world : World ε} {options : GuardedFetchOptions} {a b r : Request}
  {requests : List Request} {name : Text} {j k : ℕ}

/-- What is asked of the requests of a fetch. -/
structure Contained (net : Net) (world : World ε) (options : GuardedFetchOptions) (requests : List Request) : Prop where
  sound : ∀ r ∈ requests, Sound net world options r
  budget : requests.length ≤ (options.redirectBudget + 1).toNat
  /-- A sensitive header is there only if every transition before was to the same origin or an allowlisted host. -/
  sensitive : ∀ (k : ℕ) r name, requests[k]? = some r → name ∈ sensitiveHeaders → Carries net name r →
    ∀ (j : ℕ) a b, j < k → requests[j]? = some a → requests[j + 1]? = some b → Kept options a b
  /-- Once absent, it never comes back. -/
  narrowed : ∀ (j k : ℕ) a r name, j ≤ k → requests[j]? = some a → requests[k]? = some r → Carries net name r → Carries net name a
  /-- No body after the method has changed. -/
  bodies : ∀ (j k : ℕ) a b r, requests[j]? = some a → requests[j + 1]? = some b → a.method ≠ b.method → j < k →
    requests[k]? = some r → r.body = none

/-- From one scheme to another at the same host, both ports elided, with a sensitive header. -/
def Downgrades (net : Net) (options : GuardedFetchOptions) (a b : Request) : Prop :=
  a.target.url.host = b.target.url.host ∧ a.target.url.protocol ≠ b.target.url.protocol ∧
    b.target.hostname ∉ options.allowlist ∧ ∃ name ∈ sensitiveHeaders, Carries net name a

/-- A transition that passes without being kept is a change of scheme. -/
theorem kept_of_passes (h : Passes options a b) (hname : name ∈ sensitiveHeaders) (hcarries : Carries net name a)
    (hnot : ¬ Downgrades net options a b) : Kept options a b := by
  rcases h with hhost | hallowed
  · by_cases hprotocol : a.target.url.protocol = b.target.url.protocol
    · exact .inl (URL.sameOrigin_of_host hprotocol hhost)
    · by_contra hkept
      exact hnot ⟨hhost, hprotocol, fun hallowed => hkept (.inr hallowed), name, hname, hcarries⟩
  · exact .inr hallowed

theorem chain_at {α : Type} {R : α → α → Prop} {l : List α} {x y : α} (h : l.IsChain R) (hx : l[j]? = some x)
    (hy : l[j + 1]? = some y) : R x y := by
  obtain ⟨hj, rfl⟩ := List.getElem?_eq_some_iff.mp hx
  obtain ⟨hj', rfl⟩ := List.getElem?_eq_some_iff.mp hy
  exact List.isChain_iff_getElem.mp h j hj'

/-- Along a chain, what a step keeps is kept. -/
theorem chain_rule {α : Type} {R : α → α → Prop} {l : List α} {P : α → Prop} {x y : α} (h : l.IsChain R)
    (hstep : ∀ x y, R x y → P x → P y) (hle : j ≤ k) (hx : l[j]? = some x) (hy : l[k]? = some y) (hP : P x) : P y := by
  induction k, hle using Nat.le_induction generalizing y with
  | base =>
    cases hx.symm.trans hy
    exact hP
  | succ k hle ih =>
    obtain ⟨hk, rfl⟩ := List.getElem?_eq_some_iff.mp hy
    have hk' : l[k]? = some l[k] := List.getElem?_eq_getElem (by omega)
    exact hstep _ _ (chain_at h hk' hy) (ih hk')

/-- **Containment**, unless a fetch downgrades. -/
theorem contained_iff (net : Net) (world : World ε) (url : Text) (options : GuardedFetchOptions) :
    Contained net world options (guardedFetch net world url options).1 ↔
      ∀ (j : ℕ) a b, (guardedFetch net world url options).1[j]? = some a →
        (guardedFetch net world url options).1[j + 1]? = some b → ¬ Downgrades net options a b := by
  obtain ⟨hbudget, hsound, -, hchain⟩ :=
    loop_requests net world options (options.redirectBudget + 1).toNat (start net url options)
  change (guardedFetch net world url options).1.length ≤ _ at hbudget
  change ∀ r ∈ (guardedFetch net world url options).1, _ at hsound
  change List.IsChain _ (guardedFetch net world url options).1 at hchain
  generalize (guardedFetch net world url options).1 = requests at hbudget hsound hchain
  constructor
  · rintro h j a b ha hb ⟨hhost, hprotocol, hallowed, name, hname, hcarries⟩
    have hleads := chain_at hchain ha hb
    have hcarries' : Carries net name b := by
      unfold Carries
      rw [hleads.headers_of_passes (.inl hhost)]
      exact hcarries
    rcases h.sensitive (j + 1) b name hb hname hcarries' j a b (Nat.lt_succ_self j) ha hb with horigin | hkept
    · exact hprotocol horigin.protocol
    · exact hallowed hkept
  · intro hnot
    have hnarrowed (j k : ℕ) (a r : Request) (name : Text) (hle : j ≤ k) (ha : requests[j]? = some a)
        (hr : requests[k]? = some r) (hcarries : Carries net name r) : Carries net name a := by
      by_contra habsent
      exact chain_rule (P := fun r => ¬ Carries net name r) hchain (fun x y hleads hx hy => hx (hleads.carries hy)) hle ha hr
        habsent hcarries
    refine ⟨hsound, hbudget, fun k r name hr hname hcarries j a b hlt ha hb => ?_, hnarrowed,
      fun j k a b r ha hb hne hlt hr => ?_⟩
    · have hb' := hnarrowed (j + 1) k b r name hlt hb hr hcarries
      have hleads := chain_at hchain ha hb
      exact kept_of_passes (hleads.passes hname hb') hname (hleads.carries hb') (hnot j a b ha hb)
    · obtain ⟨status, hstatus⟩ := (chain_at hchain ha hb).method
      have hget : b.method = ascii "GET" := by
        rw [hstatus]
        exact methodAfterRedirect_changed fun h => hne (h ▸ hstatus.symm)
      refine (hsound r (List.mem_of_getElem? hr)).bodiless ?_
      refine chain_rule (P := fun r => r.method = ascii "GET") hchain (fun x y hleads hx => ?_) hlt hb hr hget
      obtain ⟨status', hstatus'⟩ := hleads.method
      rw [hstatus', hx, methodAfterRedirect_get]

end Containment

/-! ### A downgrade -/

section Shop

/-- A shop, by its two schemes. -/
def shopUrl (secure : Bool) : URL where
  href := if secure then ascii "https://shop.dev/" else ascii "http://shop.dev/"
  protocol := if secure then ascii "https:" else ascii "http:"
  username := []
  password := []
  hostname := ascii "shop.dev"
  port := none
  elided _ h := nomatch h

def shopParse (text : Text) : Option URL :=
  if text = ascii "https://shop.dev/" then some (shopUrl true)
  else if text = ascii "http://shop.dev/" then some (shopUrl false)
  else none

/-- The address of the shop. -/
def shopAddress : Text := ascii "93.184.216.34"

def shopNet : Net where
  parse := shopParse
  parseAt text _ := shopParse text
  toLowerCase text := text.map asciiLower
  toUpperCase text := text
  parseIpLiteral text := if text = shopAddress then some ⟨4, shopAddress, [93, 184, 216, 34]⟩ else none
  classifyHostAddress _ _ := ⟨true, "PUBLIC"⟩

/-- The shop sends its visitors to where nothing is encrypted. -/
def shopWorld : World Unit where
  resolver _ _ := .ok [shopAddress]
  socket _ := .ok (some shopAddress)
  reply hop :=
    if hop = 0 then .response 302 [(ascii "Location", .one (ascii "http://shop.dev/"))] [] else .response 200 [] []

def tokenHeaders : Headers := [(ascii "Authorization", ascii "Bearer token")]

def tokenOptions : GuardedFetchOptions where
  headers := some tokenHeaders

def tokenRequest (hop : ℕ) (secure : Bool) : Request where
  hop := hop
  target := ⟨shopUrl secure, ascii "shop.dev", none⟩
  peer := shopAddress
  method := ascii "GET"
  headers := some tokenHeaders
  body := none

/-- The token goes out in the clear. -/
theorem token_downgraded :
    ¬ Contained shopNet shopWorld tokenOptions
      (guardedFetch shopNet shopWorld (ascii "https://shop.dev/") tokenOptions).1 := by
  intro h
  have hcarries : Carries shopNet (ascii "authorization") (tokenRequest 1 false) :=
    ⟨tokenHeaders, rfl, ascii "Authorization", ascii "Bearer token", List.mem_cons_self, by decide⟩
  rcases h.sensitive 1 (tokenRequest 1 false) (ascii "authorization") rfl (by decide) hcarries 0 (tokenRequest 0 true)
    (tokenRequest 1 false) Nat.zero_lt_one rfl rfl with horigin | hallowed
  · exact absurd horigin.protocol (by decide)
  · exact List.not_mem_nil hallowed

end Shop

end WebAudit.SafeNet
