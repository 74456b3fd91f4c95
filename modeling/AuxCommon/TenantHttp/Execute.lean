import AuxCommon.Lib.System
import AuxCommon.TenantHttp.Ssrf

/-!
# The requests of a tenant

Model of `TenantHttpClient::execute` (`http-request/src/tenant.rs`) with the retries of
`HttpClient::execute` (`client.rs`) as a machine that waits for the answers of the network: to the
lookup before a request is sent, and to each attempt to send it. The HTTP library may at any time
look the host up again with the resolver that the builder installs, and connect to an address that
such a lookup gave it (`Turn.lookup`, `Turn.connect`); it follows no redirect. The delays between
attempts and the contents of bodies are left out.

* `destinations_safe` : in every run, connections go only to addresses that are not blocked, and
  requests only to permitted URLs of the first one's origin.
-/

namespace AuxCommon.TenantHttp

inductive Method where
  | get
  | head
  | put
  | delete
  | options
  | post
  | patch
  | other (name : String)
  deriving DecidableEq

def Method.isIdempotent : Method → Bool
  | .get | .head | .put | .delete | .options => true
  | _ => false

/-- A body, of which only bytes in memory have a known length and can be copied. -/
inductive Body where
  | empty
  | bytes (length : Nat)
  | stream
  deriving DecidableEq

structure Request where
  method : Method
  url : Url
  /-- Whether the caller has set the `Host` header. -/
  hostHeader : Bool
  body : Body
  deriving DecidableEq

def Request.isCloneable (request : Request) : Bool := request.body != .stream

def requestBodyLen (request : Request) : Option Nat :=
  match request.body with
  | .empty => some 0
  | .bytes length => some length
  | .stream => none

structure Response where
  status : Nat
  /-- The `Location` header, if it is text. -/
  location : Option String
  deriving DecidableEq

def Response.isRedirection (response : Response) : Bool := 300 ≤ response.status && response.status < 400

structure RetryConfig where
  maxRetries : Nat
  retryNonIdempotent : Bool

def RetryConfig.shouldRetryMethod (retry : RetryConfig) (method : Method) : Bool :=
  retry.retryNonIdempotent || method.isIdempotent

def shouldRetryStatus (status : Nat) : Bool := status ∈ [429, 408, 423, 425, 500, 502, 503, 504]

def shouldRetryError (kind : HttpRequestErrorKind) : Bool :=
  kind = .timeout || kind = .connect || kind = .request

structure TenantHttpRequestConfig where
  allowedDomains : List AllowedDomain
  maxContentLength : Nat
  timeout : Nat
  maxRedirects : Nat
  allowedSchemes : List String
  allowedPorts : List Nat
  maxDnsAddresses : Nat
  allowLoopbackIps : Bool

structure TenantHttpClient where
  config : TenantHttpRequestConfig
  retry : RetryConfig
  ssrf : SsrfProtectionConfig

namespace TenantHttpClient

/-- `TenantHttpClientBuilder::build`. -/
def build (config : TenantHttpRequestConfig) (retry : RetryConfig) :
    Except HttpRequestError TenantHttpClient :=
  if config.allowedDomains.isEmpty then .error (.ssrfBlocked "domain_not_allowlisted")
  else
    .ok
      { config
        retry
        ssrf :=
          { allowedSchemes := config.allowedSchemes
            allowedPorts := config.allowedPorts
            maxDnsAddresses := config.maxDnsAddresses
            allowLoopbackIps := config.allowLoopbackIps
            dnsTimeout := config.timeout } }

end TenantHttpClient

/-! ## The machine -/

/-- Where `execute` is: after the checks of a URL that come before the lookup, with an attempt
under way, or at its end. -/
inductive Phase where
  | preflight (current : Request) (redirects : Nat)
  | sending (current : Request) (redirects attempt : Nat)
  | done (result : Except HttpRequestError Response)

structure State where
  phase : Phase
  /-- What the lookups of the HTTP library were answered with. -/
  lookups : List Lookup
  /-- The addresses to which a connection was opened. -/
  connected : List SocketAddr
  /-- The requests handed to the HTTP library. -/
  sent : List Request
  /-- The redirects that were followed. -/
  followed : Nat

inductive Turn where
  | preflight (lookup : Lookup)
  | lookup (lookup : Lookup)
  | connect (addr : SocketAddr)
  | answer (result : Except HttpRequestErrorKind Response)

namespace TenantHttpClient

variable (client : TenantHttpClient) (lib : UrlLibrary)

/-- The head of the loop, up to the lookup. -/
def enter (current : Request) (redirects : Nat) : Phase :=
  match validateUrl lib client.config.allowedDomains client.config.allowLoopbackIps client.ssrf
      current.url with
  | .error error => .done (.error error)
  | .ok () => .preflight current redirects

/-- `execute` up to the first lookup. -/
def begin (request : Request) : Phase :=
  if request.hostHeader then .done (.error (.ssrfBlocked "host_header_override"))
  else
    match requestBodyLen request with
    | none => .done (.error (.requestSizeUnknown client.config.maxContentLength))
    | some size =>
      if client.config.maxContentLength < size then
        .done (.error (.requestTooLarge size client.config.maxContentLength))
      else client.enter lib request 0

def start (request : Request) : State := ⟨client.begin lib request, [], [], [], 0⟩

def maxRetries (request : Request) : Nat :=
  if request.isCloneable && client.retry.shouldRetryMethod request.method then
    client.retry.maxRetries
  else 0

/-- Whether `HttpClient::execute` tries once more. -/
def retrying (current : Request) (attempt : Nat) (result : Except HttpRequestErrorKind Response) :
    Bool :=
  decide (attempt < client.maxRetries current) &&
    match result with
    | .ok response => shouldRetryStatus response.status
    | .error kind => shouldRetryError kind

/-- What a response that is a redirect leads to: an error, or the request to send next. -/
def redirect (current : Request) (redirects : Nat) (response : Response) :
    Except HttpRequestError Request :=
  if client.config.maxRedirects ≤ redirects then .error (.redirectBlocked "redirect_limit_exceeded")
  else if response.status ≠ 307 ∧ response.status ≠ 308 then
    .error (.redirectBlocked "redirect_method_change")
  else
    match response.location with
    | none => .error (.redirectBlocked "redirect_method_change")
    | some location =>
      match lib.join current.url location with
      | none => .error .invalidUrl
      | some next =>
        if !lib.sameOrigin current.url next then
          .error (.redirectBlocked
            (if !lib.sameHostAndPort current.url next then "redirect_host_mismatch"
            else "redirect_scheme_change"))
        else .ok { current with url := next }

/-- The rest of the loop, on the response of the last attempt. -/
def onResponse (s : State) (current : Request) (redirects : Nat) (response : Response) : State :=
  if !response.isRedirection then { s with phase := .done (.ok response) }
  else if !current.isCloneable then { s with phase := .done (.error .requestNotCloneable) }
  else
    match client.redirect lib current redirects response with
    | .error error => { s with phase := .done (.error error) }
    | .ok next => { s with phase := client.enter lib next (redirects + 1), followed := s.followed + 1 }

/-- An attempt is over. -/
def onAnswer (s : State) (current : Request) (redirects attempt : Nat)
    (result : Except HttpRequestErrorKind Response) : State :=
  if client.retrying current attempt result then
    { s with phase := .sending current redirects (attempt + 1), sent := s.sent ++ [current] }
  else
    match result with
    | .error kind => { s with phase := .done (.error (.transport kind)) }
    | .ok response => client.onResponse lib s current redirects response

/-- The lookup before sending is over. -/
def onPreflight (s : State) (current : Request) (redirects : Nat) (lookup : Lookup) : State :=
  match client.ssrf.resolveCapped lookup with
  | .error error => { s with phase := .done (.error error.error) }
  | .ok _ => { s with phase := .sending current redirects 0, sent := s.sent ++ [current] }

/-- Whether the installed resolver has given the HTTP library an address. -/
def offers (lookups : List Lookup) (addr : SocketAddr) : Bool :=
  lookups.any fun lookup =>
    match client.ssrf.resolveCapped lookup with
    | .ok resolved => decide (addr ∈ resolved)
    | .error _ => false

def step (s : State) : Turn → Option State
  | .preflight lookup =>
    match s.phase with
    | .preflight current redirects => some (client.onPreflight s current redirects lookup)
    | _ => none
  | .lookup lookup => some { s with lookups := s.lookups ++ [lookup] }
  | .connect addr =>
    if client.offers s.lookups addr then some { s with connected := s.connected ++ [addr] } else none
  | .answer result =>
    match s.phase with
    | .sending current redirects attempt => some (client.onAnswer lib s current redirects attempt result)
    | _ => none

/-! ## Every run -/

/-- A request that may be sent on behalf of the first one. -/
structure Sendable (request current : Request) : Prop where
  permitted : Permitted lib client.config.allowedDomains client.ssrf current.url
  origin : lib.sameOrigin request.url current.url = true
  noHostHeader : current.hostHeader = false

/-- What a phase is to be like after some redirects. -/
def PhaseOk (request : Request) (followed : Nat) : Phase → Prop
  | .preflight current redirects | .sending current redirects _ =>
    client.Sendable lib request current ∧ redirects = followed
  | .done _ => True

/-- An address that the installed resolver has let out. -/
def Resolved (addr : SocketAddr) : Prop :=
  ∃ lookup resolved, client.ssrf.resolveCapped lookup = .ok resolved ∧ addr ∈ resolved

structure Inv (request : Request) (s : State) : Prop where
  phase : client.PhaseOk lib request s.followed s.phase
  connected : ∀ addr ∈ s.connected, client.Resolved addr
  sent : ∀ r ∈ s.sent, client.Sendable lib request r
  followed : s.followed ≤ client.config.maxRedirects

variable {client lib} {request current : Request} {s s' : State}

theorem sameOrigin_refl (url : Url) : lib.sameOrigin url url = true := by
  simp [UrlLibrary.sameOrigin, UrlLibrary.sameHostAndPort]

theorem sameOrigin_trans {a b c : Url} (hab : lib.sameOrigin a b = true)
    (hbc : lib.sameOrigin b c = true) : lib.sameOrigin a c = true := by
  simp only [UrlLibrary.sameOrigin, UrlLibrary.sameHostAndPort, Bool.and_eq_true, beq_iff_eq] at *
  obtain ⟨⟨hh, hp⟩, hs⟩ := hab
  exact ⟨⟨hh.trans hbc.1.1, hp.trans hbc.1.2⟩, hs.trans hbc.2⟩

theorem resolved_of_offers {lookups : List Lookup} {addr : SocketAddr}
    (h : client.offers lookups addr = true) : client.Resolved addr := by
  obtain ⟨lookup, -, hl⟩ := List.any_eq_true.mp h
  split at hl
  · rename_i resolved hr
    exact ⟨lookup, resolved, hr, of_decide_eq_true hl⟩
  · cases hl

/-- The head of the loop lets only a permitted URL through. -/
theorem enter_ok (hloop : client.config.allowLoopbackIps = false) {redirects followed : Nat}
    (horigin : lib.sameOrigin request.url current.url = true) (hhost : current.hostHeader = false)
    (hr : redirects = followed) :
    client.PhaseOk lib request followed (client.enter lib current redirects) := by
  unfold enter
  rw [hloop]
  split
  · trivial
  · exact ⟨⟨validateUrl_ok ‹_›, horigin, hhost⟩, hr⟩

theorem redirect_ok {redirects : Nat} {response : Response} {next : Request}
    (h : client.redirect lib current redirects response = .ok next) :
    redirects < client.config.maxRedirects ∧ lib.sameOrigin current.url next.url = true ∧
      next.hostHeader = current.hostHeader := by
  unfold redirect at h
  split at h
  · cases h
  rename_i hmax
  split at h
  · cases h
  split at h
  · cases h
  split at h
  · cases h
  split at h
  · cases h
  rename_i horigin
  obtain rfl := Except.ok.inj h
  exact ⟨Nat.lt_of_not_le hmax, by simpa using horigin, rfl⟩

theorem Inv.start (hloop : client.config.allowLoopbackIps = false) (request : Request) :
    client.Inv lib request (client.start lib request) where
  phase := by
    unfold TenantHttpClient.start begin
    split
    · trivial
    rename_i hhost
    split
    · trivial
    split
    · trivial
    · exact enter_ok hloop (sameOrigin_refl _) (by simpa using hhost) rfl
  connected _ h := by cases h
  sent _ h := by cases h
  followed := Nat.zero_le _

theorem Inv.finish (h : client.Inv lib request s) (result : Except HttpRequestError Response) :
    client.Inv lib request { s with phase := .done result } :=
  ⟨trivial, h.connected, h.sent, h.followed⟩

/-- A request is handed on. -/
theorem Inv.send (h : client.Inv lib request s) (hs : client.Sendable lib request current)
    (attempt : Nat) :
    client.Inv lib request
      { s with phase := .sending current s.followed attempt, sent := s.sent ++ [current] } where
  phase := ⟨hs, rfl⟩
  connected := h.connected
  sent r hr := by
    rcases List.mem_append.mp hr with hr | hr
    · exact h.sent r hr
    · exact List.mem_singleton.mp hr ▸ hs
  followed := h.followed

theorem Inv.onResponse (hloop : client.config.allowLoopbackIps = false)
    (h : client.Inv lib request s) (hs : client.Sendable lib request current) (response : Response) :
    client.Inv lib request (client.onResponse lib s current s.followed response) := by
  unfold TenantHttpClient.onResponse
  split
  · exact h.finish _
  split
  · exact h.finish _
  split
  · exact h.finish _
  · rename_i next hnext
    obtain ⟨hmax, horigin, hhost⟩ := redirect_ok hnext
    exact ⟨enter_ok hloop (sameOrigin_trans hs.origin horigin) (hhost.trans hs.noHostHeader) rfl,
      h.connected, h.sent, hmax⟩

theorem Inv.onAnswer (hloop : client.config.allowLoopbackIps = false)
    (h : client.Inv lib request s) (hs : client.Sendable lib request current) (attempt : Nat)
    (result : Except HttpRequestErrorKind Response) :
    client.Inv lib request (client.onAnswer lib s current s.followed attempt result) := by
  unfold TenantHttpClient.onAnswer
  split
  · exact h.send hs _
  · split
    · exact h.finish _
    · exact h.onResponse hloop hs _

theorem Inv.step (hloop : client.config.allowLoopbackIps = false) (h : client.Inv lib request s)
    {turn : Turn} (hstep : client.step lib s turn = some s') : client.Inv lib request s' := by
  have hphase := h.phase
  cases turn with
  | preflight lookup =>
    simp only [TenantHttpClient.step] at hstep
    split at hstep
    · rename_i current redirects hp
      rw [hp] at hphase
      obtain ⟨hs, rfl⟩ := hphase
      obtain rfl := Option.some.inj hstep
      unfold onPreflight
      split
      · exact h.finish _
      · exact h.send hs 0
    · cases hstep
  | lookup lookup =>
    obtain rfl := Option.some.inj hstep
    exact ⟨h.phase, h.connected, h.sent, h.followed⟩
  | connect addr =>
    simp only [TenantHttpClient.step] at hstep
    split at hstep
    · rename_i hoffers
      obtain rfl := Option.some.inj hstep
      refine ⟨h.phase, fun a ha => ?_, h.sent, h.followed⟩
      rcases List.mem_append.mp ha with ha | ha
      · exact h.connected a ha
      · exact List.mem_singleton.mp ha ▸ resolved_of_offers hoffers
    · cases hstep
  | answer result =>
    simp only [TenantHttpClient.step] at hstep
    split at hstep
    · rename_i current redirects attempt hp
      rw [hp] at hphase
      obtain ⟨hs, rfl⟩ := hphase
      obtain rfl := Option.some.inj hstep
      exact h.onAnswer hloop hs attempt result
    · cases hstep

end TenantHttpClient

open TenantHttpClient in
/-- In every run of `execute` by a client built without loopback addresses, whatever the lookups and
the servers answer: a connection goes to an address that the installed resolver has let out and that
is not blocked, a request goes to a permitted URL of the origin of the first, and at most
`maxRedirects` redirects are followed. -/
theorem destinations_safe {config : TenantHttpRequestConfig} {retry : RetryConfig}
    {client : TenantHttpClient} (hbuild : build config retry = .ok client)
    (hloop : config.allowLoopbackIps = false) (lib : UrlLibrary) (request : Request) {s : State}
    (h : Run (fun s turn s' => client.step lib s turn = some s') (fun _ _ => True)
      (client.start lib request) s) :
    (∀ addr ∈ s.connected, client.Resolved addr ∧ isBlockedIp addr.ip false = false) ∧
      (∀ r ∈ s.sent, Permitted lib config.allowedDomains client.ssrf r.url ∧
        lib.sameOrigin request.url r.url = true) ∧
      client.ssrf.allowedSchemes = config.allowedSchemes ∧
      client.ssrf.allowedPorts = config.allowedPorts ∧ s.followed ≤ config.maxRedirects := by
  unfold build at hbuild
  split at hbuild
  · cases hbuild
  obtain rfl := Except.ok.inj hbuild
  have hi := h.invariant (fun _ _ _ hi _ hstep => Inv.step hloop hi hstep) (Inv.start hloop request)
  refine ⟨fun addr ha => ?_, fun r hr => ?_, rfl, rfl, hi.followed⟩
  · obtain ⟨lookup, resolved, hr, hmem⟩ := hi.connected addr ha
    refine ⟨⟨lookup, resolved, hr, hmem⟩, ?_⟩
    have hblocked := resolveCapped_notBlocked hr addr hmem
    rwa [hloop] at hblocked
  · exact ⟨(hi.sent r hr).permitted, (hi.sent r hr).origin⟩

/-! ## A trial -/

namespace Trial

def url (path : String) : Url where
  scheme := "https"
  username := ""
  password := none
  host := some (.domain "api.example.com")
  port := none
  path := path
  query := none
  fragment := none

/-- References that are paths. -/
def lib : UrlLibrary where
  hostText host := match host with
    | .domain name => name
    | .ipv4 _ => "ipv4"
    | .ipv6 _ => "ipv6"
  join base location := some { base with path := location }
  isName _ := true

def config : TenantHttpRequestConfig where
  allowedDomains := [⟨"example.com", true⟩]
  maxContentLength := 0
  timeout := 10000
  maxRedirects := 5
  allowedSchemes := ["https"]
  allowedPorts := [443]
  maxDnsAddresses := 8
  allowLoopbackIps := false

def address (a b c d : Nat) : SocketAddr :=
  ⟨.v4 (.ofNat 32 (((a * 256 + b) * 256 + c) * 256 + d)), 0⟩

/-- A name that resolves to the loopback address when the library connects, a retry that finds a
public one, and a redirect. -/
def turns : List Turn :=
  [.preflight (.found [address 93 184 215 14]), .lookup (.found [address 127 0 0 1]),
    .answer (.error .connect), .lookup (.found [address 93 184 215 14]),
    .connect (address 93 184 215 14), .answer (.ok ⟨307, some "/next"⟩),
    .preflight (.found [address 93 184 215 14])]

end Trial

theorem destinations_safe_rebinding :
    ∃ (client : TenantHttpClient) (s : State),
      TenantHttpClient.build Trial.config ⟨3, false⟩ = .ok client ∧
      s.sent.length = 3 ∧ s.connected ≠ [] ∧ s.followed = 1 ∧
      (∀ addr ∈ s.connected, client.Resolved addr ∧ isBlockedIp addr.ip false = false) ∧
      ∀ r ∈ s.sent, Permitted Trial.lib Trial.config.allowedDomains client.ssrf r.url := by
  obtain ⟨client, hbuild⟩ : ∃ client, TenantHttpClient.build Trial.config ⟨3, false⟩ = .ok client :=
    ⟨_, rfl⟩
  have hrun : (Run.script (client.step Trial.lib) (fun _ _ => True)
      (client.start Trial.lib ⟨.get, Trial.url "/", false, .empty⟩) Trial.turns).any
      (fun s : State => s.sent.length = 3 ∧ s.connected ≠ [] ∧ s.followed = 1) = true := by
    obtain rfl := Except.ok.inj hbuild
    decide +kernel
  obtain ⟨s, hs, hp⟩ := Run.ofScript hrun
  obtain ⟨hsent, hconnected, hfollowed⟩ := of_decide_eq_true hp
  obtain ⟨hc, hr, -⟩ := destinations_safe hbuild rfl Trial.lib ⟨.get, Trial.url "/", false, .empty⟩
    hs
  exact ⟨client, s, hbuild, hsent, hconnected, hfollowed, hc, fun r hmem => (hr r hmem).1⟩

end AuxCommon.TenantHttp
