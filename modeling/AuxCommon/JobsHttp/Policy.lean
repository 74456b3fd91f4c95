import AuxCommon.Job.Record
import AuxCommon.Lib.Text
import AuxCommon.TenantHttp.Execute

/-!
# Destinations of HTTP jobs

`bg-jobs-http`: the endpoints of a policy (`policy.rs`), the client that is built from it and the
checks before a request is sent (`handler.rs`). The destination is checked twice. `approves` compares
host and port with one endpoint after another and drops the dots at the end of the host; the client
has the hosts and the ports of all endpoints in two lists and leaves the dots. The policy's name and
its authorizer are left out.
-/

namespace AuxCommon.JobsHttp

open TenantHttp String

/-- `HttpJobError`, the cases that the modelled code raises. -/
inductive HttpJobError
  | validation (error : ValidationError)
  | endpointNotApproved
  | requestBodyTooLarge
  | responseBodyTooLarge
  | sensitiveHeader
  | batchInvariant
  | invalidDeadline
  | requestBuild
  | authorization (kind : String)
  deriving DecidableEq

/-! ## Hosts -/

variable (text : String)

/-- `trim_end_matches('.')`. -/
def trimEndDots : String :=
  String.ofList (text.toList.reverse.dropWhile (· = '.')).reverse

def EndsWithDot : Prop := text.toList.getLast? = some '.'

instance (text : String) : Decidable (EndsWithDot text) := inferInstanceAs (Decidable (_ = _))

theorem trimEndDots_of_not (h : ¬ EndsWithDot text) : trimEndDots text = text := by
  have hdrop : text.toList.reverse.dropWhile (· = '.') = text.toList.reverse := by
    cases hrev : text.toList.reverse with
    | nil => rfl
    | cons c rest =>
      have hc : c ≠ '.' := fun hc => h (by
        rw [EndsWithDot, ← List.reverse_reverse text.toList, List.getLast?_reverse, hrev, hc]
        rfl)
      simp [hc]
  rw [trimEndDots, hdrop, List.reverse_reverse, ofList_toList]

theorem not_endsWithDot_trimEndDots : ¬ EndsWithDot (trimEndDots text) := by
  rw [EndsWithDot, trimEndDots, toList_ofList, List.getLast?_reverse]
  intro h
  have := List.head?_dropWhile_not (· = '.') text.toList.reverse
  simp [h] at this

theorem toLower_eq_dot {c : Char} : c.toLower = '.' ↔ c = '.' := by
  have hdot : '.'.toNat = 46 := rfl
  rw [← Char.toNat_inj, ← Char.toNat_inj, toNat_toLower, hdot]
  split_ifs <;> omega

theorem endsWithDot_toAsciiLowercase : EndsWithDot (toAsciiLowercase text) ↔ EndsWithDot text := by
  rw [EndsWithDot, EndsWithDot, toAsciiLowercase, toList_map, List.getLast?_map]
  cases text.toList.getLast? with
  | none => simp
  | some c => simp [toLower_eq_dot]

/-- `eq_ignore_ascii_case`. -/
def sameHost (left right : String) : Bool := toAsciiLowercase left == toAsciiLowercase right

/-- The comparison from the end, up to the dot before the approved host. -/
def reversedMatches : List Char → List Char → Bool
  | host, [] => host.head? = some '.'
  | [], _ :: _ => false
  | c :: host, a :: approved => c.toLower = a.toLower && reversedMatches host approved

def subdomainMatches (host approvedHost : String) : Bool :=
  if host.utf8ByteSize ≤ approvedHost.utf8ByteSize + 1 then false
  else reversedMatches host.toList.reverse approvedHost.toList.reverse

/-- What `is_ip_host` asks of the address parser and of the URL parser. -/
structure HostParsers where
  isIpAddr : String → Bool
  /-- The host of `https://{host}/`, if it is a URL. -/
  urlHost : String → Option Host

def stripBrackets (host : String) : Option String :=
  if host.toList.head? = some '[' ∧ (host.toList.drop 1).getLast? = some ']' then
    some (String.ofList (host.toList.drop 1).dropLast)
  else none

variable (parsers : HostParsers)

def isIpHost (host : String) : Bool :=
  parsers.isIpAddr host || (stripBrackets host).any parsers.isIpAddr ||
    ((parsers.urlHost host).bind Host.literal).isSome

/-! ## Endpoints -/

/-- An approved destination. Its host is not empty, in lower case and has no dot at the end. -/
structure ApprovedEndpoint where
  host : String
  port : Nat
  allowSubdomains : Bool
  host_ne : host ≠ ""
  host_lower : toAsciiLowercase host = host
  host_noDot : ¬ EndsWithDot host

theorem toAsciiLowercase_idem :
    toAsciiLowercase (toAsciiLowercase text) = toAsciiLowercase text := by
  have hcomp : Char.toLower ∘ Char.toLower = Char.toLower := funext toLower_toLower
  rw [← toList_inj, toAsciiLowercase, toAsciiLowercase, toList_map, toList_map, List.map_map, hcomp]

namespace ApprovedEndpoint

def tryNewWithPort (host : String) (port : Nat) (allowSubdomains : Bool) :
    Except ValidationError ApprovedEndpoint :=
  let lowered := toAsciiLowercase (trimEndDots host)
  if hne : lowered = "" then .error (.invalidText "approved endpoint host")
  else if lowered.toList.any fun c => c.toNat < 32 || (127 ≤ c.toNat && c.toNat < 160) then
    .error (.invalidText "approved endpoint host")
  else if lowered.toList.any fun c => c ∈ ['@', '/', '?', '#', '[', ']', ':', ' '] then
    .error (.invalidText "approved endpoint host")
  else if isIpHost parsers lowered then .error (.invalidValue "approved endpoint host")
  else if port = 0 then .error (.invalidValue "approved endpoint port")
  else .ok
    { host := lowered
      port
      allowSubdomains
      host_ne := hne
      host_lower := toAsciiLowercase_idem _
      host_noDot := fun h => not_endsWithDot_trimEndDots host ((endsWithDot_toAsciiLowercase _).mp h) }

def exact (host : String) : Except ValidationError ApprovedEndpoint :=
  tryNewWithPort parsers host 443 false

def withSubdomains (host : String) : Except ValidationError ApprovedEndpoint :=
  tryNewWithPort parsers host 443 true

def exactOnPort (host : String) (port : Nat) : Except ValidationError ApprovedEndpoint :=
  tryNewWithPort parsers host port false

/-- `matches`. -/
def approves (endpoint : ApprovedEndpoint) (lib : UrlLibrary) (url : Url) : Bool :=
  match lib.hostStr url, url.portOrKnownDefault with
  | some host, some port =>
    let host := trimEndDots host
    (sameHost host endpoint.host ||
      (endpoint.allowSubdomains && subdomainMatches host endpoint.host)) && port = endpoint.port
  | _, _ => false

end ApprovedEndpoint

/-! ## Policies -/

structure HttpPolicy where
  endpoints : List ApprovedEndpoint
  connectTimeout : Duration
  requestTimeout : Duration
  maxRequestBytes : Nat
  maxResponseBytes : Nat
  retryAfterMax : Duration
  retryAfterFallback : Duration
  idempotencyHeader : String
  attemptHeader : String

/-- `is_safe_url`. -/
def isSafeUrl (lib : UrlLibrary) (url : Url) : Bool :=
  url.scheme = "https" && (lib.hostStr url).isSome && url.username = "" && url.password.isNone &&
    url.fragment.isNone && (url.host.bind Host.literal).isNone

def HttpPolicy.approves (policy : HttpPolicy) (lib : UrlLibrary) (url : Url) : Bool :=
  isSafeUrl lib url && policy.endpoints.any fun endpoint => endpoint.approves lib url

/-- The builder has the fields of the policy. -/
structure HttpPolicyBuilder where
  endpoints : List ApprovedEndpoint
  connectTimeout : Duration
  requestTimeout : Duration
  maxRequestBytes : Nat
  maxResponseBytes : Nat
  retryAfterMax : Duration
  retryAfterFallback : Duration
  idempotencyHeader : String
  attemptHeader : String

def callerForbiddenHeaders : List String :=
  ["authorization", "cookie", "host", "proxy-authorization", "set-cookie", "x-api-key",
    "x-amz-security-token", "x-amz-date", "x-amz-content-sha256", "connection", "keep-alive",
    "proxy-authenticate", "te", "trailer", "transfer-encoding", "upgrade", "content-length",
    "forwarded", "via", "x-forwarded-for", "x-forwarded-host", "x-forwarded-proto",
    "x-forwarded-port", "x-forwarded-prefix", "x-real-ip", "x-client-ip", "cf-connecting-ip",
    "true-client-ip", "fastly-client-ip", "x-original-url", "x-rewrite-url", "x-original-host",
    "x-unencoded-url", "x-http-method-override", "x-http-method", "x-method-override",
    "x-amzn-trace-id", "referer", "origin"]

def isCallerForbiddenHeader (name : String) : Bool := name ∈ callerForbiddenHeaders

def validateTimeout (field : String) (timeout : Duration) : Except HttpJobError Unit :=
  if timeout.isZero then .error (.validation (.invalidValue field)) else .ok ()

def validateHeader (name : String) : Except HttpJobError Unit :=
  if isCallerForbiddenHeader name then .error .sensitiveHeader else .ok ()

/-- `Duration::min`. -/
def minDuration (left right : Duration) : Duration := if left.nanos ≤ right.nanos then left else right

namespace HttpPolicyBuilder

def new : HttpPolicyBuilder where
  endpoints := []
  connectTimeout := .fromSecs 5
  requestTimeout := .fromSecs 20
  maxRequestBytes := maxInlinePayloadBytes
  maxResponseBytes := 256 * 1024
  retryAfterMax := .fromSecs 900
  retryAfterFallback := .fromSecs 1
  idempotencyHeader := "idempotency-key"
  attemptHeader := "x-aux-attempt-id"

variable (builder : HttpPolicyBuilder)

def validateLimits : Except HttpJobError Unit :=
  if builder.maxRequestBytes = 0 then .error (.validation (.invalidValue "HTTP request body limit"))
  else if builder.maxResponseBytes = 0 then
    .error (.validation (.invalidValue "HTTP response body limit"))
  else if builder.maxRequestBytes > maxInlinePayloadBytes then .error .requestBodyTooLarge
  else if builder.maxResponseBytes > maxInlinePayloadBytes then .error .responseBodyTooLarge
  else .ok ()

def validateBuilderOptions : Except HttpJobError Unit := do
  validateTimeout "HTTP connect timeout" builder.connectTimeout
  validateTimeout "HTTP request timeout" builder.requestTimeout
  validateTimeout "Retry-After maximum" builder.retryAfterMax
  validateTimeout "Retry-After fallback" builder.retryAfterFallback
  validateHeader builder.idempotencyHeader
  validateHeader builder.attemptHeader
  if builder.idempotencyHeader = builder.attemptHeader then .error .sensitiveHeader else .ok ()

def tryBuild : Except HttpJobError HttpPolicy :=
  if builder.endpoints = [] then .error .endpointNotApproved
  else do
    builder.validateLimits
    builder.validateBuilderOptions
    return {
      endpoints := builder.endpoints
      connectTimeout := minDuration builder.connectTimeout builder.requestTimeout
      requestTimeout := builder.requestTimeout
      maxRequestBytes := builder.maxRequestBytes
      maxResponseBytes := builder.maxResponseBytes
      retryAfterMax := builder.retryAfterMax
      retryAfterFallback := minDuration builder.retryAfterFallback builder.retryAfterMax
      idempotencyHeader := builder.idempotencyHeader
      attemptHeader := builder.attemptHeader }

theorem endpoints_ne_nil {builder : HttpPolicyBuilder} {policy : HttpPolicy}
    (h : builder.tryBuild = .ok policy) : policy.endpoints ≠ [] := by
  unfold tryBuild at h
  split_ifs at h with hne
  obtain ⟨-, -, h⟩ := Except.bind_eq_ok.mp h
  obtain ⟨-, -, h⟩ := Except.bind_eq_ok.mp h
  cases h
  exact hne

end HttpPolicyBuilder

/-! ## The restricted client -/

/-- `no_retry_config`. -/
def noRetryConfig : RetryConfig := ⟨0, false⟩

variable (policy : HttpPolicy)

/-- The configuration of `build_restricted_client`, on top of the defaults of the client. The timeout
in milliseconds is rounded up: it is zero only for no timeout. -/
def HttpPolicy.clientConfig : TenantHttpRequestConfig where
  allowedDomains := policy.endpoints.map fun endpoint => ⟨endpoint.host, endpoint.allowSubdomains⟩
  maxContentLength := policy.maxRequestBytes
  timeout := (policy.requestTimeout.nanos.toNat + 999999) / 10 ^ 6
  maxRedirects := 0
  allowedSchemes := ["https"]
  allowedPorts := policy.endpoints.map ApprovedEndpoint.port
  maxDnsAddresses := 8
  allowLoopbackIps := false

def buildRestrictedClient : Except HttpJobError TenantHttpClient :=
  (TenantHttpClient.build policy.clientConfig noRetryConfig).mapError fun _ => .requestBuild

/-- The request of a job. -/
structure HttpRequest where
  method : Method
  url : Url
  bodyBytes : Nat

def validateRequest (lib : UrlLibrary) (request : HttpRequest) : Except HttpJobError Unit :=
  if request.bodyBytes > policy.maxRequestBytes then .error .requestBodyTooLarge
  else if ¬ policy.approves lib request.url then .error .endpointNotApproved
  else .ok ()

/-- `remove_signing_host` takes the `Host` header away that an authorizer may have set. -/
def HttpRequest.forTransport (request : HttpRequest) : Request :=
  ⟨request.method, request.url, false, .bytes request.bodyBytes⟩

/-- `HttpExecutor::execute` up to the client: the deadline and the authorizer may stop it before. -/
def executeStart (lib : UrlLibrary) (request : HttpRequest)
    (authorized : Except HttpJobError Unit) : Except HttpJobError (TenantHttpClient × State) := do
  validateRequest policy lib request
  authorized
  let client ← buildRestrictedClient policy
  return (client, client.start lib request.forTransport)

/-- A URL with this host. -/
def Sample.url (host : String) : Url where
  scheme := "https"
  username := ""
  password := none
  host := some (.domain host)
  port := none
  path := "/jobs"
  query := none
  fragment := none

end AuxCommon.JobsHttp
