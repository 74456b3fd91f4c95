import AuxCommon.JobsHttp.Policy

/-!
# The two checks of a destination

A URL that the policy approves passes the destination checks of its client, unless the host ends with
a dot: the policy drops it and the client does not (`destinations_agree_iff`). Requests are sent only
to approved URLs, since the client follows no redirect.
-/

namespace AuxCommon.JobsHttp

open TenantHttp List Except TenantHttpClient Bool HttpPolicy HttpPolicyBuilder

/-! ## Hosts -/

/-- A match from the end is a match of the whole end. -/
theorem reversedMatches_append {host approved : List Char} (h : reversedMatches host approved = true) :
    ∃ rest, host.map Char.toLower = approved.map Char.toLower ++ '.' :: rest := by
  induction approved generalizing host with
  | nil =>
    cases host with
    | nil => simp [reversedMatches] at h
    | cons c host =>
      simp only [reversedMatches, head?_cons, Option.some.injEq, decide_eq_true_eq] at h
      exact ⟨host.map Char.toLower, by rw [h]; rfl⟩
  | cons a approved ih =>
    cases host with
    | nil => simp [reversedMatches] at h
    | cons c host =>
      simp only [reversedMatches, and_eq_true, decide_eq_true_eq] at h
      obtain ⟨rest, hrest⟩ := ih h.2
      exact ⟨rest, by rw [map_cons, map_cons, hrest, h.1, cons_append]⟩

theorem subdomainMatches_suffix {host approvedHost : String}
    (h : subdomainMatches host approvedHost = true) :
    ('.' :: (toAsciiLowercase approvedHost).toList) <:+ (toAsciiLowercase host).toList := by
  unfold subdomainMatches at h
  split_ifs at h
  obtain ⟨rest, hrest⟩ := reversedMatches_append h
  have hreverse := congrArg reverse hrest
  rw [map_reverse, map_reverse, reverse_reverse, reverse_append,
    reverse_cons, reverse_reverse] at hreverse
  refine ⟨rest.reverse, ?_⟩
  rw [toAsciiLowercase, toAsciiLowercase, String.toList_map, String.toList_map, hreverse]
  simp

variable {host : String} {endpoint : ApprovedEndpoint} {reason : String}

namespace ApprovedEndpoint

/-- The allowed domain of the client. -/
def domain (endpoint : ApprovedEndpoint) : AllowedDomain := ⟨endpoint.host, endpoint.allowSubdomains⟩

theorem approves_cases {lib : UrlLibrary} {url : Url} (h : endpoint.approves lib url = true) :
    ∃ host, lib.hostStr url = some host ∧ url.portOrKnownDefault = some endpoint.port ∧
      (sameHost (trimEndDots host) endpoint.host = true ∨ (endpoint.allowSubdomains = true ∧
          subdomainMatches (trimEndDots host) endpoint.host = true)) := by
  unfold approves at h
  split at h
  · rename_i host port hhost hport
    simp only [and_eq_true, or_eq_true, decide_eq_true_eq] at h
    exact ⟨host, hhost, h.2 ▸ hport, h.1⟩
  · cases h

/-- Without a dot at the end, an approved host is one of the endpoint's domain. -/
theorem covers_of_approves (hdot : ¬ EndsWithDot host)
    (h : sameHost (trimEndDots host) endpoint.host = true ∨ (endpoint.allowSubdomains = true ∧
        subdomainMatches (trimEndDots host) endpoint.host = true)) :
    endpoint.domain.covers (toAsciiLowercase host) = true := by
  rw [trimEndDots_of_not host hdot] at h
  simp only [AllowedDomain.covers, domain, or_eq_true, and_eq_true]
  rcases h with h | ⟨hsub, h⟩
  · exact .inl h
  · exact .inr ⟨hsub, isSuffixOf_iff_suffix.mpr (subdomainMatches_suffix h)⟩

/-- A host with a dot at the end is of no endpoint's domain. -/
theorem not_covers_of_endsWithDot (endpoint : ApprovedEndpoint)
    (hdot : EndsWithDot host) : ¬ endpoint.domain.covers (toAsciiLowercase host) = true := by
  have hlower := (endsWithDot_toAsciiLowercase host).mpr hdot
  intro h
  simp only [AllowedDomain.covers, domain, or_eq_true, and_eq_true, beq_iff_eq,
    endpoint.host_lower] at h
  rcases h with h | ⟨-, h⟩
  · exact endpoint.host_noDot (h ▸ hlower)
  · obtain ⟨front, hfront⟩ := isSuffixOf_iff_suffix.mp h
    have hne : endpoint.host.toList ≠ [] := fun hnil =>
      endpoint.host_ne (String.toList_inj.mp hnil)
    refine endpoint.host_noDot ?_
    rw [EndsWithDot, ← hfront, getLast?_append_of_ne_nil _ (cons_ne_nil _ _)] at hlower
    rwa [EndsWithDot, ← getLast?_cons_of_ne_nil hne]

end ApprovedEndpoint

theorem isSome_betterDomain {best : Option AllowedDomain} {domain : AllowedDomain}
    (h : best.isSome = true ∨ domain.covers host = true) : (betterDomain host best domain).isSome = true := by
  unfold betterDomain
  split_ifs with hc
  · exact h.resolve_right (by simpa using hc)
  · split
    · rfl
    · split_ifs <;> rfl

theorem matchAllowlistedDomain_isSome {domains : List AllowedDomain}
    {domain : AllowedDomain} (hmem : domain ∈ domains)
    (hcovers : domain.covers (toAsciiLowercase host) = true) :
    (matchAllowlistedDomain host domains).isSome = true := by
  -- a match is kept by the rest of the fold
  have hkeep : ∀ (rest : List AllowedDomain) (best : Option AllowedDomain), best.isSome = true →
      (rest.foldl (betterDomain (toAsciiLowercase host)) best).isSome = true := by
    intro rest
    induction rest with
    | nil => exact fun _ h => h
    | cons first rest ih => exact fun best h => ih _ (isSome_betterDomain (.inl h))
  obtain ⟨front, rest, rfl⟩ := append_of_mem hmem
  rw [matchAllowlistedDomain, foldl_append, foldl_cons]
  exact hkeep rest _ (isSome_betterDomain (.inr hcovers))

/-! ## URLs -/

/-- The reasons of a refusal that are about the destination itself. -/
def destinationReasons : List String :=
  ["disallowed_scheme", "disallowed_port", "user_info_not_allowed", "fragment_not_allowed",
    "ip_literal_host", "domain_not_allowlisted"]

/-- The client that a policy is given. -/
def HttpPolicy.client (policy : HttpPolicy) : TenantHttpClient where
  config := policy.clientConfig
  retry := noRetryConfig
  ssrf :=
    { allowedSchemes := ["https"]
      allowedPorts := policy.endpoints.map ApprovedEndpoint.port
      maxDnsAddresses := 8
      allowLoopbackIps := false
      dnsTimeout := policy.clientConfig.timeout }

theorem buildRestrictedClient_eq {policy : HttpPolicy} (h : policy.endpoints ≠ []) :
    buildRestrictedClient policy = .ok policy.client := by
  have hne : policy.clientConfig.allowedDomains.isEmpty = false := by
    simpa [clientConfig] using h
  rw [buildRestrictedClient, build, hne]
  rfl

section Urls

variable {policy : HttpPolicy} {lib : UrlLibrary} {url : Url}

theorem HttpPolicy.approves_iff : policy.approves lib url = true ↔ isSafeUrl lib url = true ∧
      ∃ endpoint ∈ policy.endpoints, endpoint.approves lib url = true := by
  rw [approves, and_eq_true, any_eq_true]

/-- The URL of an approved request has a host without a dot at its end. -/
def HostWithoutDot (lib : UrlLibrary) (url : Url) : Prop :=
  ∀ host, lib.hostStr url = some host → ¬ EndsWithDot host

/-- An approved URL passes every check of the destination. -/
theorem validateUrl_of_approves (h : policy.approves lib url = true) (hdot : HostWithoutDot lib url)
    (hrefused : validateUrl lib policy.client.config.allowedDomains
      policy.client.config.allowLoopbackIps policy.client.ssrf url = .error (.ssrfBlocked reason)) :
    reason ∉ destinationReasons := by
  obtain ⟨hsafe, endpoint, hmem, happroves⟩ := approves_iff.mp h
  obtain ⟨host, hhost, hport, hmatch⟩ := endpoint.approves_cases happroves
  simp only [isSafeUrl, and_eq_true, decide_eq_true_eq, Option.isNone_iff_eq_none] at hsafe
  obtain ⟨⟨⟨⟨⟨hscheme, -⟩, husername⟩, hpassword⟩, hfragment⟩, hliteral⟩ := hsafe
  have hlisted : (matchAllowlistedDomain host policy.client.config.allowedDomains).isSome = true :=
    matchAllowlistedDomain_isSome (mem_map_of_mem hmem)
      (endpoint.covers_of_approves (hdot host hhost) hmatch)
  have hports : url.portOrKnownDefault.getD 443 ∈ policy.client.ssrf.allowedPorts := by
    rw [hport]
    exact mem_map_of_mem hmem
  have hsyntax : policy.client.ssrf.validateUrlSyntax url = .ok () := by
    rw [SsrfProtectionConfig.validateUrlSyntax, if_neg, if_neg, if_neg, if_neg]
    · exact not_not.mpr hports
    · simp [hfragment]
    · simp [husername, hpassword]
    · simp [client, hscheme]
  have hnone : ¬ (matchAllowlistedDomain host policy.client.config.allowedDomains).isNone = true := by
    simpa [Option.isNone_iff_eq_none, Option.isSome_iff_ne_none] using hlisted
  simp only [validateUrl, hhost, hliteral, Option.any_none, false_eq_true, if_false,
    if_neg hnone, SsrfProtectionConfig.beforeLookup, hsyntax] at hrefused
  split_ifs at hrefused
  · cases hrefused
    decide
  · cases hrefused
    decide

/-- The client refuses a host with a dot at its end. -/
theorem validateUrl_of_endsWithDot (hsafe : isSafeUrl lib url = true)
    (hhost : lib.hostStr url = some host) (hdot : EndsWithDot host) :
    validateUrl lib policy.client.config.allowedDomains policy.client.config.allowLoopbackIps
      policy.client.ssrf url = .error (.ssrfBlocked "domain_not_allowlisted") := by
  have hliteral : url.host.bind Host.literal = none := by
    simp only [isSafeUrl, and_eq_true, Option.isNone_iff_eq_none] at hsafe
    exact hsafe.2
  have hnone : (matchAllowlistedDomain host policy.client.config.allowedDomains).isNone = true := by
    rw [Option.isNone_iff_eq_none]
    by_contra hsome
    obtain ⟨domain, hdomain⟩ := Option.ne_none_iff_exists'.mp hsome
    obtain ⟨hmem, hcovers⟩ := matchAllowlistedDomain_some hdomain
    obtain ⟨endpoint, -, rfl⟩ := mem_map.mp hmem
    exact endpoint.not_covers_of_endsWithDot hdot hcovers
  simp only [validateUrl, hhost, hliteral, Option.any_none, false_eq_true, if_false, hnone, if_true]

end Urls

/-! ## Runs -/

/-- The runs of a client. -/
abbrev ClientRun (client : TenantHttpClient) (lib : UrlLibrary) : State → State → Prop :=
  Run (fun s turn s' => client.step lib s turn = some s') fun _ _ => True

/-- Without redirects, a run is about one request. `refusals` are the reasons why it may end. -/
structure OneRequest (refusals : String → Prop) (request : Request) (s : State) : Prop where
  preflight : ∀ current redirects, s.phase = .preflight current redirects → current = request
  sending : ∀ current redirects attempt, s.phase = .sending current redirects attempt →
    current = request
  refused : ∀ reason, s.phase = .done (.error (.ssrfBlocked reason)) → refusals reason
  sent : ∀ r ∈ s.sent, r = request

namespace OneRequest

variable {refusals : String → Prop} {request : Request} {client : TenantHttpClient} {lib : UrlLibrary}
  {s s' : State}

theorem done (h : OneRequest refusals request s) {result : Except HttpRequestError Response}
    (hrefused : ∀ reason, result = .error (.ssrfBlocked reason) → refusals reason) :
    OneRequest refusals request { s with phase := .done result } where
  preflight _ _ hp := nomatch hp
  sending _ _ _ hp := nomatch hp
  refused reason hp := hrefused reason (by cases hp; rfl)
  sent := h.sent

theorem send (h : OneRequest refusals request s) (redirects attempt : Nat) :
    OneRequest refusals request
      { s with phase := .sending request redirects attempt, sent := s.sent ++ [request] } where
  preflight _ _ hp := nomatch hp
  sending _ _ _ hp := by cases hp; rfl
  refused _ hp := nomatch hp
  sent r hr := by
    rcases mem_append.mp hr with hr | hr
    · exact h.sent r hr
    · exact mem_singleton.mp hr

theorem onResponse (h : OneRequest refusals request s) (hredirects : client.config.maxRedirects = 0)
    (current : Request) (redirects : Nat) (response : Response) :
    OneRequest refusals request (client.onResponse lib s current redirects response) := by
  have hblocked : client.redirect lib current redirects response =
      .error (.redirectBlocked "redirect_limit_exceeded") := by
    rw [TenantHttpClient.redirect, if_pos (by rw [hredirects]; exact Nat.zero_le _)]
  unfold TenantHttpClient.onResponse
  rw [hblocked]
  split_ifs
  · exact h.done fun _ hr => nomatch hr
  · exact h.done fun _ hr => nomatch hr
  · exact h.done fun _ hr => nomatch hr

/-- Each turn keeps to the request; a lookup ends it for reasons of its own. -/
theorem step (h : OneRequest refusals request s) (hredirects : client.config.maxRedirects = 0)
    (hlookups : ∀ reason, reason ∉ destinationReasons → refusals reason) {turn : Turn}
    (hstep : client.step lib s turn = some s') : OneRequest refusals request s' := by
  cases turn with
  | preflight lookup =>
    simp only [TenantHttpClient.step] at hstep
    split at hstep
    · rename_i current redirects hp
      obtain rfl := h.preflight _ _ hp
      obtain rfl := Option.some.inj hstep
      unfold TenantHttpClient.onPreflight
      split
      · rename_i error _
        refine h.done fun reason hr => hlookups reason ?_
        cases error with
        | timedOut => cases hr; decide
        | failed => cases hr; decide
        | refused error =>
          cases error with
          | empty => cases hr; decide
          | reserved => cases hr; decide
      · exact h.send _ _
    · cases hstep
  | lookup lookup =>
    obtain rfl := Option.some.inj hstep
    exact ⟨h.preflight, h.sending, h.refused, h.sent⟩
  | connect addr =>
    simp only [TenantHttpClient.step] at hstep
    split at hstep
    · obtain rfl := Option.some.inj hstep
      exact ⟨h.preflight, h.sending, h.refused, h.sent⟩
    · cases hstep
  | answer result =>
    simp only [TenantHttpClient.step] at hstep
    split at hstep
    · rename_i current redirects attempt hp
      obtain rfl := h.sending _ _ _ hp
      obtain rfl := Option.some.inj hstep
      unfold TenantHttpClient.onAnswer
      split
      · exact h.send _ _
      · split
        · exact h.done fun _ hr => by cases hr
        · exact h.onResponse hredirects _ _ _
    · cases hstep

/-- The start of a run, where the checks of the URL may end it. -/
theorem start (client : TenantHttpClient) (lib : UrlLibrary) (request : Request)
    (hheader : refusals "host_header_override")
    (hurl : ∀ reason, validateUrl lib client.config.allowedDomains client.config.allowLoopbackIps
      client.ssrf request.url = .error (.ssrfBlocked reason) → refusals reason) :
    OneRequest refusals request (client.start lib request) := by
  have hdone : ∀ {result : Except HttpRequestError Response},
      (∀ reason, result = .error (.ssrfBlocked reason) → refusals reason) →
      OneRequest refusals request ⟨.done result, [], [], [], 0⟩ := fun hresult =>
    ⟨fun _ _ hp => (nomatch hp), fun _ _ _ hp => (nomatch hp),
      fun reason hp => hresult reason (by cases hp; rfl), fun _ hr => (nomatch hr)⟩
  unfold TenantHttpClient.start TenantHttpClient.begin
  split_ifs
  · exact hdone fun _ hr => by cases hr; exact hheader
  · split
    · exact hdone fun _ hr => nomatch hr
    · split_ifs
      · exact hdone fun _ hr => nomatch hr
      · unfold TenantHttpClient.enter
        split
        · rename_i error herror
          exact hdone fun reason hr => hurl reason (by cases hr; exact herror)
        · exact ⟨fun _ _ hp => by cases hp; rfl, fun _ _ _ hp => (nomatch hp),
            fun _ hp => (nomatch hp), fun _ hr => (nomatch hr)⟩

end OneRequest

/-! ## Agreement -/

/-- The two checks of a destination agree: the client of the policy refuses no approved URL for its
destination, and what the executor sends goes to a host and a port of one endpoint. -/
structure Agree (policy : HttpPolicy) (lib : UrlLibrary) (url : Url) : Prop where
  exists_client : ∃ client, buildRestrictedClient policy = .ok client
  notRefused : policy.approves lib url = true → ∀ client, buildRestrictedClient policy = .ok client →
    ∀ request : Request, request.url = url → ∀ s, ClientRun client lib (client.start lib request) s →
      ∀ reason ∈ destinationReasons, s.phase ≠ .done (.error (.ssrfBlocked reason))
  sent : ∀ request : HttpRequest, request.url = url → ∀ authorized client start,
    executeStart policy lib request authorized = .ok (client, start) → ∀ s,
      ClientRun client lib start s → ∀ r ∈ s.sent, r.url = url ∧
        ∃ endpoint ∈ policy.endpoints, endpoint.approves lib r.url = true

theorem executeStart_eq_ok {policy : HttpPolicy} {lib : UrlLibrary} {request : HttpRequest}
    {authorized : Except HttpJobError Unit} {client : TenantHttpClient} {start : State}
    (h : executeStart policy lib request authorized = .ok (client, start)) :
    policy.approves lib request.url = true ∧ buildRestrictedClient policy = .ok client ∧
      start = client.start lib request.forTransport := by
  obtain ⟨_, hvalid, h⟩ := bind_eq_ok.mp h
  obtain ⟨-, -, h⟩ := bind_eq_ok.mp h
  obtain ⟨client', hclient, h⟩ := bind_eq_ok.mp h
  cases h
  unfold validateRequest at hvalid
  split_ifs at hvalid with _ happroves
  exact ⟨happroves, hclient, rfl⟩

/-- The checks agree on a URL exactly when it is not an approved one whose host ends with a dot. -/
theorem destinations_agree_iff {builder : HttpPolicyBuilder} {policy : HttpPolicy}
    (hpolicy : builder.tryBuild = .ok policy) (lib : UrlLibrary) (url : Url) :
    Agree policy lib url ↔
      ¬ (policy.approves lib url = true ∧ ∃ host, lib.hostStr url = some host ∧ EndsWithDot host) := by
  have hclient := buildRestrictedClient_eq (endpoints_ne_nil hpolicy)
  constructor
  · rintro hagree ⟨happroves, host, hhost, hdot⟩
    -- a request without a body is refused at once
    have hsafe := (approves_iff.mp happroves).1
    refine hagree.notRefused happroves policy.client hclient ⟨.get, url, false, .empty⟩ rfl _ .refl
      "domain_not_allowlisted" (by decide) ?_
    simp only [start, begin, requestBodyLen, false_eq_true,
      if_false, Nat.not_lt_zero, enter, validateUrl_of_endsWithDot hsafe hhost hdot]
  · intro hnot
    have hdot : policy.approves lib url = true → HostWithoutDot lib url := fun happroves host hhost hd =>
      hnot ⟨happroves, host, hhost, hd⟩
    refine ⟨⟨_, hclient⟩, ?_, ?_⟩
    · rintro happroves client hc request rfl s hrun reason hreason hphase
      obtain rfl := ok.inj (hclient.symm.trans hc)
      have hstart : OneRequest (· ∉ destinationReasons) request (policy.client.start lib request) :=
        .start policy.client lib request (by decide)
          fun reason => validateUrl_of_approves happroves (hdot happroves)
      exact (hrun.invariant (fun _ _ _ hi _ hstep => hi.step rfl (fun _ h => h) hstep) hstart).refused
        reason hphase hreason
    · rintro request rfl authorized client start hexecute s hrun r hr
      obtain ⟨happroves, hc, rfl⟩ := executeStart_eq_ok hexecute
      obtain rfl := ok.inj (hclient.symm.trans hc)
      have hstart : OneRequest (fun _ => True) request.forTransport
          (policy.client.start lib request.forTransport) :=
        .start policy.client lib request.forTransport trivial fun _ _ => trivial
      have hsent := (hrun.invariant
        (fun _ _ _ hi _ hstep => hi.step rfl (fun _ _ => trivial) hstep) hstart).sent r hr
      rw [hsent]
      exact ⟨rfl, (approves_iff.mp happroves).2⟩

namespace Sample

/-- Parsers that read no address. -/
def parsers : HostParsers := ⟨fun _ => false, fun host => some (.domain host)⟩

def lib : UrlLibrary where
  hostText host := match host with
    | .domain name => name
    | .ipv4 _ => "ipv4"
    | .ipv6 _ => "ipv6"
  join _ _ := none
  isName _ := true

def builder (endpoint : ApprovedEndpoint) : HttpPolicyBuilder :=
  { HttpPolicyBuilder.new with endpoints := [endpoint] }

/-- The policy with one endpoint and the defaults. -/
def policy (endpoint : ApprovedEndpoint) : HttpPolicy where
  endpoints := [endpoint]
  connectTimeout := .fromSecs 5
  requestTimeout := .fromSecs 20
  maxRequestBytes := maxInlinePayloadBytes
  maxResponseBytes := 256 * 1024
  retryAfterMax := .fromSecs 900
  retryAfterFallback := .fromSecs 1
  idempotencyHeader := "idempotency-key"
  attemptHeader := "x-aux-attempt-id"

theorem builder_tryBuild (endpoint : ApprovedEndpoint) :
    (builder endpoint).tryBuild = .ok (policy endpoint) := by
  have hheaders : isCallerForbiddenHeader "idempotency-key" = false ∧
      isCallerForbiddenHeader "x-aux-attempt-id" = false := by decide
  simp only [tryBuild, builder, validateBuilderOptions, new, validateHeader, hheaders]
  rfl

/-- The checks agree on `https://a.test/jobs`. -/
theorem destinations_agree_dotless_host :
    ∃ endpoint policy, ApprovedEndpoint.exact parsers "A.test." = .ok endpoint ∧
      (builder endpoint).tryBuild = .ok policy ∧ policy.approves lib (url "a.test") = true ∧
      Agree policy lib (url "a.test") := by
  have hok : (ApprovedEndpoint.exact parsers "A.test.").toOption.any (fun endpoint =>
      (policy endpoint).approves lib (url "a.test")) = true := by decide +kernel
  obtain ⟨endpoint, hendpoint, happroves⟩ := (Option.any_eq_true _ _).mp hok
  refine ⟨endpoint, policy endpoint, toOption_eq_some.mp hendpoint, builder_tryBuild endpoint,
    happroves, (destinations_agree_iff (builder_tryBuild endpoint) lib _).mpr ?_⟩
  rintro ⟨-, host, hhost, hdot⟩
  cases hhost
  exact absurd hdot (by decide +kernel)

/-- The reason of a refusal. -/
def refusal : Phase → Option String
  | .done (.error (.ssrfBlocked reason)) => some reason
  | _ => none

theorem eq_of_refusal {phase : Phase} (h : refusal phase = some reason) :
    phase = .done (.error (.ssrfBlocked reason)) := by
  unfold refusal at h
  split at h
  · cases h
    rfl
  · cases h

/-- `https://a.test./jobs` is approved, and the client refuses it. -/
theorem trailingDot_refused :
    ∃ endpoint policy, ApprovedEndpoint.exact parsers "a.test" = .ok endpoint ∧
      (builder endpoint).tryBuild = .ok policy ∧ policy.approves lib (url "a.test.") = true ∧
      ¬ Agree policy lib (url "a.test.") := by
  have hok : (ApprovedEndpoint.exact parsers "a.test").toOption.any (fun endpoint =>
      (policy endpoint).approves lib (url "a.test.") &&
      (buildRestrictedClient (policy endpoint)).toOption.any fun client =>
        refusal (client.begin lib ⟨.post, url "a.test.", false, .bytes 11⟩) =
          some "domain_not_allowlisted") = true := by
    decide +kernel
  obtain ⟨endpoint, hendpoint, hok⟩ := (Option.any_eq_true _ _).mp hok
  obtain ⟨happroves, hok⟩ := (and_eq_true _ _).mp hok
  obtain ⟨client, hclient, hrefusal⟩ := (Option.any_eq_true _ _).mp hok
  refine ⟨endpoint, policy endpoint, toOption_eq_some.mp hendpoint, builder_tryBuild endpoint,
    happroves, fun hagree => ?_⟩
  exact hagree.notRefused happroves client (toOption_eq_some.mp hclient)
    ⟨.post, url "a.test.", false, .bytes 11⟩ rfl _ .refl "domain_not_allowlisted" (by decide)
    (eq_of_refusal (of_decide_eq_true hrefusal))

end Sample

end AuxCommon.JobsHttp
