import Mathlib.Algebra.Group.Nat.Defs
import Mathlib.Data.List.Basic
import Mathlib.Data.List.Sort

/-!
# Destinations that a tenant's request may have

Model of the checks in `http-request/src/tenant.rs`: the reserved address ranges, the resolver that
`SsrfProtector` installs (`resolveCapped`) and the checks of a URL before anything is sent
(`validateUrl`). A URL is in the parts that the `url` crate gives; its text functions and the
reference resolution are a parameter (`UrlLibrary`), and so is whether a host is a name that can be
looked up.

* `resolveCapped_notBlocked` : an address that the resolver lets out is not blocked.
* `validateUrl_ok` : what a URL is like that passes the checks.
-/

namespace AuxCommon.TenantHttp

/-! ## Addresses -/

inductive IpAddr where
  | v4 (address : BitVec 32)
  | v6 (address : BitVec 128)
  deriving DecidableEq

structure SocketAddr where
  ip : IpAddr
  port : Nat
  deriving DecidableEq

/-- An address and the length of its leading part that a range shares. -/
inductive IpNet where
  | v4 (address : BitVec 32) (length : Nat)
  | v6 (address : BitVec 128) (length : Nat)

def IpNet.contains : IpNet → IpAddr → Bool
  | .v4 net length, .v4 ip => net >>> (32 - length) == ip >>> (32 - length)
  | .v6 net length, .v6 ip => net >>> (128 - length) == ip >>> (128 - length)
  | _, _ => false

/-- `a.b.c.d/length`. -/
def net4 (a b c d length : Nat) : IpNet :=
  .v4 (.ofNat 32 (((a * 256 + b) * 256 + c) * 256 + d)) length

/-- The range of the given first segments, the others zero. -/
def net6 (segments : List Nat) (length : Nat) : IpNet :=
  .v6 (.ofNat 128 (segments.foldl (fun n segment => n * 65536 + segment) 0 * 65536 ^ (8 - segments.length)))
    length

def reservedIpRanges : List IpNet :=
  [net4 0 0 0 0 8, net4 10 0 0 0 8, net4 100 64 0 0 10, net4 127 0 0 0 8, net4 169 254 0 0 16,
    net4 172 16 0 0 12, net4 192 0 0 0 24, net4 192 0 2 0 24, net4 192 168 0 0 16,
    net4 198 18 0 0 15, net4 198 51 100 0 24, net4 203 0 113 0 24, net4 224 0 0 0 4,
    net4 240 0 0 0 4, net4 255 255 255 255 32,
    net6 [] 128, net6 [0, 0, 0, 0, 0, 0, 0, 1] 128, net6 [0x64, 0xff9b, 1] 48, net6 [0x100] 64,
    net6 [0x2001, 0xdb8] 32, net6 [0x2001] 32, net6 [0x2002] 16, net6 [0xfc00] 7,
    net6 [0xfec0] 10, net6 [0xfe80] 10, net6 [0xff00] 8]

namespace IpAddr

/-- The order of the addresses. -/
def le : IpAddr → IpAddr → Bool
  | .v4 a, .v4 b => a ≤ b
  | .v4 _, .v6 _ => true
  | .v6 _, .v4 _ => false
  | .v6 a, .v6 b => a ≤ b

def isLoopback : IpAddr → Bool
  | .v4 ip => ip >>> 24 == 127
  | .v6 ip => ip == 1

end IpAddr

variable (ip : BitVec 128)

/-- The segment `i` of the eight. -/
def segment (i : Nat) : BitVec 16 := (ip >>> (112 - 16 * i)).setWidth 16

/-- The last four octets. -/
def lastOctets : BitVec 32 := ip.setWidth 32

/-- `Ipv6Addr::to_ipv4`: the compatible and the mapped addresses. -/
def toIpv4 : Option (BitVec 32) :=
  if ip >>> 32 = 0 ∨ ip >>> 32 = 0xffff then some (lastOctets ip) else none

def isatapIpv4 : Option (BitVec 32) :=
  if segment ip 5 = 0x5efe ∧ segment ip 4 &&& 0xfcff = 0 then some (lastOctets ip) else none

def wellKnownNat64Ipv4 : Option (BitVec 32) :=
  if (List.range 6).map (segment ip) = [0x64, 0xff9b, 0, 0, 0, 0] then some (lastOctets ip) else none

/-- `is_blocked_ip` of an address that stands for no other one. -/
def isReservedIp (ip : IpAddr) (allowLoopbackIps : Bool) : Bool :=
  if allowLoopbackIps && ip.isLoopback then false
  else reservedIpRanges.any fun range => range.contains ip

def isBlockedIp (ip : IpAddr) (allowLoopbackIps : Bool) : Bool :=
  if allowLoopbackIps && ip.isLoopback then false
  else
    match ip with
    | .v4 _ => isReservedIp ip allowLoopbackIps
    | .v6 ipv6 =>
      match ((toIpv4 ipv6).orElse fun _ => isatapIpv4 ipv6).orElse fun _ => wellKnownNat64Ipv4 ipv6 with
      | some ipv4 => isReservedIp (.v4 ipv4) allowLoopbackIps
      | none => isReservedIp ip allowLoopbackIps

/-! ## The resolver -/

inductive SsrfResolutionError where
  | empty
  | reserved
  deriving DecidableEq

def SsrfResolutionError.reason : SsrfResolutionError → String
  | .empty => "dns_resolution_empty"
  | .reserved => "reserved_ip"

/-- `Vec::dedup`: of equal neighbours the first stays. -/
def dedup : List SocketAddr → List SocketAddr
  | [] => []
  | [addr] => [addr]
  | addr :: next :: rest =>
    if addr = next then dedup (next :: rest) else addr :: dedup (next :: rest)

def validateResolvedAddresses (addrs : List SocketAddr) (allowLoopbackIps : Bool) :
    Except SsrfResolutionError (List SocketAddr) :=
  if addrs.isEmpty then .error .empty
  else
    let addrs := dedup (addrs.mergeSort fun a b => a.ip.le b.ip)
    if addrs.any fun addr => isBlockedIp addr.ip allowLoopbackIps then .error .reserved
    else .ok addrs

structure SsrfProtectionConfig where
  allowedSchemes : List String
  allowedPorts : List Nat
  maxDnsAddresses : Nat
  allowLoopbackIps : Bool
  /-- In milliseconds. -/
  dnsTimeout : Nat

/-- What the wrapped resolver answers a lookup with. -/
inductive Lookup where
  | timedOut
  | failed
  | found (addrs : List SocketAddr)

/-- Why a lookup gives no addresses. -/
inductive LookupError where
  | timedOut
  | failed
  | refused (error : SsrfResolutionError)

variable (config : SsrfProtectionConfig)

/-- `resolve_capped`, on what the wrapped resolver answered. -/
def SsrfProtectionConfig.resolveCapped : Lookup → Except LookupError (List SocketAddr)
  | .timedOut => .error .timedOut
  | .failed => .error .failed
  | .found addrs =>
    (validateResolvedAddresses (addrs.take config.maxDnsAddresses) config.allowLoopbackIps).mapError
      .refused

theorem validateResolvedAddresses_ok {addrs resolved : List SocketAddr} {allowLoopbackIps : Bool}
    (h : validateResolvedAddresses addrs allowLoopbackIps = .ok resolved) :
    ∀ addr ∈ resolved, isBlockedIp addr.ip allowLoopbackIps = false := by
  unfold validateResolvedAddresses at h
  split at h
  · cases h
  · dsimp only at h
    split at h
    · cases h
    · rename_i hany
      obtain rfl := Except.ok.inj h
      intro addr haddr
      by_contra hb
      exact hany (List.any_eq_true.mpr ⟨addr, haddr, by simpa using hb⟩)

/-- The resolver lets no blocked address out. -/
theorem resolveCapped_notBlocked {config : SsrfProtectionConfig} {lookup : Lookup}
    {resolved : List SocketAddr} (h : config.resolveCapped lookup = .ok resolved) :
    ∀ addr ∈ resolved, isBlockedIp addr.ip config.allowLoopbackIps = false := by
  cases lookup with
  | timedOut => cases h
  | failed => cases h
  | found addrs =>
    cases hv : validateResolvedAddresses (addrs.take config.maxDnsAddresses) config.allowLoopbackIps with
    | error error => rw [SsrfProtectionConfig.resolveCapped, hv] at h; cases h
    | ok checked =>
      rw [SsrfProtectionConfig.resolveCapped, hv] at h
      obtain rfl := Except.ok.inj h
      exact validateResolvedAddresses_ok hv

/-! ## URLs -/

inductive Host where
  | domain (name : String)
  | ipv4 (address : BitVec 32)
  | ipv6 (address : BitVec 128)
  deriving DecidableEq

structure Url where
  scheme : String
  username : String
  password : Option String
  host : Option Host
  port : Option Nat
  path : String
  query : Option String
  fragment : Option String
  deriving DecidableEq

/-- What the checks ask of the URL crate and of the resolver's names. -/
structure UrlLibrary where
  hostText : Host → String
  /-- The URL that a reference leads to. -/
  join : Url → String → Option Url
  /-- Whether a host parses as a name to look up. -/
  isName : String → Bool

variable (lib : UrlLibrary)

def UrlLibrary.hostStr (url : Url) : Option String := url.host.map lib.hostText

def knownDefaultPort (scheme : String) : Option Nat :=
  if scheme = "http" ∨ scheme = "ws" then some 80
  else if scheme = "https" ∨ scheme = "wss" then some 443
  else if scheme = "ftp" then some 21
  else none

def Url.portOrKnownDefault (url : Url) : Option Nat := url.port.or (knownDefaultPort url.scheme)

def UrlLibrary.sameHostAndPort (left right : Url) : Bool :=
  lib.hostStr left == lib.hostStr right && left.portOrKnownDefault == right.portOrKnownDefault

def UrlLibrary.sameOrigin (left right : Url) : Bool :=
  lib.sameHostAndPort left right && left.scheme == right.scheme

def toAsciiLowercase (text : String) : String := text.map Char.toLower

structure AllowedDomain where
  host : String
  allowSubdomains : Bool
  deriving DecidableEq

/-- Whether a host, in lower case, is one of a domain's. -/
def AllowedDomain.covers (domain : AllowedDomain) (host : String) : Bool :=
  let candidate := toAsciiLowercase domain.host
  host == candidate ||
    domain.allowSubdomains && ('.' :: candidate.toList).isSuffixOf host.toList

/-- The longer of two domains that cover the host, the first one if they are equally long. -/
def betterDomain (host : String) (best : Option AllowedDomain) (domain : AllowedDomain) :
    Option AllowedDomain :=
  if !domain.covers host then best
  else
    match best with
    | none => some domain
    | some current =>
      if current.host.utf8ByteSize < domain.host.utf8ByteSize then some domain else some current

def matchAllowlistedDomain (host : String) (domains : List AllowedDomain) : Option AllowedDomain :=
  domains.foldl (betterDomain (toAsciiLowercase host)) none

theorem betterDomain_some {host : String} {best : Option AllowedDomain} {first domain : AllowedDomain}
    (h : betterDomain host best first = some domain) :
    best = some domain ∨ domain = first ∧ first.covers host = true := by
  unfold betterDomain at h
  grind

/-- A match is one of the domains, and covers the host. -/
theorem matchAllowlistedDomain_some {host : String} {domains : List AllowedDomain}
    {domain : AllowedDomain} (h : matchAllowlistedDomain host domains = some domain) :
    domain ∈ domains ∧ domain.covers (toAsciiLowercase host) = true := by
  -- The fold keeps the start or a domain that it has seen, so the statement is about any start.
  have hfold : ∀ (rest : List AllowedDomain) (best : Option AllowedDomain),
      rest.foldl (betterDomain (toAsciiLowercase host)) best = some domain →
        best = some domain ∨ domain ∈ rest ∧ domain.covers (toAsciiLowercase host) = true := by
    intro rest
    induction rest with
    | nil => exact fun _ hd => .inl hd
    | cons first rest ih =>
      intro best hd
      rcases ih _ hd with hbest | ⟨hmem, hc⟩
      · rcases betterDomain_some hbest with hbest | ⟨rfl, hc⟩
        · exact .inl hbest
        · exact .inr ⟨List.mem_cons_self, hc⟩
      · exact .inr ⟨List.mem_cons_of_mem _ hmem, hc⟩
  rcases hfold domains none h with h | h
  · cases h
  · exact h

/-! ## The checks of a URL -/

inductive HttpRequestErrorKind where
  | timeout
  | connect
  | request
  | body
  | status
  | unknown
  deriving DecidableEq

inductive HttpRequestError where
  | transport (kind : HttpRequestErrorKind)
  | requestTooLarge (size max : Nat)
  | requestSizeUnknown (max : Nat)
  | requestNotCloneable
  | redirectBlocked (reason : String)
  | ssrfBlocked (reason : String)
  | invalidUrl
  deriving DecidableEq

def SsrfProtectionConfig.validateUrlSyntax (url : Url) : Except HttpRequestError Unit :=
  if !config.allowedSchemes.any fun scheme => toAsciiLowercase scheme == toAsciiLowercase url.scheme then
    .error (.ssrfBlocked "disallowed_scheme")
  else if url.username ≠ "" ∨ url.password.isSome then .error (.ssrfBlocked "user_info_not_allowed")
  else if url.fragment.isSome then .error (.ssrfBlocked "fragment_not_allowed")
  else if (url.portOrKnownDefault.getD 443) ∉ config.allowedPorts then
    .error (.ssrfBlocked "disallowed_port")
  else .ok ()

/-- `resolve_and_validate` up to the lookup. -/
def SsrfProtectionConfig.beforeLookup (lib : UrlLibrary) (url : Url) :
    Except HttpRequestError Unit :=
  match config.validateUrlSyntax url with
  | .error error => .error error
  | .ok () =>
    match lib.hostStr url with
    | none => .error (.ssrfBlocked "missing_host")
    | some host =>
      if config.dnsTimeout = 0 then .error (.ssrfBlocked "dns_resolution_timeout")
      else if !lib.isName host then .error (.ssrfBlocked "dns_resolution_failed")
      else .ok ()

/-- What a lookup before sending gives. -/
def LookupError.error : LookupError → HttpRequestError
  | .timedOut => .ssrfBlocked "dns_resolution_timeout"
  | .failed => .ssrfBlocked "dns_resolution_failed"
  | .refused error => .ssrfBlocked error.reason

/-- The address of a host that is written as one. -/
def Host.literal : Host → Option IpAddr
  | .domain _ => none
  | .ipv4 address => some (.v4 address)
  | .ipv6 address => some (.v6 address)

/-- `validate_url` up to the lookup. -/
def validateUrl (allowedDomains : List AllowedDomain) (allowLoopbackIps : Bool)
    (config : SsrfProtectionConfig) (url : Url) : Except HttpRequestError Unit :=
  match lib.hostStr url with
  | none => .error (.ssrfBlocked "missing_host")
  | some host =>
    if (url.host.bind Host.literal).any fun ip => !(allowLoopbackIps && ip.isLoopback) then
      .error (.ssrfBlocked "ip_literal_host")
    else if (matchAllowlistedDomain host allowedDomains).isNone then
      .error (.ssrfBlocked "domain_not_allowlisted")
    else config.beforeLookup lib url

/-- What a request's URL is to be like. -/
structure Permitted (lib : UrlLibrary) (allowedDomains : List AllowedDomain)
    (config : SsrfProtectionConfig) (url : Url) : Prop where
  scheme : ∃ scheme ∈ config.allowedSchemes, toAsciiLowercase scheme = toAsciiLowercase url.scheme
  port : url.portOrKnownDefault.getD 443 ∈ config.allowedPorts
  noUserinfo : url.username = "" ∧ url.password = none
  /-- The host is a name, and of an allowed domain. -/
  host : ∃ name, url.host = some (.domain name) ∧
    ∃ domain ∈ allowedDomains, domain.covers (toAsciiLowercase (lib.hostText (.domain name))) = true

theorem validateUrlSyntax_ok {config : SsrfProtectionConfig} {url : Url}
    (h : config.validateUrlSyntax url = .ok ()) :
    (∃ scheme ∈ config.allowedSchemes, toAsciiLowercase scheme = toAsciiLowercase url.scheme) ∧
      url.portOrKnownDefault.getD 443 ∈ config.allowedPorts ∧
      url.username = "" ∧ url.password = none := by
  unfold SsrfProtectionConfig.validateUrlSyntax at h
  split at h
  · cases h
  split at h
  · cases h
  split at h
  · cases h
  split at h
  · cases h
  rename_i hscheme huser hfragment hport
  refine ⟨?_, by simpa using hport, ?_, ?_⟩
  · simpa using hscheme
  · by_contra hu
    exact huser (.inl hu)
  · by_contra hp
    exact huser (.inr (Option.isSome_iff_ne_none.mpr hp))

theorem beforeLookup_ok {config : SsrfProtectionConfig} {lib : UrlLibrary} {url : Url}
    (h : config.beforeLookup lib url = .ok ()) : config.validateUrlSyntax url = .ok () := by
  unfold SsrfProtectionConfig.beforeLookup at h
  split at h
  · cases h
  · assumption

/-- A URL that passes the checks is permitted, where no loopback address is. -/
theorem validateUrl_ok {lib : UrlLibrary} {allowedDomains : List AllowedDomain}
    {config : SsrfProtectionConfig} {url : Url}
    (h : validateUrl lib allowedDomains false config url = .ok ()) :
    Permitted lib allowedDomains config url := by
  unfold validateUrl at h
  split at h
  · cases h
  rename_i text htext
  split at h
  · cases h
  rename_i hliteral
  split at h
  · cases h
  rename_i hlisted
  obtain ⟨hscheme, hport, huser⟩ := validateUrlSyntax_ok (beforeLookup_ok h)
  refine ⟨hscheme, hport, huser, ?_⟩
  obtain ⟨host, hhost, rfl⟩ := Option.map_eq_some_iff.mp htext
  obtain ⟨domain, hdomain⟩ := Option.ne_none_iff_exists'.mp
    (fun hn => hlisted (Option.isNone_iff_eq_none.mpr hn))
  obtain ⟨hmem, hcovers⟩ := matchAllowlistedDomain_some hdomain
  cases host with
  | domain name => exact ⟨name, hhost, domain, hmem, hcovers⟩
  | ipv4 address => exact absurd (by simp [hhost, Host.literal]) hliteral
  | ipv6 address => exact absurd (by simp [hhost, Host.literal]) hliteral

end AuxCommon.TenantHttp
