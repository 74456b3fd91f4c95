import AuxCommon.Lib.Text
import AuxCommon.TenantHttp.Execute

/-!
# Retries of a request

`HttpClient::execute` (`http-request/src/client.rs`) with `RequestAttempts` and the delays of
`retry.rs`. The transport, the random draws and the clock answer by the number of the attempt.
Durations are in nanoseconds.

A run sends the request once and once more for every retry (`Ending`), and ends with the first result
that is not retried, unless the sum of the delay and its jitter overflows before
(`execute_ends`). `execute_sound_iff` says for which configurations and results it never does.
-/

namespace AuxCommon.HttpRequest

open List Option Nat

open TenantHttp (Method Request shouldRetryStatus)

def maxRetryExponent : Nat := 10

/-- `Duration::as_millis`. -/
def asMillis (duration : Nat) : Nat := duration / 10 ^ 6

/-- `Duration::from_millis`. -/
def fromMillis (millis : Nat) : Nat := millis * 10 ^ 6

structure RetryConfig extends TenantHttp.RetryConfig where
  baseDelay : Nat
  maxDelay : Nat

inductive HttpRequestErrorKind
  | build | timeout | connect | request | body | responseBody | responseTooLarge | status | redirect
  | ssrf | invalidUrl | decode | invalidCacheTtl | unknown
  deriving DecidableEq, Repr

inductive HttpRequestError
  | build
  | transport (kind : HttpRequestErrorKind)
  | requestTooLarge (size max : Nat)
  | requestSizeUnknown (max : Nat)
  | requestNotCloneable
  | responseBody
  | responseTooLarge (size max : Nat)
  | cacheTtlOverflow (seconds : Nat)
  | httpStatus (status : Nat) (body : Option String)
  | redirectBlocked (reason : String)
  | ssrfBlocked (reason : String)
  | invalidUrl
  | decode
  deriving DecidableEq, Repr

def HttpRequestError.kind : HttpRequestError → HttpRequestErrorKind
  | .build => .build
  | .transport kind => kind
  | .requestTooLarge _ _ | .requestSizeUnknown _ | .requestNotCloneable => .body
  | .responseBody => .responseBody
  | .responseTooLarge _ _ => .responseTooLarge
  | .cacheTtlOverflow _ => .invalidCacheTtl
  | .httpStatus _ _ => .status
  | .redirectBlocked _ => .redirect
  | .ssrfBlocked _ => .ssrf
  | .invalidUrl => .invalidUrl
  | .decode => .decode

def shouldRetryError (error : HttpRequestError) : Bool :=
  error.kind = .timeout || error.kind = .connect || error.kind = .request

/-- A response: its status, its `Retry-After` header and the rest. -/
structure HttpResponse (Content : Type) where
  status : Nat
  retryAfter : Option (List UInt8)
  content : Content
  deriving DecidableEq

abbrev Result (Content : Type) := Except HttpRequestError (HttpResponse Content)

/-- What stands outside a run: the answer to each send, the clock before each retry, and what the
crates do with headers, HTTP dates and requests. -/
structure World (Content : Type) where
  send : Nat → Result Content
  now : Nat → Nat
  /-- `HeaderValue::to_str` -/
  headerToStr : List UInt8 → Option String
  parseHttpDate : List Char → Option Nat
  /-- `Request::try_clone`, which copies any request whose body is no stream -/
  tryClone : Request → Option Request
  tryClone_eq : ∀ request, tryClone request = if request.isCloneable then some request else none

/-- The random draws before the retries, each at most the base delay. -/
structure Draws (retry : RetryConfig) where
  jitter : Nat → Nat
  jitter_le : ∀ k, jitter k ≤ min (asMillis retry.baseDelay) wordMax

/-! ## Delays -/

/-- `jittered_backoff`, or nothing when the sum overflows. -/
def jitteredBackoff (base max attempt jitter : Nat) : Option Nat :=
  let baseMs := min (asMillis base) wordMax
  let maxMs := min (asMillis max) wordMax
  let factor := 2 ^ min attempt maxRetryExponent
  let exponential := satMul baseMs factor
  (checkedAdd exponential jitter).map fun sum => fromMillis (min sum maxMs)

variable {Content : Type} {retry : RetryConfig} {k : Nat}

/-- `parse_retry_after`: seconds, or a date as the time until then. -/
def parseRetryAfter (world : World Content) (attempt : Nat) (value : List UInt8) : Option Nat := do
  let raw := trim (← world.headerToStr value)
  match parseUsize raw with
  | some seconds => return seconds * 10 ^ 9
  | none => return (← world.parseHttpDate raw) - world.now attempt

def backoffDelay (draws : Draws retry) (attempt : Nat) : Option Nat :=
  jitteredBackoff retry.baseDelay retry.maxDelay attempt (draws.jitter attempt)

/-- The time that the response asks to wait. -/
def retryAfter (world : World Content) (attempt : Nat) : Result Content → Option Nat
  | .ok response => response.retryAfter.bind (parseRetryAfter world attempt)
  | .error _ => none

/-- `retry_delay_for_response`, and the delay after an error. -/
def retryDelay (draws : Draws retry) (world : World Content) (attempt : Nat) (result : Result Content) :
    Option Nat :=
  match retryAfter world attempt result with
  | some delay => some (min delay retry.maxDelay)
  | none => backoffDelay draws attempt

/-! ## Attempts -/

structure RequestAttempts where
  firstRequest : Option Request
  baseRequest : Option Request
  maxRetries : Nat
  attempt : Nat

/-- What `finish` tells the loop; the arithmetic of the delay may overflow. -/
inductive Finished (Content : Type)
  | returns (result : Result Content)
  | retries (attempts : RequestAttempts) (delay : Nat)
  | overflows

def shouldRetryResult : Result Content → Bool
  | .ok response => shouldRetryStatus response.status
  | .error error => shouldRetryError error

namespace RequestAttempts

def new (retry : RetryConfig) (world : World Content) (request : Request) : RequestAttempts :=
  let firstRequest := world.tryClone request
  let canRetry := firstRequest.isSome && retry.shouldRetryMethod request.method
  { firstRequest
    baseRequest := some request
    maxRetries := if canRetry then retry.maxRetries else 0
    attempt := 0 }

def nextRequest (world : World Content) (attempts : RequestAttempts) :
    Except HttpRequestError (Request × RequestAttempts) :=
  if attempts.attempt = 0 then
    match attempts.firstRequest with
    | some request => .ok (request, { attempts with firstRequest := none })
    | none =>
      match attempts.baseRequest with
      | some request => .ok (request, { attempts with baseRequest := none })
      | none => .error .requestNotCloneable
  else
    match attempts.baseRequest.bind world.tryClone with
    | some request => .ok (request, attempts)
    | none => .error .requestNotCloneable

def finish (draws : Draws retry) (world : World Content) (attempts : RequestAttempts)
    (result : Result Content) : Finished Content :=
  if attempts.attempt < attempts.maxRetries ∧ shouldRetryResult result then
    match retryDelay draws world attempts.attempt result with
    | some delay => .retries { attempts with attempt := attempts.attempt + 1 } delay
    | none => .overflows
  else .returns result

end RequestAttempts

/-- The end of a run: the result, or an overflow. -/
inductive Outcome (Content : Type)
  | returned (result : Result Content)
  | overflowed

structure Execution (Content : Type) where
  sent : List Request
  delays : List Nat
  outcome : Outcome Content

def executeLoop (draws : Draws retry) (world : World Content) :
    Nat → RequestAttempts → List Request → List Nat → Option (Execution Content)
  | 0, _, _, _ => none
  | fuel + 1, attempts, sent, delays =>
    match attempts.nextRequest world with
    | .error error => some ⟨sent, delays, .returned (.error error)⟩
    | .ok (request, attempts) =>
      match attempts.finish draws world (world.send sent.length) with
      | .returns result => some ⟨sent ++ [request], delays, .returned result⟩
      | .overflows => some ⟨sent ++ [request], delays, .overflowed⟩
      | .retries attempts delay =>
        executeLoop draws world fuel attempts (sent ++ [request]) (delays ++ [delay])

def execute (draws : Draws retry) (world : World Content) (request : Request) :
    Option (Execution Content) :=
  executeLoop draws world (retry.maxRetries + 1) (.new retry world request) [] []

/-! ## Runs -/

section Runs

/-- The request may be sent again. -/
def CanRetry (retry : RetryConfig) (request : Request) : Prop :=
  request.isCloneable = true ∧ retry.shouldRetryMethod request.method = true

instance (request : Request) : Decidable (CanRetry retry request) := inferInstanceAs (Decidable (_ ∧ _))

def retries (retry : RetryConfig) (request : Request) : Nat :=
  if CanRetry retry request then retry.maxRetries else 0

/-- The result of the send `k` is retried. -/
def Retried (retry : RetryConfig) (world : World Content) (request : Request) (k : Nat) : Prop :=
  k < retries retry request ∧ shouldRetryResult (world.send k) = true

/-- The delay before the retry `k`. -/
def delayBefore (draws : Draws retry) (world : World Content) (k : Nat) : Option Nat :=
  retryDelay draws world k (world.send k)

/-- A run that ends after the send `n`: every earlier result was retried after its delay. -/
structure Ending (draws : Draws retry) (world : World Content) (request : Request) (n : Nat)
    (e : Execution Content) : Prop where
  sent : e.sent = List.replicate (n + 1) request
  delays : e.delays.map some = (List.range n).map (delayBefore draws world)
  retried : ∀ k < n, Retried retry world request k
  outcome : (¬ Retried retry world request n ∧ e.outcome = .returned (world.send n)) ∨
    (Retried retry world request n ∧ delayBefore draws world n = none ∧ e.outcome = .overflowed)

/-- Before the send `n` of a run. -/
structure Attempting (draws : Draws retry) (world : World Content) (request : Request) (n : Nat)
    (attempts : RequestAttempts) (sent : List Request) (delays : List Nat) : Prop where
  attempt : attempts.attempt = n
  maxRetries : attempts.maxRetries = retries retry request
  first : n = 0 → attempts.firstRequest = world.tryClone request
  base : attempts.baseRequest = some request
  sent : sent = List.replicate n request
  delays : delays.map some = (List.range n).map (delayBefore draws world)
  retried : ∀ k < n, Retried retry world request k

variable {draws : Draws retry} {world : World Content} {request : Request} {n : Nat}
  {attempts : RequestAttempts} {sent : List Request} {delays : List Nat}

theorem Retried.isCloneable (h : Retried retry world request k) : request.isCloneable = true := by
  have hlt := h.1
  unfold retries at hlt
  split_ifs at hlt with hcan
  · exact hcan.1
  · omega

theorem attempting_new : Attempting draws world request 0 (.new retry world request) [] [] where
  attempt := rfl
  maxRetries := by
    unfold RequestAttempts.new retries CanRetry
    by_cases hclone : request.isCloneable = true <;> simp [world.tryClone_eq, hclone]
  first _ := rfl
  base := rfl
  sent := rfl
  delays := rfl
  retried _ h := absurd h (not_lt_zero _)

namespace Attempting

/-- The next request is the one to send; only one that cannot be copied leaves nothing behind. -/
theorem nextRequest (h : Attempting draws world request n attempts sent delays) :
    ∃ next, attempts.nextRequest world = .ok (request, next) ∧ next.attempt = n ∧
      next.maxRetries = retries retry request ∧
      (request.isCloneable = true → next.baseRequest = some request) := by
  unfold RequestAttempts.nextRequest
  by_cases hn : n = 0
  · rw [if_pos (h.attempt.trans hn), h.first hn, world.tryClone_eq]
    by_cases hclone : request.isCloneable = true
    · rw [if_pos hclone]
      exact ⟨_, rfl, h.attempt, h.maxRetries, fun _ => h.base⟩
    · rw [if_neg hclone, h.base]
      exact ⟨_, rfl, h.attempt, h.maxRetries, fun hc => absurd hc hclone⟩
  · have hclone := (h.retried 0 (by omega)).isCloneable
    rw [if_neg (by rw [h.attempt]; exact hn), h.base, bind_some, world.tryClone_eq, if_pos hclone]
    exact ⟨_, rfl, h.attempt, h.maxRetries, fun _ => h.base⟩

/-- One turn of the loop ends the run or leads to the next send. -/
theorem step (h : Attempting draws world request n attempts sent delays) (fuel : Nat) :
    (∃ e, executeLoop draws world (fuel + 1) attempts sent delays = some e ∧
      Ending draws world request n e) ∨
    ∃ attempts' sent' delays', Retried retry world request n ∧
      executeLoop draws world (fuel + 1) attempts sent delays =
        executeLoop draws world fuel attempts' sent' delays' ∧
      Attempting draws world request (n + 1) attempts' sent' delays' := by
  obtain ⟨next, hnext, hattempt, hmax, hbase⟩ := h.nextRequest
  have hlen : sent.length = n := by rw [h.sent, length_replicate]
  have hsent : sent ++ [request] = replicate (n + 1) request := by
    rw [h.sent, replicate_succ']
  have hloop : executeLoop draws world (fuel + 1) attempts sent delays =
      match next.finish draws world (world.send n) with
      | .returns result => some ⟨sent ++ [request], delays, .returned result⟩
      | .overflows => some ⟨sent ++ [request], delays, .overflowed⟩
      | .retries attempts delay =>
        executeLoop draws world fuel attempts (sent ++ [request]) (delays ++ [delay]) := by
    rw [executeLoop, hnext]
    simp only [hlen]
  rw [hloop, RequestAttempts.finish, hattempt, hmax]
  by_cases hretried : Retried retry world request n
  · rw [if_pos (show _ ∧ _ from hretried)]
    cases hdelay : retryDelay draws world n (world.send n) with
    | none =>
      exact .inl ⟨_, rfl, hsent, h.delays, h.retried, .inr ⟨hretried, hdelay, rfl⟩⟩
    | some delay =>
      refine .inr ⟨_, _, _, hretried, rfl, ?_⟩
      exact
        { attempt := rfl
          maxRetries := rfl
          first := fun hn => absurd hn (Nat.succ_ne_zero _)
          base := hbase hretried.isCloneable
          sent := hsent
          delays := by
            rw [map_append, h.delays, range_succ, map_append]
            simp [delayBefore, hdelay]
          retried := fun k hk => by
            rcases Nat.lt_succ_iff_lt_or_eq.mp hk with hk | rfl
            · exact h.retried k hk
            · exact hretried }
  · rw [if_neg (show ¬ (_ ∧ _) from hretried)]
    exact .inl ⟨_, rfl, hsent, h.delays, h.retried, .inl ⟨hretried, rfl⟩⟩

/-- The loop ends: each turn uses up a retry. -/
theorem loop (h : Attempting draws world request n attempts sent delays) {fuel : Nat}
    (hfuel : retries retry request < n + fuel) :
    ∃ m e, executeLoop draws world fuel attempts sent delays = some e ∧ Ending draws world request m e := by
  induction fuel generalizing n attempts sent delays with
  | zero =>
    cases n with
    | zero => omega
    | succ n =>
      have := (h.retried n (lt_succ_self n)).1
      omega
  | succ fuel ih =>
    rcases h.step fuel with ⟨e, he, hend⟩ | ⟨attempts', sent', delays', -, he, hnext⟩
    · exact ⟨n, e, he, hend⟩
    · rw [he]
      exact ih hnext (by omega)

end Attempting

theorem retries_le : retries retry request ≤ retry.maxRetries := by
  unfold retries
  split_ifs
  · exact le_refl _
  · exact zero_le _

/-- Every run ends, and in one of the two ways. -/
theorem execute_ends (draws : Draws retry) (world : World Content) (request : Request) :
    ∃ n e, execute draws world request = some e ∧ Ending draws world request n e :=
  attempting_new.loop (by have := @retries_le retry request; omega)

end Runs

/-! ## Sound runs -/

/-- A run as it should be: bounded sends of the request, only one where it must not be sent again, the
result of the last one, and delays within their bounds, in whole milliseconds. -/
structure Sound (retry : RetryConfig) (world : World Content) (request : Request)
    (e : Execution Content) : Prop where
  sends_le : e.sent.length ≤ retry.maxRetries + 1
  sends_request : ∀ sent ∈ e.sent, sent = request
  sends_once : ¬ CanRetry retry request → e.sent.length = 1
  returns_last : e.outcome = .returned (world.send (e.sent.length - 1))
  waits : e.delays.length + 1 = e.sent.length
  delay_le : ∀ delay ∈ e.delays, delay ≤ retry.maxDelay
  delay_ge : ∀ k delay, e.delays[k]? = some delay → retryAfter world k (world.send k) = none →
    min (asMillis retry.maxDelay) (asMillis retry.baseDelay * 2 ^ min k maxRetryExponent) ≤
      asMillis delay

/-- Before each retry for which no `Retry-After` applies, the delay and the largest jitter together are
a number of 64 bits. -/
def BackoffFits (retry : RetryConfig) (world : World Content) (request : Request) : Prop :=
  ∀ k, (∀ j ≤ k, Retried retry world request j) → retryAfter world k (world.send k) = none →
    asMillis retry.baseDelay * 2 ^ min k maxRetryExponent + asMillis retry.baseDelay ≤ wordMax

theorem asMillis_fromMillis (millis : Nat) : asMillis (fromMillis millis) = millis :=
  Nat.mul_div_cancel _ (by decide)

theorem fromMillis_le {millis duration : Nat} (h : millis ≤ asMillis duration) :
    fromMillis millis ≤ duration :=
  (mul_le_mul_right _ h).trans (div_mul_le_self _ _)

theorem jitteredBackoff_le {base max attempt jitter delay : Nat}
    (h : jitteredBackoff base max attempt jitter = some delay) : delay ≤ max := by
  obtain ⟨sum, -, rfl⟩ := map_eq_some_iff.mp h
  exact fromMillis_le ((min_le_right _ _).trans (min_le_left _ _))

/-- Where the sum with the largest jitter fits, the delay is the exponential one or more. -/
theorem jitteredBackoff_of_fits {base max attempt jitter : Nat}
    (hjitter : jitter ≤ min (asMillis base) wordMax)
    (hfits : asMillis base * 2 ^ min attempt maxRetryExponent + asMillis base ≤ wordMax) :
    ∃ delay, jitteredBackoff base max attempt jitter = some delay ∧
      min (asMillis max) (asMillis base * 2 ^ min attempt maxRetryExponent) ≤ asMillis delay := by
  have hbase : min (asMillis base) wordMax = asMillis base := by omega
  have hmul : satMul (asMillis base) (2 ^ min attempt maxRetryExponent) =
      asMillis base * 2 ^ min attempt maxRetryExponent := min_eq_left (by omega)
  have hsum : checkedAdd (asMillis base * 2 ^ min attempt maxRetryExponent) jitter =
      some (asMillis base * 2 ^ min attempt maxRetryExponent + jitter) := by
    rw [checkedAdd, if_pos (by omega)]
  refine ⟨fromMillis (min (asMillis base * 2 ^ min attempt maxRetryExponent + jitter)
    (min (asMillis max) wordMax)), by
      simp only [jitteredBackoff, hbase, hmul, hsum, map_some], ?_⟩
  rw [asMillis_fromMillis]
  omega

/-- Where it does not fit, the largest jitter overflows. -/
theorem jitteredBackoff_overflows {base max attempt : Nat}
    (hbig : wordMax < asMillis base * 2 ^ min attempt maxRetryExponent + asMillis base) :
    jitteredBackoff base max attempt (min (asMillis base) wordMax) = none := by
  have hfactor : 0 < 2 ^ min attempt maxRetryExponent := Nat.pow_pos (by decide)
  have hover : ¬ satMul (min (asMillis base) wordMax) (2 ^ min attempt maxRetryExponent) +
      min (asMillis base) wordMax ≤ wordMax := by
    have hword : 0 < wordMax := by decide
    unfold satMul
    generalize 2 ^ min attempt maxRetryExponent = factor at hbig hfactor ⊢
    generalize asMillis base = millis at hbig ⊢
    rcases Nat.le_total millis wordMax with hle | hge
    · rw [Nat.min_eq_left hle]
      rcases Nat.eq_zero_or_pos millis with rfl | hpos
      · omega
      · omega
    · rw [Nat.min_eq_right hge]
      have := Nat.le_mul_of_pos_right wordMax hfactor
      omega
  simp [jitteredBackoff, checkedAdd, hover]

variable {draws : Draws retry} {world : World Content} {request : Request} {n : Nat}
  {e : Execution Content}

theorem delayBefore_le {k delay : Nat} (h : delayBefore draws world k = some delay) :
    delay ≤ retry.maxDelay := by
  unfold delayBefore retryDelay at h
  split at h
  · cases h
    exact min_le_right _ _
  · exact jitteredBackoff_le h

theorem delayBefore_of_retryAfter_none (h : retryAfter world k (world.send k) = none) :
    delayBefore draws world k = backoffDelay draws k := by
  rw [delayBefore, retryDelay, h]

theorem delayBefore_isSome_of_retryAfter {k delay : Nat}
    (h : retryAfter world k (world.send k) = some delay) :
    delayBefore draws world k = some (min delay retry.maxDelay) := by
  rw [delayBefore, retryDelay, h]

namespace Ending

theorem length_delays (h : Ending draws world request n e) : e.delays.length = n := by
  simpa using congrArg length h.delays

theorem delay (h : Ending draws world request n e) {k delay : Nat} (hk : e.delays[k]? = some delay) :
    k < n ∧ delayBefore draws world k = some delay := by
  have hlt : k < n := by
    obtain ⟨hlt, -⟩ := List.getElem?_eq_some_iff.mp hk
    rwa [h.length_delays] at hlt
  have hget := congrArg (·[k]?) h.delays
  simp only [List.getElem?_map, hk, map_some, List.getElem?_range hlt] at hget
  exact ⟨hlt, (some.inj hget).symm⟩

/-- The delay before each retry of a run was computed. -/
theorem exists_delay (h : Ending draws world request n e) (hk : k < n) :
    ∃ delay, delayBefore draws world k = some delay := by
  have hlt : k < e.delays.length := by rwa [h.length_delays]
  exact ⟨_, (h.delay (getElem?_eq_getElem hlt)).2⟩

/-- A run that returns is sound where the delays fit. -/
theorem sound (h : Ending draws world request n e) (hfits : BackoffFits retry world request) :
    Sound retry world request e := by
  have hlength : e.sent.length = n + 1 := by rw [h.sent, length_replicate]
  have hbefore : n ≤ retries retry request := by
    cases n with
    | zero => exact Nat.zero_le _
    | succ m => exact (h.retried m (Nat.lt_succ_self m)).1
  have hfit : ∀ k, (∀ j ≤ k, Retried retry world request j) →
      retryAfter world k (world.send k) = none → ∃ delay, delayBefore draws world k = some delay ∧
        min (asMillis retry.maxDelay) (asMillis retry.baseDelay * 2 ^ min k maxRetryExponent) ≤
          asMillis delay := by
    intro k hretried hnone
    rw [delayBefore_of_retryAfter_none hnone]
    exact jitteredBackoff_of_fits (draws.jitter_le k) (hfits k hretried hnone)
  refine ⟨?_, ?_, ?_, ?_, ?_, ?_, ?_⟩
  · have := @retries_le retry request
    omega
  · intro sent hsent
    rw [h.sent] at hsent
    exact eq_of_mem_replicate hsent
  · intro hcan
    rw [retries, if_neg hcan] at hbefore
    omega
  · rcases h.outcome with ⟨-, houtcome⟩ | ⟨hretried, hnone, -⟩
    · rw [houtcome, hlength, Nat.add_sub_cancel]
    · -- an overflow needs a delay that does not fit
      exfalso
      cases hafter : retryAfter world n (world.send n) with
      | some delay =>
        rw [delayBefore_isSome_of_retryAfter hafter] at hnone
        cases hnone
      | none =>
        obtain ⟨delay, hdelay, -⟩ := hfit n (fun j hj => by
          rcases Nat.lt_or_eq_of_le hj with hj | rfl
          · exact h.retried j hj
          · exact hretried) hafter
        rw [hdelay] at hnone
        cases hnone
  · rw [h.length_delays, hlength]
  · intro delay hdelay
    obtain ⟨k, hk⟩ := mem_iff_getElem?.mp hdelay
    exact delayBefore_le (h.delay hk).2
  · intro k delay hk hnone
    obtain ⟨hlt, hdelay⟩ := h.delay hk
    obtain ⟨delay', hdelay', hge⟩ := hfit k (fun j hj => h.retried j (by omega)) hnone
    rw [hdelay] at hdelay'
    cases hdelay'
    exact hge

end Ending

/-- Every run is sound, whatever is drawn, exactly when the delays and their jitter fit. -/
theorem execute_sound_iff (retry : RetryConfig) (world : World Content) (request : Request) :
    (∀ draws : Draws retry, ∃ e, execute draws world request = some e ∧ Sound retry world request e) ↔
      BackoffFits retry world request := by
  constructor
  · intro hsound k hretried hnone
    by_contra hbig
    -- the largest draws overflow before the retry `k`, which every sound run reaches
    let draws : Draws retry := ⟨fun _ => min (asMillis retry.baseDelay) wordMax, fun _ => Nat.le_refl _⟩
    obtain ⟨e, he, hs⟩ := hsound draws
    obtain ⟨n, e', he', hend⟩ := execute_ends draws world request
    obtain rfl : e = e' := some.inj (he.symm.trans he')
    have hlast : ¬ Retried retry world request n := by
      rcases hend.outcome with ⟨hlast, -⟩ | ⟨-, -, hover⟩
      · exact hlast
      · rw [hs.returns_last] at hover
        cases hover
    have hlt : k < n := Nat.lt_of_not_le fun hle => hlast (hretried n hle)
    obtain ⟨delay, hdelay⟩ := hend.exists_delay hlt
    rw [delayBefore_of_retryAfter_none hnone] at hdelay
    have hover := @jitteredBackoff_overflows retry.baseDelay retry.maxDelay k (Nat.lt_of_not_le hbig)
    exact some_ne_none _ (hdelay.symm.trans hover)
  · intro hfits draws
    obtain ⟨n, e, he, hend⟩ := execute_ends draws world request
    exact ⟨e, he, hend.sound hfits⟩

namespace Sample

/-- One retry after the longest delay of 64 bits. -/
def longDelay : RetryConfig where
  maxRetries := 1
  retryNonIdempotent := false
  baseDelay := fromMillis wordMax
  maxDelay := fromMillis 5000

def get : Request := ⟨.get, TenantHttp.Trial.url "/", false, .empty⟩

/-- Every send times out. -/
def timeouts : World Unit :=
  ⟨fun _ => .error (.transport .timeout), fun _ => 0, fun _ => none, fun _ => none, _, fun _ => rfl⟩

def oneMilli : Draws longDelay := ⟨fun _ => 1, fun _ => by decide⟩

/-- The delay before the first retry overflows with a jitter of one millisecond. -/
theorem longDelay_overflows :
    ∃ e, execute oneMilli timeouts get = some e ∧ e.outcome = .overflowed ∧
      ¬ Sound longDelay timeouts get e := by
  refine ⟨⟨[get], [], .overflowed⟩, rfl, rfl, fun h => ?_⟩
  have := h.returns_last
  cases this

end Sample

end AuxCommon.HttpRequest
