import AuxCommon.HttpRequest.Retry
import AuxCommon.JobsHttp.Policy

/-!
# Classification of responses

`classifier.rs`: a status and a `Retry-After` header give a class, a code and a bounded delay, which
become the outcome of a job. The readers of header values and HTTP dates are parameters.
-/

namespace AuxCommon.JobsHttp

open OutcomeCode

inductive HttpResultClass
  | complete | retry | deadLetter
  deriving DecidableEq, Repr

inductive RetryAfterSource
  | missing | delta | date | malformed
  deriving DecidableEq, Repr

structure RetryAfterDecision where
  source : RetryAfterSource
  delay : Option Duration
  deriving DecidableEq

namespace RetryAfterDecision

/-- No header. -/
def absent : RetryAfterDecision := ⟨.missing, none⟩

end RetryAfterDecision

structure HttpClassification where
  resultClass : HttpResultClass
  status : Option Nat
  retryClass : Option RetryClass
  retryAfter : RetryAfterDecision
  code : String
  deriving DecidableEq

/-- `SystemTime`: seconds of 64 bits with a sign, and nanoseconds. -/
structure SystemTime where
  nanos : Int
  low : -2 ^ 63 * 10 ^ 9 ≤ nanos
  high : nanos < 2 ^ 63 * 10 ^ 9

/-- `duration_since`, or no time at all when the other time is later. -/
def SystemTime.durationSince (time earlier : SystemTime) : Duration where
  nanos := BitVec.ofNat 128 (time.nanos - earlier.nanos).toNat
  bounded := by
    have := time.high
    have := earlier.low
    rw [BitVec.toNat_ofNat]
    omega

/-- The headers of a response, by their names in lower case. -/
abbrev HeaderMap := List (String × List UInt8)

def HeaderMap.get (headers : HeaderMap) (name : String) : Option (List UInt8) :=
  (headers.find? (·.1 = name)).map (·.2)

/-- The crates `http` and `httpdate`: `HeaderValue::to_str` and `parse_http_date`. -/
structure HeaderReader where
  toStr : List UInt8 → Option String
  parseHttpDate : List Char → Option SystemTime

def boundedRetryAfter (source : RetryAfterSource) (delay maximum : Duration) : RetryAfterDecision :=
  ⟨source, some (minDuration delay maximum)⟩

def malformedRetryAfter (fallback : Duration) : RetryAfterDecision := ⟨.malformed, some fallback⟩

variable (reader : HeaderReader)

def parseRetryAfter (headers : HeaderMap) (now : SystemTime) (maximum fallback : Duration) :
    RetryAfterDecision :=
  match headers.get "retry-after" with
  | none => .absent
  | some value =>
    match reader.toStr value with
    | none => malformedRetryAfter (minDuration fallback maximum)
    | some value =>
      match parseUsize (trim value) with
      | some seconds => boundedRetryAfter .delta (.fromSecs (BitVec.ofNat 64 seconds)) maximum
      | none =>
        match reader.parseHttpDate (trim value) with
        | none => malformedRetryAfter (minDuration fallback maximum)
        | some date => boundedRetryAfter .date (date.durationSince now) maximum

variable (status : Nat)

def isSuccess : Bool := 200 ≤ status && status < 300

def isRetryableStatus : Bool :=
  status ∈ [408, 425, 429] || (500 ≤ status && status < 600)

namespace HttpClassification

/-- `complete`. -/
def completed (retryAfter : RetryAfterDecision) : HttpClassification :=
  ⟨.complete, some status, none, retryAfter, "http_complete"⟩

/-- `retry`. -/
def retried (status : Option Nat) (retryAfter : RetryAfterDecision) (code : String) :
    HttpClassification :=
  ⟨.retry, status, some (if status = some 429 then .throttled else .transient), retryAfter, code⟩

/-- `dead_letter`. -/
def rejected (status : Option Nat) (retryAfter : RetryAfterDecision) (code : String) :
    HttpClassification :=
  ⟨.deadLetter, status, none, retryAfter, code⟩

def retryInvariant : HttpClassification :=
  ⟨.retry, none, some .transient, .absent, "batch_invariant_retry"⟩

def toJobOutcome (classification : HttpClassification) (now : Timestamp) :
    Except ValidationError JobOutcome := do
  let code ← OutcomeCode.tryNew classification.code
  match classification.resultClass with
  | .complete => return .complete code
  | .deadLetter => return .deadLetter code
  | .retry =>
    let notBefore ← classification.retryAfter.delay.mapM fun delay => now.checkedAdd delay
    return .retry (classification.retryClass.getD .transient) notBefore code

end HttpClassification

def classifyStatus (status : Nat) (headers : HeaderMap)
    (retryAfterMax retryAfterFallback : Duration) (now : SystemTime) : HttpClassification :=
  let retryAfter := parseRetryAfter reader headers now retryAfterMax retryAfterFallback
  if isSuccess status then .completed status retryAfter
  else if isRetryableStatus status then .retried (some status) retryAfter "http_retry"
  else .rejected (some status) retryAfter "http_rejected"

/-! ## Outcomes -/

/-- The codes of the classifications by status. -/
def statusCodes : List String := ["http_complete", "http_retry", "http_rejected"]

theorem exists_code {code : String} (h : code ∈ statusCodes) : ∃ c, tryNew code = .ok c := by
  have hall : ∀ code ∈ statusCodes, (tryNew code).isOk = true := by decide +kernel
  exact Except.isOk_iff.mp (hall code h)

theorem minDuration_le (left right : Duration) : (minDuration left right).nanos ≤ right.nanos := by
  unfold minDuration
  split_ifs with h
  · exact h
  · exact Nat.le_refl _

/-- A delay is at most the maximum. -/
theorem parseRetryAfter_le {reader : HeaderReader} {headers : HeaderMap} {now : SystemTime}
    {maximum fallback delay : Duration}
    (h : (parseRetryAfter reader headers now maximum fallback).delay = some delay) :
    delay.nanos ≤ maximum.nanos := by
  unfold parseRetryAfter at h
  split at h
  · cases h
  · split at h
    · cases h
      exact minDuration_le _ _
    · split at h
      · cases h
        exact minDuration_le _ _
      · split at h
        · cases h
          exact minDuration_le _ _
        · cases h
          exact minDuration_le _ _

/-- A shorter delay is representable where a longer one is. -/
theorem checkedAdd_of_le {now later : Timestamp} {delay maximum : Duration}
    (h : now.checkedAdd maximum = .ok later) (hle : delay.nanos ≤ maximum.nanos) :
    ∃ t, now.checkedAdd delay = .ok t := by
  have hmillis : delay.nanos.toNat / 10 ^ 6 ≤ maximum.nanos.toNat / 10 ^ 6 := Nat.div_le_div_right hle
  unfold Timestamp.checkedAdd at h ⊢
  dsimp only at h ⊢
  split_ifs at h with h1 h2
  rw [if_neg (by omega), if_neg (by omega)]
  exact ⟨_, rfl⟩

namespace HttpClassification

/-- An outcome is missing only where a delay is not representable. -/
theorem exists_toJobOutcome {classification : HttpClassification} {now : Timestamp} {code : OutcomeCode}
    (hcode : tryNew classification.code = .ok code)
    (hdelay : ∀ delay, classification.retryAfter.delay = some delay →
      ∃ t, now.checkedAdd delay = .ok t) :
    ∃ outcome, classification.toJobOutcome now = .ok outcome := by
  simp only [toJobOutcome, hcode]
  cases classification.resultClass with
  | complete => exact ⟨_, rfl⟩
  | deadLetter => exact ⟨_, rfl⟩
  | retry =>
    cases hd : classification.retryAfter.delay with
    | none => exact ⟨_, rfl⟩
    | some delay =>
      obtain ⟨t, ht⟩ := hdelay delay hd
      exact ⟨.retry (classification.retryClass.getD .transient) (some t) code, by
        simp only [Option.mapM_some, ht]
        rfl⟩

/-- The outcome of an item that is not named exactly once. -/
theorem exists_toJobOutcome_retryInvariant (now : Timestamp) :
    ∃ code, retryInvariant.toJobOutcome now = .ok (.retry .transient none code) := by
  have hok : (tryNew retryInvariant.code).isOk = true := by decide +kernel
  obtain ⟨code, hcode⟩ := Except.isOk_iff.mp hok
  exact ⟨code, by rw [toJobOutcome, hcode]; rfl⟩

end HttpClassification

/-- A status has an outcome at any time to which the longest delay can be added. -/
theorem exists_toJobOutcome_classifyStatus (headers : HeaderMap) {retryAfterMax : Duration}
    (retryAfterFallback : Duration) (now : SystemTime) {outcomeNow later : Timestamp}
    (h : outcomeNow.checkedAdd retryAfterMax = .ok later) :
    ∃ outcome, (classifyStatus reader status headers retryAfterMax retryAfterFallback
      now).toJobOutcome outcomeNow = .ok outcome := by
  have hcode : (classifyStatus reader status headers retryAfterMax retryAfterFallback now).code ∈
      statusCodes := by
    unfold classifyStatus
    dsimp only
    split_ifs <;> simp [statusCodes, HttpClassification.completed, HttpClassification.retried,
      HttpClassification.rejected]
  have hafter : (classifyStatus reader status headers retryAfterMax retryAfterFallback
      now).retryAfter = parseRetryAfter reader headers now retryAfterMax retryAfterFallback := by
    unfold classifyStatus
    dsimp only
    split_ifs <;> rfl
  obtain ⟨code, hcode⟩ := exists_code hcode
  refine HttpClassification.exists_toJobOutcome hcode fun delay hdelay => ?_
  rw [hafter] at hdelay
  exact checkedAdd_of_le h (parseRetryAfter_le hdelay)

end AuxCommon.JobsHttp
