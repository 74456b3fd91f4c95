import AuxCommon.Lib.LinkedMap
import AuxCommon.Lib.System
import Mathlib.Logic.Function.Basic

/-!
# Publication of an object

Model of `S3ObjectPublisher::publish` (`bg-jobs-aws/src/s3_publication.rs`) with the retries of
`HttpClient::execute` (`http-request/src/client.rs`). Any number of publishers run at once on the
object of one url. A request is sent, served by the store at some later time or never, and its
response reaches the publisher or is lost; a publisher that got an error may be called again.

The store is what the publication relies on (`Store.serve`): a PUT with `If-None-Match: *` creates
an object only where there is none, and says so only when it has; a HEAD that succeeds reports the
identity and the length of what is stored. It may refuse any request with any status, and it may
answer a PUT that it has applied with a failure.

`created_once`: what has been created stays, and a publisher that returns `Ok` has the identity and
the length of the stored object.
-/

namespace AuxCommon.S3Publication

open LinkedMap Option

/-! ## The description of an object -/

inductive HeaderValue where
  | text (value : String)
  | number (value : Nat)
  deriving DecidableEq

abbrev Headers := LinkedMap String HeaderValue

inductive S3PublicationError where
  | invalidObject
  | signingFailed
  | requestFailed
  | identityMismatch
  | conflict
  deriving DecidableEq

/-- What `try_from` reads of a url. -/
structure Url where
  scheme : String
  username : String
  password : Option String
  fragment : Option String

structure S3ObjectInput where
  url : Url
  sourceIdentity : String
  contentLength : Nat
  contentType : String
  contentEncoding : Option String

structure S3ObjectPublication where
  headers : Headers
  contentLength : Nat

def sourceIdentityHeader : String := "x-amz-meta-aux-source"

/-- `HeaderValue::from_str` of the crate `http`: which texts it takes is its own affair, and a text that
it takes is the value. -/
structure HeaderParser where
  fromStr : String → Option HeaderValue
  fromStr_eq_some : ∀ {value v}, fromStr value = some v → v = .text value

def S3ObjectPublication.tryFrom (parser : HeaderParser) (input : S3ObjectInput) :
    Except S3PublicationError S3ObjectPublication :=
  if input.url.scheme ∉ ["http", "https"] || !input.url.username.isEmpty ||
      input.url.password.isSome || input.url.fragment.isSome || input.sourceIdentity.isEmpty then
    .error .invalidObject
  else match parser.fromStr input.sourceIdentity, parser.fromStr input.contentType,
      input.contentEncoding.map parser.fromStr with
    | some identity, some contentType, encoding =>
      let headers : Headers := LinkedMap.empty.insert sourceIdentityHeader identity
        |>.insert "content-type" contentType
        |>.insert "content-length" (.number input.contentLength)
        |>.insert "if-none-match" (.text "*")
      match encoding with
      | none => .ok ⟨headers, input.contentLength⟩
      | some none => .error .invalidObject
      | some (some encoding) =>
        .ok ⟨headers.insert "content-encoding" encoding, input.contentLength⟩
    | _, _, _ => .error .invalidObject

/-- The headers that make a publication create its object once. -/
structure Describes (headers : Headers) (input : S3ObjectInput) : Prop where
  identity : headers.get? sourceIdentityHeader = some (.text input.sourceIdentity)
  length : headers.get? "content-length" = some (.number input.contentLength)
  absent : headers.get? "if-none-match" = some (.text "*")

/-- Other headers may be added. -/
theorem Describes.insert {headers : Headers} {input : S3ObjectInput} (h : Describes headers input)
    {name : String} (value : HeaderValue)
    (hname : name ∉ [sourceIdentityHeader, "content-length", "if-none-match"]) :
    Describes (headers.insert name value) input := by
  simp only [List.mem_cons, List.not_mem_nil, or_false, not_or] at hname
  obtain ⟨hidentity, hlength, habsent⟩ := hname
  refine ⟨?_, ?_, ?_⟩
  · rw [get?_insert, if_neg (Ne.symm hidentity), h.identity]
  · rw [get?_insert, if_neg (Ne.symm hlength), h.length]
  · rw [get?_insert, if_neg (Ne.symm habsent), h.absent]

theorem S3ObjectPublication.tryFrom_ok {parser : HeaderParser} {input : S3ObjectInput}
    {object : S3ObjectPublication} (h : tryFrom parser input = .ok object) :
    Describes object.headers input ∧ object.contentLength = input.contentLength := by
  unfold tryFrom at h
  split at h
  · cases h
  split at h
  · rename_i identity contentType hidentity _
    obtain rfl := parser.fromStr_eq_some hidentity
    have hdescribes : Describes (((empty.insert sourceIdentityHeader
        (.text input.sourceIdentity)).insert "content-type" contentType).insert "content-length"
        (.number input.contentLength) |>.insert "if-none-match" (.text "*")) input := by
      refine ⟨?_, ?_, ?_⟩ <;> simp [get?_insert, sourceIdentityHeader]
    split at h
    · cases h
      exact ⟨hdescribes, rfl⟩
    · cases h
    · cases h
      exact ⟨hdescribes.insert _ (by decide), rfl⟩
  · cases h

/-! ## Requests and the store -/

inductive Method where
  | head
  | put
  deriving DecidableEq

structure Request (β : Type) where
  method : Method
  headers : Headers
  body : Option β

structure Response where
  status : Nat
  headers : Headers

def Response.isSuccess (r : Response) : Bool := 200 ≤ r.status && r.status < 300

/-- What a signature adds to the headers (`sign_headers`). -/
structure Signature where
  host : HeaderValue
  date : HeaderValue
  payloadHash : HeaderValue
  securityToken : Option HeaderValue
  authorization : HeaderValue

def signHeaders (signature : Signature) (headers : Headers) : Headers :=
  let headers := if headers.contains "host" then headers else headers.insert "host" signature.host
  let headers := headers.insert "x-amz-date" signature.date
    |>.insert "x-amz-content-sha256" signature.payloadHash
  let headers := match signature.securityToken with
    | some token => headers.insert "x-amz-security-token" token
    | none => headers
  headers.insert "authorization" signature.authorization

theorem Describes.sign {headers : Headers} {input : S3ObjectInput} (h : Describes headers input)
    (signature : Signature) : Describes (signHeaders signature headers) input := by
  have hhost : Describes (if headers.contains "host" then headers
      else headers.insert "host" signature.host) input := by
    split
    · exact h
    · exact h.insert _ (by decide)
  have hdate := (hhost.insert signature.date (show "x-amz-date" ∉ _ by decide)).insert
    signature.payloadHash (show "x-amz-content-sha256" ∉ _ by decide)
  unfold signHeaders
  cases signature.securityToken with
  | none => exact hdate.insert _ (by decide)
  | some token => exact (hdate.insert token (by decide)).insert _ (by decide)

structure StoredObject (β : Type) where
  identity : Option HeaderValue
  length : Option HeaderValue
  body : Option β

/-- What the store does with a request. -/
inductive Service where
  | serve
  /-- applied, but answered with a failure -/
  | serveAndFail (status : Nat)
  | refuse (status : Nat)

namespace Store

variable {β : Type}

def object (r : Request β) : StoredObject β :=
  ⟨r.headers.get? sourceIdentityHeader, r.headers.get? "content-length", r.body⟩

/-- A PUT creates an object, or replaces it when it does not ask for its absence. -/
def put (store : Option (StoredObject β)) (r : Request β) : Option (StoredObject β) × Response :=
  if store.isSome ∧ r.headers.get? "if-none-match" = some (.text "*") then (store, ⟨412, .empty⟩)
  else (some (object r), ⟨200, .empty⟩)

def head (store : Option (StoredObject β)) : Response :=
  match store with
  | none => ⟨404, .empty⟩
  | some o =>
    let headers : Headers := o.length.elim .empty (LinkedMap.empty.insert "content-length")
    ⟨200, o.identity.elim headers (headers.insert sourceIdentityHeader)⟩

def failure (status : Nat) : Response :=
  if 200 ≤ status ∧ status < 300 then ⟨500, .empty⟩ else ⟨status, .empty⟩

def serve (store : Option (StoredObject β)) (r : Request β) :
    Service → Option (StoredObject β) × Response
  | .serve =>
    match r.method with
    | .put => put store r
    | .head => (store, head store)
  | .serveAndFail status =>
    match r.method with
    | .put => ((put store r).1, failure status)
    | .head => (store, failure status)
  | .refuse status => (store, failure status)

end Store

/-! ## A publisher -/

/-- The request of `publish` that is being made: HEAD, PUT, HEAD. -/
inductive Stage where
  | reconciling
  | putting
  | rechecking
  deriving DecidableEq

/-- A call of `publish`, with an object that `try_from` has built. -/
structure Publication (β : Type) where
  parser : HeaderParser
  input : S3ObjectInput
  object : S3ObjectPublication
  built : S3ObjectPublication.tryFrom parser input = .ok object
  body : β
  /-- A body that is a stream cannot be sent twice. -/
  cloneable : Bool
  retries : Nat

inductive Publisher (β : Type) where
  | idle
  /-- the request has to be built and signed -/
  | building (call : Publication β) (stage : Stage)
  | sending (call : Publication β) (stage : Stage) (request : Request β) (attempt : Nat)
  | waiting (call : Publication β) (stage : Stage) (request : Request β) (attempt id : Nat)
  | returned (call : Publication β) (result : Except S3PublicationError Unit)

namespace Publication

variable {β : Type} (call : Publication β)

def request : Stage → Request β
  | .reconciling | .rechecking => ⟨.head, .empty, none⟩
  | .putting => ⟨.put, call.object.headers, some call.body⟩

/-- `RequestAttempts::new`: HEAD and PUT are idempotent. -/
def maxRetries : Stage → Nat
  | .reconciling | .rechecking => call.retries
  | .putting => if call.cloneable then call.retries else 0

/-- The response of `has_matching_object`. -/
def matching (r : Response) : Except S3PublicationError Bool :=
  if r.status = 404 then .ok false
  else if !r.isSuccess then .error .requestFailed
  else if r.headers.get? "content-length" ≠ some (.number call.object.contentLength) ||
      r.headers.get? sourceIdentityHeader ≠ call.object.headers.get? sourceIdentityHeader then
    .error .identityMismatch
  else .ok true

/-- What `publish` does with the result of its request. -/
def next : Stage → Option Response → Publisher β
  | _, none => .returned call (.error .requestFailed)
  | .reconciling, some r =>
    match call.matching r with
    | .ok true => .returned call (.ok ())
    | .ok false => .building call .putting
    | .error error => .returned call (.error error)
  | .putting, some r =>
    if r.isSuccess then .returned call (.ok ())
    else if r.status = 412 ∨ r.status = 409 then .building call .rechecking
    else .returned call (.error .requestFailed)
  | .rechecking, some r =>
    match call.matching r with
    | .ok true => .returned call (.ok ())
    | .ok false => .returned call (.error .conflict)
    | .error error => .returned call (.error error)

end Publication

/-- `should_retry_status`. -/
def shouldRetryStatus (status : Nat) : Bool :=
  status ∈ [429, 408, 423, 425, 500, 502, 503, 504]

/-- How an attempt fails without a response. -/
inductive HttpRequestErrorKind where
  | timeout
  | connect
  | request
  | other
  deriving DecidableEq

def shouldRetryError : HttpRequestErrorKind → Bool
  | .timeout | .connect | .request => true
  | .other => false

/-! ## The system -/

/-- A request that has been sent, and its response once the store has served it. -/
structure Attempt (β : Type) where
  request : Request β
  response : Option Response

structure World (π β : Type) where
  store : Option (StoredObject β)
  attempts : List (Attempt β)
  publisher : π → Publisher β

inductive Turn (π β : Type) where
  | publish (publisher : π) (call : Publication β)
  | sign (publisher : π) (signature : Except S3PublicationError Signature)
  | send (publisher : π)
  | serve (id : Nat) (service : Service)
  | receive (publisher : π)
  | fail (publisher : π) (error : HttpRequestErrorKind)

namespace World

variable {π β : Type}

def new : World π β where
  store := none
  attempts := []
  publisher _ := .idle

variable [DecidableEq π] (w : World π β)

def goto (p : π) (s : Publisher β) : World π β :=
  { w with publisher := Function.update w.publisher p s }

/-- `RequestAttempts::finish`: another attempt, or the result. -/
def finish (p : π) (call : Publication β) (stage : Stage) (request : Request β) (attempt : Nat)
    (retryable : Bool) (result : Option Response) : World π β :=
  if attempt < call.maxRetries stage && retryable then
    w.goto p (.sending call stage request (attempt + 1))
  else w.goto p (call.next stage result)

def serveAttempt (id : Nat) (a : Attempt β) (service : Service) : World π β :=
  let r := Store.serve w.store a.request service
  { w with store := r.1, attempts := w.attempts.set id { a with response := some r.2 } }

def step : Turn π β → Option (World π β)
  | .publish p call =>
    match w.publisher p with
    | .idle | .returned _ _ => some (w.goto p (.building call .reconciling))
    | _ => none
  | .sign p signature =>
    match w.publisher p, signature with
    | .building call _, .error error => some (w.goto p (.returned call (.error error)))
    | .building call stage, .ok signature =>
      let request := call.request stage
      some (w.goto p (.sending call stage
        { request with headers := signHeaders signature request.headers } 0))
    | _, _ => none
  | .send p =>
    match w.publisher p with
    | .sending call stage request attempt =>
      some ({ w with attempts := w.attempts ++ [(⟨request, none⟩ : Attempt β)] }.goto p
        (.waiting call stage request attempt w.attempts.length))
    | _ => none
  | .serve id service =>
    match w.attempts[id]? with
    | some ⟨request, none⟩ => some (w.serveAttempt id ⟨request, none⟩ service)
    | _ => none
  | .receive p =>
    match w.publisher p with
    | .waiting call stage request attempt id =>
      ((w.attempts[id]?).bind (·.response)).map fun r =>
        w.finish p call stage request attempt (shouldRetryStatus r.status) (some r)
    | _ => none
  | .fail p error =>
    match w.publisher p with
    | .waiting call stage request attempt _ =>
      some (w.finish p call stage request attempt (shouldRetryError error) none)
    | _ => none

abbrev Runs : World π β → World π β → Prop :=
  Run (fun w a w' => w.step a = some w') (fun _ _ => True)

end World

/-! ## The invariant -/

/-- The object has the identity and the length of an input. -/
def StoredObject.Of {β : Type} (o : StoredObject β) (input : S3ObjectInput) : Prop :=
  o.identity = some (.text input.sourceIdentity) ∧ o.length = some (.number input.contentLength)

/-- The request was made for the call. -/
def Request.MadeFor {β : Type} (r : Request β) (call : Publication β) : Stage → Prop
  | .reconciling | .rechecking => r.method = .head
  | .putting => r.method = .put ∧ Describes r.headers call.input

/-- A success says what is stored. -/
structure Attempt.Ok {β : Type} (a : Attempt β) (store : Option (StoredObject β)) : Prop where
  conditional : a.request.method = .put →
    a.request.headers.get? "if-none-match" = some (.text "*")
  created : ∀ r, a.response = some r → r.isSuccess = true → a.request.method = .put →
    store.isSome = true ∧ ∀ o ∈ store, o.identity = a.request.headers.get? sourceIdentityHeader ∧
      o.length = a.request.headers.get? "content-length"
  reported : ∀ r, a.response = some r → r.isSuccess = true → a.request.method = .head →
    store.isSome = true ∧ ∀ o ∈ store, o.identity = r.headers.get? sourceIdentityHeader ∧
      o.length = r.headers.get? "content-length"

namespace World

variable {π β : Type}

def PublisherOk (w : World π β) : Publisher β → Prop
  | .idle | .building _ _ | .returned _ (.error _) => True
  | .sending call stage request _ => request.MadeFor call stage
  | .waiting call stage request _ id => request.MadeFor call stage ∧
    ∃ a, w.attempts[id]? = some a ∧ a.request = request
  | .returned call (.ok ()) => ∃ o, w.store = some o ∧ o.Of call.input

structure Inv (w : World π β) : Prop where
  attempts : ∀ a ∈ w.attempts, a.Ok w.store
  publishers : ∀ p, w.PublisherOk (w.publisher p)

variable {w w' : World π β}

theorem inv_new : (new : World π β).Inv where
  attempts _ h := by cases h
  publishers _ := trivial

/-- What is stored stays, and what was sent stays sent. -/
structure Grows (w w' : World π β) : Prop where
  store : ∀ o, w.store = some o → w'.store = some o
  attempts : ∀ (id : Nat) (a : Attempt β), w.attempts[id]? = some a →
    ∃ a' : Attempt β, w'.attempts[id]? = some a' ∧ a'.request = a.request

theorem PublisherOk.grows {s : Publisher β} (h : w.PublisherOk s) (hg : w.Grows w') :
    w'.PublisherOk s := by
  match s with
  | .idle | .building _ _ | .returned _ (.error _) => trivial
  | .sending _ _ _ _ => exact h
  | .waiting _ _ _ _ id =>
    obtain ⟨hmade, a, ha, hr⟩ := h
    obtain ⟨a', ha', hr'⟩ := hg.attempts id a ha
    exact ⟨hmade, a', ha', hr'.trans hr⟩
  | .returned _ (.ok ()) =>
    obtain ⟨o, ho, hof⟩ := h
    exact ⟨o, hg.store o ho, hof⟩

variable {call : Publication β} {stage : Stage} {request : Request β}
  {store : Option (StoredObject β)} {a : Attempt β} {r : Response}

/-- A response that matches says that the stored object is the one of the call. -/
theorem of_matching
    (ha : a.Ok store) (hr : a.response = some r) (hmethod : a.request.method = .head)
    (hm : call.matching r = .ok true) : ∃ o, store = some o ∧ o.Of call.input := by
  obtain ⟨hdescribes, hlength⟩ := S3ObjectPublication.tryFrom_ok call.built
  unfold Publication.matching at hm
  split at hm
  · cases hm
  split at hm
  · cases hm
  rename_i hsuccess
  split at hm
  · cases hm
  rename_i hsame
  simp only [Bool.or_eq_true, decide_eq_true_eq, not_or, ne_eq, not_not] at hsame
  have hsuccess : r.isSuccess = true := by simpa using hsuccess
  obtain ⟨hsome, hstored⟩ := ha.reported r hr hsuccess hmethod
  obtain ⟨o, rfl⟩ := isSome_iff_exists.mp hsome
  obtain ⟨hidentity, hlen⟩ := hstored o rfl
  refine ⟨o, rfl, ?_, ?_⟩
  · rw [hidentity, hsame.2, hdescribes.identity]
  · rw [hlen, hsame.1, hlength]

/-- The next state of a publisher, after the response of its request. -/
theorem publisherOk_next
    (hmade : request.MadeFor call stage) (ha : a.Ok w.store) (hreq : a.request = request)
    (hr : a.response = some r) : w.PublisherOk (call.next stage (some r)) := by
  subst hreq
  cases stage with
  | reconciling =>
    dsimp only [Publication.next]
    split
    · rename_i hm
      exact of_matching ha hr hmade hm
    · trivial
    · trivial
  | rechecking =>
    dsimp only [Publication.next]
    split
    · rename_i hm
      exact of_matching ha hr hmade hm
    · trivial
    · trivial
  | putting =>
    dsimp only [Publication.next]
    split
    · rename_i hsuccess
      obtain ⟨hmethod, hdescribes⟩ := hmade
      obtain ⟨hsome, hstored⟩ := ha.created r hr hsuccess hmethod
      obtain ⟨o, ho⟩ := isSome_iff_exists.mp hsome
      obtain ⟨hidentity, hlen⟩ := hstored o ho
      exact ⟨o, ho, hidentity.trans hdescribes.identity, hlen.trans hdescribes.length⟩
    · split <;> trivial

theorem isSuccess_failure (status : Nat) : (Store.failure status).isSuccess = false := by
  unfold Store.failure Response.isSuccess
  split <;> simp_all

theorem head_reports (o : StoredObject β) :
    o.identity = (Store.head (some o)).headers.get? sourceIdentityHeader ∧
      o.length = (Store.head (some o)).headers.get? "content-length" := by
  obtain ⟨identity, length, body⟩ := o
  cases identity <;> cases length <;> simp [Store.head, get?_insert, sourceIdentityHeader]

/-- A PUT that asks for the absence of the object creates it only where there is none. -/
theorem put_cases (store : Option (StoredObject β)) {r : Request β}
    (hr : r.headers.get? "if-none-match" = some (.text "*")) :
    (∃ o, store = some o ∧ Store.put store r = (some o, ⟨412, .empty⟩)) ∨
      store = none ∧ Store.put store r = (some (Store.object r), ⟨200, .empty⟩) := by
  cases store with
  | some o => exact .inl ⟨o, rfl, if_pos ⟨rfl, hr⟩⟩
  | none => exact .inr ⟨rfl, if_neg fun h => by cases h.1⟩

/-- An attempt whose response is a failure says nothing of the store. -/
theorem ok_of_failure {store store' : Option (StoredObject β)}
    (ha : (⟨request, none⟩ : Attempt β).Ok store) (hr : r.isSuccess = false) :
    (⟨request, some r⟩ : Attempt β).Ok store' where
  conditional := ha.conditional
  created r' h hsuccess := by
    cases h
    rw [hr] at hsuccess
    cases hsuccess
  reported r' h hsuccess := by
    cases h
    rw [hr] at hsuccess
    cases hsuccess

theorem put_keeps
    (hr : request.headers.get? "if-none-match" = some (.text "*")) (o : StoredObject β)
    (ho : store = some o) : (Store.put store request).1 = some o := by
  obtain ⟨o', ho', heq⟩ | ⟨hnone, -⟩ := put_cases _ hr
  · rw [heq, ← ho', ho]
  · rw [ho] at hnone
    cases hnone

/-- A served request keeps what is stored, and a success says what that is. -/
theorem ok_serve (ha : (⟨request, none⟩ : Attempt β).Ok store) (service : Service) :
    (∀ o, store = some o → (Store.serve store request service).1 = some o) ∧
    (⟨request, some (Store.serve store request service).2⟩ : Attempt β).Ok
      (Store.serve store request service).1 := by
  obtain ⟨method, headers, body⟩ := request
  cases service with
  | refuse status => exact ⟨fun _ h => h, ok_of_failure ha (isSuccess_failure status)⟩
  | serveAndFail status =>
    refine ⟨?_, ok_of_failure ha ?_⟩
    · cases method with
      | head => exact fun _ h => h
      | put => exact put_keeps (ha.conditional rfl)
    · cases method <;> exact isSuccess_failure status
  | serve =>
    cases method with
    | head =>
      refine ⟨fun _ h => h, ⟨nofun, nofun, fun r hr hsuccess _ => ?_⟩⟩
      cases hr
      cases store with
      | none => cases hsuccess
      | some o =>
        refine ⟨rfl, fun o' ho' => ?_⟩
        cases ho'
        exact head_reports o
    | put =>
      refine ⟨put_keeps (ha.conditional rfl), ?_⟩
      obtain ⟨o, -, heq⟩ | ⟨-, heq⟩ := put_cases store (ha.conditional rfl)
      · dsimp only [Store.serve]
        rw [heq]
        exact ok_of_failure ha rfl
      · dsimp only [Store.serve]
        rw [heq]
        refine ⟨ha.conditional, fun r _ _ _ => ⟨rfl, fun o ho => ?_⟩, nofun⟩
        cases ho
        exact ⟨rfl, rfl⟩

theorem Attempt.Ok.grows (h : a.Ok w.store) (hg : w.Grows w') : a.Ok w'.store := by
  have hkeep : ∀ P : StoredObject β → Prop, w.store.isSome = true ∧ (∀ o ∈ w.store, P o) →
      w'.store.isSome = true ∧ ∀ o ∈ w'.store, P o := by
    rintro P ⟨hsome, hall⟩
    obtain ⟨o, ho⟩ := isSome_iff_exists.mp hsome
    rw [hg.store o ho]
    refine ⟨rfl, fun o' ho' => ?_⟩
    cases ho'
    exact hall o ho
  exact ⟨h.conditional, fun r hr hs hm => hkeep _ (h.created r hr hs hm),
    fun r hr hs hm => hkeep _ (h.reported r hr hs hm)⟩

theorem Inv.serve (hi : w.Inv) {id : Nat}
    (ha : w.attempts[id]? = some ⟨request, none⟩) (service : Service) :
    (w.serveAttempt id ⟨request, none⟩ service).Inv ∧
      w.Grows (w.serveAttempt id ⟨request, none⟩ service) := by
  have hlt : id < w.attempts.length := (List.getElem?_eq_some_iff.mp ha).1
  obtain ⟨hstore, hok⟩ := ok_serve (hi.attempts _ (List.mem_of_getElem? ha)) service
  have hg : w.Grows (w.serveAttempt id ⟨request, none⟩ service) := by
    refine ⟨hstore, fun id' a' ha' => ?_⟩
    dsimp only [serveAttempt]
    rw [List.getElem?_set]
    by_cases hid : id = id'
    · subst hid
      rw [if_pos rfl, if_pos hlt]
      obtain rfl := some.inj (ha.symm.trans ha')
      exact ⟨_, rfl, rfl⟩
    · rw [if_neg hid]
      exact ⟨a', ha', rfl⟩
  refine ⟨⟨fun a' ha' => ?_, fun p => (hi.publishers p).grows hg⟩, hg⟩
  obtain ha' | rfl := List.mem_or_eq_of_mem_set ha'
  · exact Attempt.Ok.grows (hi.attempts a' ha') hg
  · exact hok

variable [DecidableEq π] {p : π}

theorem Inv.goto (hi : w.Inv) {s : Publisher β} (hs : w.PublisherOk s) : (w.goto p s).Inv where
  attempts := hi.attempts
  publishers q := by
    by_cases hq : q = p
    · subst hq
      rw [show (w.goto q s).publisher q = s from Function.update_self ..]
      exact hs.grows ⟨fun _ h => h, fun _ a h => ⟨a, h, rfl⟩⟩
    · rw [show (w.goto p s).publisher q = w.publisher q from Function.update_of_ne hq ..]
      exact (hi.publishers q).grows ⟨fun _ h => h, fun _ a h => ⟨a, h, rfl⟩⟩

theorem Inv.send (hi : w.Inv) {attempt : Nat} (hmade : request.MadeFor call stage) :
    ({ w with attempts := w.attempts ++ [(⟨request, none⟩ : Attempt β)] }.goto p
      (.waiting call stage request attempt w.attempts.length)).Inv ∧
    w.Grows ({ w with attempts := w.attempts ++ [(⟨request, none⟩ : Attempt β)] }.goto p
      (.waiting call stage request attempt w.attempts.length)) := by
  let w₁ : World π β := { w with attempts := w.attempts ++ [(⟨request, none⟩ : Attempt β)] }
  have hg : w.Grows w₁ := by
    refine ⟨fun _ h => h, fun id a ha => ⟨a, ?_, rfl⟩⟩
    rw [List.getElem?_append_left (List.getElem?_eq_some_iff.mp ha).1]
    exact ha
  have hi₁ : w₁.Inv := by
    refine ⟨fun a ha => ?_, fun q => (hi.publishers q).grows hg⟩
    obtain ha | ha := List.mem_append.mp ha
    · exact hi.attempts a ha
    · obtain rfl := List.mem_singleton.mp ha
      refine ⟨fun hput => ?_, nofun, nofun⟩
      cases stage with
      | reconciling | rechecking => rw [show request.method = .head from hmade] at hput; cases hput
      | putting => exact hmade.2.absent
  have hlast : w₁.attempts[w.attempts.length]? = some ⟨request, none⟩ := List.getElem?_concat_length
  exact ⟨hi₁.goto ⟨hmade, _, hlast, rfl⟩, hg.store, hg.attempts⟩

theorem grows_goto (s : Publisher β) : w.Grows (w.goto p s) :=
  ⟨fun _ h => h, fun _ a h => ⟨a, h, rfl⟩⟩

theorem Inv.finish (hi : w.Inv) {attempt : Nat} {retryable : Bool}
    {result : Option Response} (hmade : request.MadeFor call stage)
    (hnext : w.PublisherOk (call.next stage result)) :
    (w.finish p call stage request attempt retryable result).Inv ∧
      w.Grows (w.finish p call stage request attempt retryable result) := by
  unfold World.finish
  split
  · exact ⟨hi.goto hmade, grows_goto _⟩
  · exact ⟨hi.goto hnext, grows_goto _⟩

omit [DecidableEq π] in
theorem madeFor_request (call : Publication β) (stage : Stage) (signature : Signature) :
    Request.MadeFor { call.request stage with
      headers := signHeaders signature (call.request stage).headers } call stage := by
  cases stage with
  | reconciling | rechecking => rfl
  | putting => exact ⟨rfl, (S3ObjectPublication.tryFrom_ok call.built).1.sign signature⟩

theorem Inv.step (hi : w.Inv) {a : Turn π β} (h : w.step a = some w') : w'.Inv ∧ w.Grows w' := by
  cases a with
  | publish p call =>
    dsimp only [World.step] at h
    split at h
    · cases h
      exact ⟨hi.goto trivial, grows_goto _⟩
    · cases h
      exact ⟨hi.goto trivial, grows_goto _⟩
    · cases h
  | sign p signature =>
    dsimp only [World.step] at h
    split at h
    · cases h
      exact ⟨hi.goto trivial, grows_goto _⟩
    · cases h
      exact ⟨hi.goto (madeFor_request ..), grows_goto _⟩
    · cases h
  | send p =>
    dsimp only [World.step] at h
    split at h
    · rename_i call stage request attempt hp
      cases h
      have hmade := hi.publishers p
      rw [hp] at hmade
      exact hi.send hmade
    · cases h
  | serve id service =>
    dsimp only [World.step] at h
    split at h
    · rename_i request ha
      cases h
      exact hi.serve ha service
    · cases h
  | receive p =>
    dsimp only [World.step] at h
    split at h
    · rename_i call stage request attempt id hp
      have hwaiting := hi.publishers p
      rw [hp] at hwaiting
      obtain ⟨hmade, a, ha, hreq⟩ := hwaiting
      obtain ⟨r, hr, rfl⟩ := map_eq_some_iff.mp h
      rw [ha, bind_some] at hr
      exact hi.finish hmade
        (publisherOk_next hmade (hi.attempts a (List.mem_of_getElem? ha)) hreq hr)
    · cases h
  | fail p error =>
    dsimp only [World.step] at h
    split at h
    · rename_i call stage request attempt id hp
      have hwaiting := hi.publishers p
      rw [hp] at hwaiting
      cases h
      refine hi.finish hwaiting.1 ?_
      cases stage <;> trivial
    · cases h

theorem Inv.runs (hi : w.Inv) (h : Runs w w') :
    w'.Inv ∧ ∀ o, w.store = some o → w'.store = some o :=
  h.relate (fun _ _ ho => ho) (fun _ _ _ h h' o ho => h' o (h o ho))
    (fun _ _ _ hi _ hstep => ⟨(hi.step hstep).1, (hi.step hstep).2.store⟩) hi

end World

open S3Publication.World

/-- The first object stays, and a publisher that returned `Ok` has the identity and the length of
the stored object. -/
theorem created_once {π β : Type} [DecidableEq π] {w w' : World π β} (h : Runs .new w)
    (h' : Runs w w') :
    (∀ o, w.store = some o → w'.store = some o) ∧
    ∀ p call, w'.publisher p = .returned call (.ok ()) →
      ∃ o, w'.store = some o ∧ o.identity = some (.text call.input.sourceIdentity) ∧
        o.length = some (.number call.input.contentLength) := by
  obtain ⟨hi, -⟩ := Inv.runs inv_new h
  obtain ⟨hi', hkeeps⟩ := hi.runs h'
  refine ⟨hkeeps, fun p call hp => ?_⟩
  have hok := hi'.publishers p
  rw [hp] at hok
  exact hok

namespace Trial

def input : S3ObjectInput where
  url := ⟨"https", "", none, none⟩
  sourceIdentity := "sealed-source-1"
  contentLength := 3
  contentType := "application/json"
  contentEncoding := some "gzip"

def object : S3ObjectPublication where
  headers := LinkedMap.empty.insert sourceIdentityHeader (.text "sealed-source-1")
    |>.insert "content-type" (.text "application/json")
    |>.insert "content-length" (.number 3)
    |>.insert "if-none-match" (.text "*")
    |>.insert "content-encoding" (.text "gzip")
  contentLength := 3

def call : Publication String where
  parser := ⟨fun value => some (.text value), fun h => (Option.some.inj h).symm⟩
  input := input
  object := object
  built := by rfl
  body := "abc"
  cloneable := true
  retries := 1

def sign : Turn (Fin 2) String :=
  .sign 0 (.ok ⟨.text "host", .text "date", .text "UNSIGNED-PAYLOAD", none, .text "signature"⟩)

/-- The response of the first PUT is lost; the second one finds the object. -/
def turns : List (Turn (Fin 2) String) :=
  [.publish 0 call, sign, .send 0, .serve 0 .serve, .receive 0,
    sign, .send 0, .serve 1 .serve, .fail 0 .timeout, .send 0, .serve 2 .serve, .receive 0,
    sign, .send 0, .serve 3 .serve, .receive 0]

def accepted : Publisher String → Bool
  | .returned call (.ok ()) => call.input.sourceIdentity = "sealed-source-1"
  | _ => false

end Trial

theorem created_once_lost_response :
    ∃ (w : World (Fin 2) String) (call : Publication String) (o : StoredObject String),
      Runs .new w ∧ w.publisher 0 = .returned call (.ok ()) ∧ w.store = some o ∧
      o.identity = some (.text "sealed-source-1") := by
  have hrun : (Run.script World.step (fun _ _ => True) .new Trial.turns).any
      (fun w => Trial.accepted (w.publisher 0)) = true := by decide +kernel
  obtain ⟨w, hruns, haccepted⟩ := Run.ofScript hrun
  unfold Trial.accepted at haccepted
  split at haccepted
  · rename_i call hp
    obtain ⟨o, ho, hidentity, -⟩ := (created_once .refl hruns).2 0 call hp
    exact ⟨w, call, o, hruns, hp, ho, by rw [hidentity, of_decide_eq_true haccepted]⟩
  · cases haccepted

end AuxCommon.S3Publication
