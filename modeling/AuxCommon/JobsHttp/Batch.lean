import AuxCommon.JobsHttp.Classifier

/-!
# Results of a batch

`batch.rs`: the responses of a batch are joined to its items. Per item the state is nothing, a
classification, or the retry that a second response turns it into (`joinResponse`), so that it depends
only on the item's own responses (`ownClassification`). `fromResponse_perItem` is the whole result.
-/

namespace AuxCommon.JobsHttp

open List Function

structure BatchItemContext where
  executionId : ExecutionId
  attemptId : AttemptId
  request : HttpRequest

structure BatchItemResponse where
  attemptId : AttemptId
  status : Nat
  headers : HeaderMap

inductive BatchResponse
  | perItem (responses : List BatchItemResponse)
  | batchWide (status : Nat) (headers : HeaderMap)

structure BatchItemOutcome where
  attemptId : AttemptId
  outcome : JobOutcome
  deriving DecidableEq

structure BatchClassificationLimits where
  retryAfterMax : Duration
  retryAfterFallback : Duration

section Classify

variable (reader : HeaderReader) (limits : BatchClassificationLimits) (now : SystemTime)

/-- The results so far, by attempt. -/
abbrev Results := AttemptId → Option (Option HttpClassification)

/-- `classify_status` with the limits of a batch. -/
def classifyItem (response : BatchItemResponse) : HttpClassification :=
  classifyStatus reader response.status response.headers limits.retryAfterMax
    limits.retryAfterFallback now

/-- What a response makes of an item's result. -/
def joinResponse (result : Option HttpClassification) (response : BatchItemResponse) :
    Option HttpClassification :=
  some (match result with
    | some _ => .retryInvariant
    | none => classifyItem reader limits now response)

/-- The first loop of `classify_responses`. -/
def insertItem (results : Results) (item : BatchItemContext) : Except HttpJobError Results :=
  if (results item.attemptId).isSome then .error .batchInvariant
  else .ok (Function.update results item.attemptId (some none))

/-- The second one. -/
def insertResponse (results : Results) (response : BatchItemResponse) : Except HttpJobError Results :=
  match results response.attemptId with
  | none => .error .batchInvariant
  | some result =>
    .ok (Function.update results response.attemptId (some (joinResponse reader limits now result response)))

variable (items : List BatchItemContext)

def classifyResponses (responses : List BatchItemResponse) : Except HttpJobError Results := do
  let results ← items.foldlM insertItem fun _ => none
  responses.foldlM (insertResponse reader limits now) results

def classifyItems (responses : List BatchItemResponse) :
    Except HttpJobError (List (AttemptId × HttpClassification)) := do
  let results ← classifyResponses reader limits now items responses
  return items.map fun item =>
    (item.attemptId, ((results item.attemptId).join).getD .retryInvariant)

def classifyBatchResponse :
    BatchResponse → Except HttpJobError (List (AttemptId × HttpClassification))
  | .perItem responses => classifyItems reader limits now items responses
  | .batchWide status headers => .ok (items.map fun item =>
      (item.attemptId, classifyStatus reader status headers limits.retryAfterMax
        limits.retryAfterFallback now))

def intoOutcomes (classifications : List (AttemptId × HttpClassification)) (outcomeNow : Timestamp) :
    Except HttpJobError (List BatchItemOutcome) :=
  classifications.mapM fun (attemptId, classification) =>
    ((classification.toJobOutcome outcomeNow).map (BatchItemOutcome.mk attemptId)).mapError .validation

/-- `BatchResultSet::from_response`. -/
def fromResponse (response : BatchResponse) (outcomeNow : Timestamp) :
    Except HttpJobError (List BatchItemOutcome) := do
  let classifications ← classifyBatchResponse reader limits now items response
  intoOutcomes classifications outcomeNow

end Classify

/-! ## Joining -/

section Join

variable {reader : HeaderReader} {limits : BatchClassificationLimits} {now : SystemTime}
  {items : List BatchItemContext} {responses : List BatchItemResponse} {results : Results}

/-- The items of a batch have results of their own. -/
theorem foldlM_insertItem (hfresh : ∀ item ∈ items, results item.attemptId = none)
    (hnodup : (items.map BatchItemContext.attemptId).Nodup) :
    items.foldlM insertItem results = .ok fun id =>
      if id ∈ items.map BatchItemContext.attemptId then some none else results id := by
  induction items generalizing results with
  | nil => simp [pure, Except.pure]
  | cons item items ih =>
    have hnone : results item.attemptId = none := hfresh item mem_cons_self
    rw [map_cons, nodup_cons] at hnodup
    have hstep : insertItem results item = .ok (update results item.attemptId (some none)) := by
      simp [insertItem, hnone]
    rw [foldlM_cons, hstep]
    refine (ih ?_ hnodup.2).trans ?_
    · intro other hother
      have hne : other.attemptId ≠ item.attemptId := fun heq =>
        hnodup.1 (heq ▸ mem_map_of_mem hother)
      rw [update_of_ne hne]
      exact hfresh other (mem_cons_of_mem _ hother)
    · congr 1
      funext id
      by_cases hid : id = item.attemptId
      · subst hid
        simp [hnodup.1]
      · simp [hid]

/-- Two items of one attempt fail the batch. -/
theorem foldlM_insertItem_error (hdup : ¬ (items.map BatchItemContext.attemptId).Nodup ∨
      ∃ item ∈ items, (results item.attemptId).isSome = true) :
    items.foldlM insertItem results = .error .batchInvariant := by
  induction items generalizing results with
  | nil => simp at hdup
  | cons item items ih =>
    rw [foldlM_cons]
    by_cases hsome : (results item.attemptId).isSome = true
    · rw [insertItem, if_pos hsome]
      rfl
    · rw [insertItem, if_neg hsome]
      refine ih ?_
      have hsame : ∀ other ∈ items, other.attemptId = item.attemptId →
          ∃ other ∈ items, (update results item.attemptId (some none)
            other.attemptId).isSome = true := fun other hother heq => ⟨other, hother, by simp [heq]⟩
      rcases hdup with hdup | ⟨other, hother, hresult⟩
      · rw [map_cons, nodup_cons, not_and_or, not_not] at hdup
        rcases hdup with hmem | hdup
        · obtain ⟨other, hother, heq⟩ := mem_map.mp hmem
          exact .inr (hsame other hother heq)
        · exact .inl hdup
      · rcases mem_cons.mp hother with rfl | hother
        · exact absurd hresult hsome
        · by_cases heq : other.attemptId = item.attemptId
          · exact .inr (hsame other hother heq)
          · exact .inr ⟨other, hother, by rwa [update_of_ne heq]⟩

/-- An item's own responses, joined in their order. -/
def ownClassification (reader : HeaderReader) (limits : BatchClassificationLimits) (now : SystemTime) :
    List BatchItemResponse → HttpClassification
  | [response] => classifyItem reader limits now response
  | _ => .retryInvariant

/-- The responses to one attempt. -/
def responsesTo (responses : List BatchItemResponse) (id : AttemptId) : List BatchItemResponse :=
  responses.filter (·.attemptId = id)

theorem foldlM_insertResponse
    (hknown : ∀ response ∈ responses, (results response.attemptId).isSome = true) :
    responses.foldlM (insertResponse reader limits now) results = .ok fun id =>
      (results id).map fun result =>
        (responsesTo responses id).foldl (joinResponse reader limits now) result := by
  induction responses generalizing results with
  | nil => simp [pure, Except.pure, responsesTo]
  | cons response responses ih =>
    obtain ⟨result, hresult⟩ := Option.isSome_iff_exists.mp (hknown response mem_cons_self)
    rw [foldlM_cons, insertResponse, hresult]
    refine (ih ?_).trans ?_
    · intro other hother
      by_cases heq : other.attemptId = response.attemptId
      · simp [heq]
      · rw [update_of_ne heq]
        exact hknown other (mem_cons_of_mem _ hother)
    · congr 1
      funext id
      by_cases hid : id = response.attemptId
      · subst hid
        simp [responsesTo, hresult]
      · simp [responsesTo, hid, Ne.symm hid]

/-- A response to no item fails the batch. -/
theorem foldlM_insertResponse_error
    (hunknown : ∃ response ∈ responses, results response.attemptId = none) :
    responses.foldlM (insertResponse reader limits now) results = .error .batchInvariant := by
  induction responses generalizing results with
  | nil =>
    obtain ⟨response, hmem, -⟩ := hunknown
    cases hmem
  | cons response responses ih =>
    rw [foldlM_cons, insertResponse]
    cases hresult : results response.attemptId with
    | none => rfl
    | some result =>
      refine ih ?_
      obtain ⟨other, hother, hnone⟩ := hunknown
      rcases mem_cons.mp hother with rfl | hother
      · rw [hresult] at hnone
        cases hnone
      · have hne : other.attemptId ≠ response.attemptId := fun heq => by
          rw [heq, hresult] at hnone
          cases hnone
        exact ⟨other, hother, by rwa [update_of_ne hne]⟩

/-- After a second response, no further one changes the retry. -/
theorem foldl_joinResponse_retryInvariant (own : List BatchItemResponse) :
    own.foldl (joinResponse reader limits now) (some .retryInvariant) = some .retryInvariant := by
  induction own with
  | nil => rfl
  | cons response own ih => exact ih

theorem foldl_joinResponse (own : List BatchItemResponse) :
    (own.foldl (joinResponse reader limits now) none).getD .retryInvariant =
      ownClassification reader limits now own := by
  match own with
  | [] => rfl
  | [_] => rfl
  | first :: second :: rest =>
    have hrest := @foldl_joinResponse_retryInvariant reader limits now rest
    simp only [foldl_cons, joinResponse, hrest, Option.getD_some, ownClassification]

/-- The classification of each item is that of its own responses. -/
theorem classifyItems_eq (hnodup : (items.map BatchItemContext.attemptId).Nodup)
    (hknown : ∀ response ∈ responses, response.attemptId ∈ items.map BatchItemContext.attemptId) :
    classifyItems reader limits now items responses = .ok (items.map fun item =>
      (item.attemptId, ownClassification reader limits now (responsesTo responses item.attemptId))) := by
  rw [classifyItems, classifyResponses, foldlM_insertItem (fun _ _ => rfl) hnodup]
  refine (congrArg (· >>= _) (foldlM_insertResponse fun response hresponse => ?_)).trans ?_
  · rw [if_pos (hknown response hresponse)]
    rfl
  · refine congrArg Except.ok (map_congr_left fun item hitem => ?_)
    dsimp only
    rw [if_pos (mem_map_of_mem hitem), Option.map_some, Option.join_some, foldl_joinResponse]

theorem classifyItems_error (h : ¬ (items.map BatchItemContext.attemptId).Nodup ∨
      ∃ response ∈ responses, response.attemptId ∉ items.map BatchItemContext.attemptId) :
    classifyItems reader limits now items responses = .error .batchInvariant := by
  by_cases hnodup : (items.map BatchItemContext.attemptId).Nodup
  · obtain ⟨response, hresponse, hunknown⟩ := h.resolve_left (not_not.mpr hnodup)
    rw [classifyItems, classifyResponses, foldlM_insertItem (fun _ _ => rfl) hnodup]
    exact congrArg (· >>= _)
      (foldlM_insertResponse_error ⟨response, hresponse, by rw [if_neg hunknown]⟩)
  · rw [classifyItems, classifyResponses, foldlM_insertItem_error (.inl hnodup)]
    rfl

end Join

/-! ## Outcomes -/

/-- The outcome of an item with these responses: that of the only one, or a retry. It is read off them
alone. -/
structure ItemResult (reader : HeaderReader) (limits : BatchClassificationLimits) (now : SystemTime)
    (outcomeNow : Timestamp) (own : List BatchItemResponse) (outcome : JobOutcome) : Prop where
  joined : (ownClassification reader limits now own).toJobOutcome outcomeNow = .ok outcome
  once : ∀ response, own = [response] →
    (classifyItem reader limits now response).toJobOutcome outcomeNow = .ok outcome
  otherwise : own.length ≠ 1 → ∃ cls notBefore code, outcome = .retry cls notBefore code

theorem exists_itemResult (reader : HeaderReader) {limits : BatchClassificationLimits} (now : SystemTime)
    {outcomeNow later : Timestamp} (h : outcomeNow.checkedAdd limits.retryAfterMax = .ok later)
    (own : List BatchItemResponse) :
    ∃ outcome, ItemResult reader limits now outcomeNow own outcome := by
  by_cases hlength : own.length = 1
  · obtain ⟨response, rfl⟩ := length_eq_one_iff.mp hlength
    obtain ⟨outcome, houtcome⟩ := exists_toJobOutcome_classifyStatus reader response.status
      response.headers limits.retryAfterFallback now h
    exact ⟨outcome, houtcome, fun _ heq => by cases heq; exact houtcome, fun hne => absurd hlength hne⟩
  · obtain ⟨code, hcode⟩ := HttpClassification.exists_toJobOutcome_retryInvariant outcomeNow
    have hown : ownClassification reader limits now own = .retryInvariant := by
      match own, hlength with
      | [], _ => rfl
      | _ :: _ :: _, _ => rfl
    exact ⟨_, by rw [hown]; exact hcode, fun _ heq => absurd (by rw [heq]; rfl) hlength,
      fun _ => ⟨_, _, _, rfl⟩⟩

/-- A batch with distinct items and responses only to them gives each item, in order, the outcome of
its own responses; any other one fails. -/
theorem fromResponse_perItem (reader : HeaderReader) (limits : BatchClassificationLimits)
    (now : SystemTime) (items : List BatchItemContext) (responses : List BatchItemResponse)
    (outcomeNow : Timestamp) :
    ((items.map BatchItemContext.attemptId).Nodup →
      (∀ response ∈ responses, response.attemptId ∈ items.map BatchItemContext.attemptId) →
      (∃ later, outcomeNow.checkedAdd limits.retryAfterMax = .ok later) →
      ∃ outcomeOf : AttemptId → JobOutcome,
        fromResponse reader limits now items (.perItem responses) outcomeNow =
          .ok (items.map fun item => ⟨item.attemptId, outcomeOf item.attemptId⟩) ∧
        ∀ item ∈ items, ItemResult reader limits now outcomeNow
          (responsesTo responses item.attemptId) (outcomeOf item.attemptId)) ∧
    (¬ (items.map BatchItemContext.attemptId).Nodup ∨
      (∃ response ∈ responses, response.attemptId ∉ items.map BatchItemContext.attemptId) →
      fromResponse reader limits now items (.perItem responses) outcomeNow =
        .error .batchInvariant) := by
  constructor
  · rintro hnodup hknown ⟨later, hlater⟩
    have hex := fun id => exists_itemResult reader now hlater (responsesTo responses id)
    choose outcomeOf houtcome using hex
    refine ⟨outcomeOf, ?_, fun item _ => houtcome item.attemptId⟩
    rw [fromResponse, classifyBatchResponse, classifyItems_eq hnodup hknown]
    change intoOutcomes _ outcomeNow = _
    rw [intoOutcomes, mapM_map]
    refine Except.mapM_eq_ok_map fun item _ => ?_
    simp only [comp, (houtcome item.attemptId).joined]
    rfl
  · intro h
    rw [fromResponse, classifyBatchResponse, classifyItems_error h]
    rfl

namespace Sample

def item (n : UInt8) : BatchItemContext := ⟨.repeated n, .repeated n, ⟨.post, url "a.test", 11⟩⟩

def response (n : UInt8) (status : Nat) : BatchItemResponse := ⟨.repeated n, status, []⟩

def limits : BatchClassificationLimits := ⟨.fromSecs 900, .fromSecs 1⟩

def epoch : SystemTime := ⟨0, by decide, by decide⟩

/-- Of three items, one is named once, one twice and one not at all. -/
theorem three_items :
    ∃ outcomeOf : AttemptId → JobOutcome,
      fromResponse ⟨fun _ => none, fun _ => none⟩ limits epoch [item 1, item 2, item 3]
          (.perItem [response 2 200, response 1 503, response 2 404]) ⟨0⟩ =
        .ok [⟨.repeated 1, outcomeOf (.repeated 1)⟩, ⟨.repeated 2, outcomeOf (.repeated 2)⟩,
          ⟨.repeated 3, outcomeOf (.repeated 3)⟩] ∧
      (∃ cls notBefore code, outcomeOf (.repeated 2) = .retry cls notBefore code) ∧
      ∃ cls notBefore code, outcomeOf (.repeated 3) = .retry cls notBefore code := by
  have hlater : ((⟨0⟩ : Timestamp).checkedAdd limits.retryAfterMax).isOk = true := by decide +kernel
  obtain ⟨outcomeOf, hresult, hitems⟩ := (fromResponse_perItem ⟨fun _ => none, fun _ => none⟩ limits epoch
    [item 1, item 2, item 3] [response 2 200, response 1 503, response 2 404] ⟨0⟩).1
    (by decide +kernel) (by decide +kernel) (Except.isOk_iff.mp hlater)
  exact ⟨outcomeOf, hresult, (hitems (item 2) (by simp)).otherwise (by decide +kernel),
    (hitems (item 3) (by simp)).otherwise (by decide +kernel)⟩

end Sample

end AuxCommon.JobsHttp
