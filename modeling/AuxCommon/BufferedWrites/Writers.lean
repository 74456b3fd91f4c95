import AuxCommon.BufferedWrites.Capacity
import AuxCommon.BufferedWrites.Conservation
import AuxCommon.Lib.System
import Mathlib.Data.Fintype.Basic

/-!
# Writers of one retention provider

Model of the admission path of an engine: `engine/{capacity,admission,admission_record,
admission_gate,admission_recovery,recovery_configuration}.rs`. A writer looks at a snapshot before
it encodes an item (`available_staging_bytes`), then sends the record to the provider, which
decides on its own count. Between the two the provider may serve any call of any other writer.

The two counts differ. The snapshot's items include the quarantined ones, and so does the check of
`validate_retained_capacity`, which stops flushing and admission alike; `check_append_capacity`
leaves them out. `retained_within_capacity` says that this check accepts in every run in which an
append is admitted only while the snapshot's count is still below the limit, and
`retained_beyond_capacity` is a run of two writers where it does not.

Left out are closing, deadlines, the sleep between two attempts, and the bound on the calls that
wait for the writer's turn: a writer has one admission under way, and may give it up at any point.
An append whose outcome the writer does not learn may be applied at once, later or never.
-/

namespace AuxCommon.BufferedWrites

open Std List Option RetentionState

/-- `WriteError`, the cases that admission raises before and at the append. -/
inductive WriteError
  | full
  | oversizedItem (size limit : Nat)
  | insufficientRecoveryCapacity (retainedItems retainedBytes itemLimit byteLimit : Nat)
  deriving DecidableEq

inductive BackpressurePolicy
  | reject
  | waitUntilDeadline
  deriving DecidableEq

/-- `validate_retained_capacity`. -/
def validateRetainedCapacity (capacity : BufferCapacity) (snapshot : BufferSnapshot) :
    Except WriteError Unit :=
  let retainedItems := snapshot.items
  let retainedBytes := snapshot.bytes - snapshot.reclaimableBytes
  if capacity.itemLimit < retainedItems ∨ capacity.byteLimit < retainedBytes then
    .error (.insufficientRecoveryCapacity retainedItems retainedBytes capacity.itemLimit
      capacity.byteLimit)
  else .ok ()

/-! ## The gate -/

/-- `DispatchState`. -/
structure DispatchState where
  active : Nat
  unknown : Bool
  bytes : Nat
  fingerprint : Digest

/-- The dispatches of `AdmissionGate`. -/
abbrev AdmissionGate := OrdMap OperationId DispatchState

namespace AdmissionGate

variable (g : AdmissionGate)

/-- `pending_capacity`. -/
def pendingCapacity (exclude : Option OperationId) : Nat × Nat :=
  (g.toList.filter fun e => some e.1 ≠ exclude).foldl
    (fun sum e => (satAdd sum.1 1, satAdd sum.2 e.2.bytes)) (0, 0)

variable (id : OperationId)

/-- `confirm`. -/
def confirm (fingerprint : Digest) : AdmissionGate :=
  match g[id]? with
  | none => g
  | some d =>
    if d.fingerprint ≠ fingerprint then g
    else if d.active = 0 then g.erase id
    else g.insert id { d with unknown := false }

/-- `AdmissionLease::dispatch`. -/
def dispatch (bytes limit : Nat) (fingerprint : Digest) : Except BufferError AdmissionGate :=
  if !g.contains id && limit ≤ g.toList.length then .error .full
  else
    let d := g[id]?.getD { active := 0, unknown := false, bytes, fingerprint }
    if d.fingerprint ≠ fingerprint then .error (.duplicateIdentityConflict id)
    else .ok (g.insert id { d with active := d.active + 1, bytes := max d.bytes bytes })

/-- `AdmissionLease::finish`. -/
def finish (confirmed : Bool) : AdmissionGate :=
  match g[id]? with
  | none => g
  | some d =>
    let d := { d with active := d.active - 1, unknown := d.unknown && !confirmed }
    if d.active = 0 ∧ d.unknown = false then g.erase id else g.insert id d

/-- The drop of an `AdmissionLease` whose outcome is not known. -/
def drop : AdmissionGate :=
  match g[id]? with
  | none => g
  | some d => g.insert id { d with active := d.active - 1, unknown := true }

end AdmissionGate

/-- `available_staging_bytes`, from the snapshot that it inspects. -/
def availableStagingBytes (capacity : BufferCapacity) (gate : AdmissionGate)
    (operationId : Option OperationId) (snapshot : BufferSnapshot) : Except WriteError Nat :=
  match validateRetainedCapacity capacity snapshot with
  | .error e => .error e
  | .ok () =>
    if snapshot.admission.isSome then .ok capacity.byteLimit
    else
      let (pendingItems, pendingBytes) := gate.pendingCapacity operationId
      if capacity.itemLimit ≤ satAdd snapshot.items pendingItems then .error .full
      else
        let protected_ := satAdd (snapshot.bytes - snapshot.reclaimableBytes) pendingBytes
        let available := capacity.byteLimit - protected_
        if available = 0 then .error .full else .ok available

/-! ## Writers -/

/-- Where a writer's admission is. -/
inductive AdmissionPhase
  | idle
  | staged (available : Nat)
  | prepared (request : BufferAppendRequest)
  | dispatched (request : BufferAppendRequest)

structure Writer where
  gate : AdmissionGate
  phase : AdmissionPhase
  /-- Appends whose outcome the writer has not learned, and that may still be applied. -/
  lost : List BufferAppendRequest

/-- The provider and its writers. -/
structure Site (ω : Type) where
  retention : RetentionState
  writer : ω → Writer

/-- What the writers of a provider share. -/
structure SiteConfig where
  platform : Platform
  «namespace» : Namespace
  capacity : BufferCapacity
  backpressure : BackpressurePolicy

inductive SiteEvent (ω : Type)
  | reconcile (w : ω) (id : OperationId) (nowUtcMs : Int64) (nowInstant : Instant)
  | preflight (w : ω) (request : BufferInspectRequest)
  | encode (w : ω) (record : AdmittedRecord) (requested : Nat)
  | dispatch (w : ω)
  | append (w : ω) (durability : DurabilityClass)
  /-- The append is applied, and its answer is lost. -/
  | appendUnheard (w : ω) (durability : DurabilityClass)
  | lateAppend (w : ω) (lost : Nat) (durability : DurabilityClass)
  | giveUp (w : ω)
  /-- A claim, a seal, a renewal, a settlement or an inspection, by anyone. -/
  | call (op : Operation)

namespace SiteConfig

variable (cfg : SiteConfig)

variable (record : AdmittedRecord)

/-- `admission_byte_charge`. -/
def admissionByteCharge (requested : Nat) : Nat :=
  satAdd (RetentionState.admissionReservedBytes cfg.platform record requested)
    (StoredAdmissionReceipt.metadataBytes cfg.platform record.operationId record.scope
      record.codecVersion)

/-- `admission_fingerprint`. -/
def fingerprint : Digest :=
  fromStoredParts cfg.platform record.operationId record.scope record.codecVersion
    (record.digestRecord cfg.platform)

/-- The request of `append_once`. -/
def request (requested : Nat) : BufferAppendRequest where
  record := record
  reservedBytes := RetentionState.admissionReservedBytes cfg.platform record requested
  capacity := cfg.capacity

/-- The charge check of `encode_staged_record`. -/
def checkCharge (requested available : Nat) : Except WriteError Unit :=
  let charge := cfg.admissionByteCharge record requested
  if cfg.capacity.byteLimit < charge then .error (.oversizedItem charge cfg.capacity.byteLimit)
  else if available < charge then .error .full
  else .ok ()

/-- Where the writer is after an answer: an append that does not fit waits for its turn again. -/
def afterAnswer (request : BufferAppendRequest) :
    Except BufferError BufferAppendResult → AdmissionPhase
  | .error .full =>
    if cfg.backpressure = .waitUntilDeadline then .prepared request else .idle
  | .ok _ | .error _ => .idle

end SiteConfig

namespace Site

variable {ω : Type} [DecidableEq ω] (cfg : SiteConfig) (s : Site ω)

variable (w : ω)

def set (writer : Writer) : Site ω := { s with writer := Function.update s.writer w writer }

/-- The provider's step. -/
def serve (op : Operation) : Site ω :=
  { s with retention := s.retention.step cfg.platform cfg.namespace op }

/-- `reconcile_uncertain_admissions`, for one identity. -/
def reconcile (id : OperationId) (nowUtcMs : Int64) (nowInstant : Instant) : Site ω :=
  let writer := s.writer w
  let inspection := s.retention.inspectState cfg.platform ⟨some id, nowUtcMs, nowInstant⟩ .volatile
  let s := s.serve cfg (.inspect ⟨some id, nowUtcMs, nowInstant⟩ .volatile)
  match inspection.1.admission with
  | some receipt => s.set w { writer with gate := writer.gate.confirm id receipt.fingerprint }
  | none => s

def preflight (request : BufferInspectRequest) : Option (Site ω) :=
  let writer := s.writer w
  let inspection := s.retention.inspectState cfg.platform request .volatile
  let available := availableStagingBytes cfg.capacity writer.gate request.operationId inspection.1
  let s := s.serve cfg (.inspect request .volatile)
  match writer.phase with
  | .idle | .staged _ =>
    match available with
    | .ok bytes => some (s.set w { writer with phase := .staged bytes })
    | .error _ => some (s.set w { writer with phase := .idle })
  | .prepared _ | .dispatched _ => none

def encode (record : AdmittedRecord) (requested : Nat) : Option (Site ω) :=
  match (s.writer w).phase with
  | .staged available =>
    match cfg.checkCharge record requested available with
    | .ok () => some (s.set w
        { s.writer w with phase := .prepared (cfg.request record requested) })
    | .error _ => some (s.set w { s.writer w with phase := .idle })
  | .idle | .prepared _ | .dispatched _ => none

def dispatch (w : ω) : Option (Site ω) :=
  match (s.writer w).phase with
  | .prepared request =>
    let record := request.record
    match (s.writer w).gate.dispatch record.operationId
        (cfg.admissionByteCharge record request.reservedBytes) cfg.capacity.itemLimit
        (cfg.fingerprint record) with
    | .ok gate => some (s.set w { s.writer w with gate := gate, phase := .dispatched request })
    | .error e => some (s.set w { s.writer w with phase := cfg.afterAnswer request (.error e) })
  | .idle | .staged _ | .dispatched _ => none

def append (w : ω) (durability : DurabilityClass) : Option (Site ω) :=
  match (s.writer w).phase with
  | .dispatched request =>
    let answer := (s.retention.appendRecord cfg.platform request durability).1
    some ((s.serve cfg (.append request durability)).set w
      { s.writer w with
        gate := (s.writer w).gate.finish request.record.operationId answer.toOption.isSome
        phase := cfg.afterAnswer request answer })
  | .idle | .staged _ | .prepared _ => none

def appendUnheard (durability : DurabilityClass) : Option (Site ω) :=
  match (s.writer w).phase with
  | .dispatched request =>
    some ((s.serve cfg (.append request durability)).set w
      { s.writer w with
        gate := (s.writer w).gate.drop request.record.operationId
        phase := .idle })
  | .idle | .staged _ | .prepared _ => none

/-- An append that its writer has given up reaches the provider. -/
def lateAppend (lost : Nat) (durability : DurabilityClass) : Option (Site ω) :=
  (s.writer w).lost[lost]?.map fun request => s.serve cfg (.append request durability)

/-- The deadline passes, or the future is dropped. -/
def giveUp : Site ω :=
  match (s.writer w).phase with
  | .dispatched request => s.set w
      { gate := (s.writer w).gate.drop request.record.operationId
        phase := .idle
        lost := request :: (s.writer w).lost }
  | .idle | .staged _ | .prepared _ => s.set w { s.writer w with phase := .idle }

/-- A call of the provider other than an append, under the one capacity. -/
def Serves : Operation → Prop
  | .append _ _ => False
  | .sealCandidate request _ => request.capacity = cfg.capacity
  | .claim _ | .renew _ | .settle _ | .inspect _ _ => True

instance : ∀ op, Decidable (Serves cfg op)
  | .append _ _ => inferInstanceAs (Decidable False)
  | .sealCandidate request _ => inferInstanceAs (Decidable (request.capacity = cfg.capacity))
  | .claim _ | .renew _ | .settle _ | .inspect _ _ => inferInstanceAs (Decidable True)

def step : SiteEvent ω → Option (Site ω)
  | .reconcile w id nowUtcMs nowInstant => some (s.reconcile cfg w id nowUtcMs nowInstant)
  | .preflight w request => s.preflight cfg w request
  | .encode w record requested => s.encode cfg w record requested
  | .dispatch w => s.dispatch cfg w
  | .append w durability => s.append cfg w durability
  | .appendUnheard w durability => s.appendUnheard cfg w durability
  | .lateAppend w lost durability => s.lateAppend cfg w lost durability
  | .giveUp w => some (s.giveUp w)
  | .call op => if Serves cfg op then some (s.serve cfg op) else none

def new : Site ω where
  retention := {}
  writer _ := { gate := ∅, phase := .idle, lost := [] }

end Site

/-! ## The condition -/

namespace Site

variable {ω : Type} (cfg : SiteConfig) (s : Site ω)

/-- The append that an event brings to the provider. -/
def sent : SiteEvent ω → Option Operation
  | .append w durability | .appendUnheard w durability =>
    match (s.writer w).phase with
    | .dispatched request => some (.append request durability)
    | .idle | .staged _ | .prepared _ => none
  | .lateAppend w lost durability => (s.writer w).lost[lost]?.map (.append · durability)
  | .reconcile .. | .preflight .. | .encode .. | .dispatch _ | .giveUp _ | .call _ => none

/-- An append whose write is admitted arrives while the items of the provider, with the quarantined
ones, are below the limit. -/
def Orderly (e : SiteEvent ω) : Prop :=
  ∀ op ∈ s.sent e, s.retention.admittedBy cfg.platform op ≠ [] →
    s.retention.totalAccountedItems < cfg.capacity.itemLimit

end Site

/-! ## Items -/

/-- One for each write. -/
abbrev countWrites : Weights := ofWrite fun _ => 1

namespace RetentionState

variable {P : Platform} {ns : Namespace} {s : RetentionState}

/-- A count that fits in a word is computed exactly. -/
theorem totalAccountedItems_eq (h : s.quarantinedRecords + s.weigh countWrites ≤ wordMax) :
    s.totalAccountedItems = s.quarantinedRecords + s.weigh countWrites := by
  have hbatch : ∀ m : OrdMap BatchId SealedBatchEntry,
      (m.toList.map fun e => e.2.batch.records.length).sum =
        OrdMap.total (fun _ e => countWrites.batch e.batch) m := by
    intro m
    refine congrArg sum (map_congr_left fun e _ => ?_)
    simp [countWrites, ofWrite, SealedBatch.writes, Function.comp_def]
  have hopen : (s.openRecords.map countWrites.openRecord).sum = s.openRecords.length := by
    simp [countWrites, ofWrite]
  have hitems : OrdMap.total countWrites.item s.quarantinedItems =
      s.quarantinedItems.toList.length := by
    simp [OrdMap.total, countWrites, ofWrite]
  have hreceipts : OrdMap.total countWrites.receipt s.admissionReceipts = 0 :=
    OrdMap.total_eq_zero.mpr fun _ _ _ => rfl
  have hsealed := hbatch s.sealedBatches
  have hquarantined := hbatch s.quarantinedBatches
  unfold weigh at h ⊢
  rw [hopen, hitems, hreceipts, ← hsealed, ← hquarantined] at h ⊢
  unfold totalAccountedItems quarantineCount SealedBatchEntry.unsettledRecordCount
  rw [satSum_eq, wrapSum_eq (by omega)]
  simp only [satAdd]
  omega

theorem retains_quarantinedRecords {s' : RetentionState} (h : Retains s s') :
    s'.quarantinedRecords = s.quarantinedRecords := by rw [h.frame]

theorem completes_quarantinedRecords {s' : RetentionState} {status : AdmissionStatus}
    {ids : List OperationId} (h : Completes status ids s s') :
    s'.quarantinedRecords = s.quarantinedRecords := by rw [h.frame]

theorem appendRecord_quarantinedRecords (hs : Sound P s) (request : BufferAppendRequest)
    (durability : DurabilityClass) :
    (s.appendRecord P request durability).2.quarantinedRecords = s.quarantinedRecords := by
  obtain ⟨t, hretains, heq | ⟨hnone, reserved, heq⟩⟩ := appendRecord_cases hs request durability
  · rw [heq]
    exact retains_quarantinedRecords hretains
  · have hkept : t.quarantinedRecords = s.quarantinedRecords := retains_quarantinedRecords hretains
    have hbuffered : (s.newReceipt P request.record).status = .buffered := rfl
    have htrim := trimCompletedReceipts_retains (P := P)
      (withReceipt_ordered (s.newReceipt P request.record).watermark hretains.ordered hnone
        hbuffered)
    rw [heq, admit_eq hbuffered]
    dsimp only
    rw [retains_quarantinedRecords htrim]
    exact hkept

theorem settleEntry_quarantinedRecords (ho : Ordered s) (request : BufferSettleRequest)
    (entry : SealedBatchEntry) :
    (s.settleEntry P request entry).quarantinedRecords = s.quarantinedRecords := by
  have hcomplete : ∀ (batch : SealedBatch) (status : AdmissionStatus), status ≠ .buffered →
      (s.completeBatchReceipts P batch status).quarantinedRecords = s.quarantinedRecords := by
    intro batch status hstatus
    have hdone := foldl_completes hstatus (batch.records.map (·.operationId)) ho
    have htrim := trimCompletedReceipts_retains (P := P) hdone.ordered
    exact (retains_quarantinedRecords htrim).trans (completes_quarantinedRecords hdone)
  unfold settleEntry
  split
  · exact hcomplete _ _ nofun
  · exact hcomplete _ _ nofun
  · unfold retainPartialProgress
    dsimp only
    split
    · exact hcomplete _ _ nofun
    · rfl
  · rfl
  · rfl

theorem claimWork_quarantinedRecords (request : BufferClaimRequest) :
    (s.claimWork P request).2.quarantinedRecords = s.quarantinedRecords := by
  unfold claimWork claimOpenCandidate
  dsimp only
  split
  · rfl
  · split
    · rfl
    · split
      · rfl
      · split <;> rfl

theorem sealCandidate_quarantinedRecords (request : BufferSealRequest) (nowMono : Option Instant) :
    (s.sealCandidate P ns request nowMono).2.quarantinedRecords = s.quarantinedRecords := by
  unfold sealCandidate quarantineSingleton
  dsimp only
  split
  · rfl
  · split
    · rfl
    · split
      · rfl
      · split <;> rename_i heq <;> split at heq <;> cases heq <;> rfl
      · rfl

/-- The count of records that were quarantined without their contents does not change. -/
theorem step_quarantinedRecords (hs : Sound P s) (op : Operation) :
    (s.step P ns op).quarantinedRecords = s.quarantinedRecords := by
  cases op with
  | append request durability => exact appendRecord_quarantinedRecords hs request durability
  | claim request => exact claimWork_quarantinedRecords request
  | sealCandidate request nowMono => exact sealCandidate_quarantinedRecords request nowMono
  | renew request =>
    unfold step renewLease
    dsimp only
    split
    · rfl
    · split <;> rfl
  | settle request =>
    unfold step settleBatch
    dsimp only
    split
    · rfl
    · split
      · rfl
      · have ho : Ordered { s with sealedBatches := s.sealedBatches.erase request.batchId } :=
          hs.ordered.congr rfl rfl
        exact settleEntry_quarantinedRecords ho request _
  | inspect request durability => rfl

theorem length_admittedBy_le (P : Platform) (s : RetentionState) (op : Operation) :
    (s.admittedBy P op).length ≤ 1 := by
  unfold admittedBy
  split
  · split
    · split <;> simp
    · simp
  all_goals simp

end RetentionState

/-! ## The invariant -/

/-- The append that a writer is about to send or has sent. -/
def AdmissionPhase.request? : AdmissionPhase → Option BufferAppendRequest
  | .prepared request | .dispatched request => some request
  | .idle | .staged _ => none

/-- The appends of a writer have the one capacity. -/
structure Writer.Fixed (capacity : BufferCapacity) (w : Writer) : Prop where
  lost : ∀ request ∈ w.lost, request.capacity = capacity
  current : ∀ request ∈ w.phase.request?, request.capacity = capacity

theorem SiteConfig.afterAnswer_request? (cfg : SiteConfig) (request : BufferAppendRequest)
    (answer : Except BufferError BufferAppendResult) :
    ∀ r ∈ (cfg.afterAnswer request answer).request?, r = request := by
  unfold SiteConfig.afterAnswer
  split
  · split
    · exact fun r h => (some.inj h).symm
    · exact nofun
  all_goals exact nofun

namespace Site

variable {ω : Type} [DecidableEq ω] {cfg : SiteConfig} {s s' : Site ω} {r : RetentionState}
  {op : Operation}

/-- The provider holds no more than the capacity. -/
structure Within (cfg : SiteConfig) (r : RetentionState) : Prop where
  sound : Sound cfg.platform r
  bytes : r.weigh (charge cfg.platform) ≤ cfg.capacity.byteLimit
  quarantinedRecords : r.quarantinedRecords = 0
  items : r.weigh countWrites ≤ cfg.capacity.itemLimit

theorem Within.validate (h : Within cfg r) (request : BufferInspectRequest)
    (durability : DurabilityClass) :
    validateRetainedCapacity cfg.capacity (r.inspectState cfg.platform request durability).1 =
      .ok () := by
  have hreleases := expireOpenLeases_releases (s := r) request.nowUtcMs
  have hlimit := cfg.capacity.itemLimit_le
  have hcount := hreleases.weigh (W := countWrites)
  have hitems : (r.expireOpenLeases request.nowUtcMs).totalAccountedItems ≤
      cfg.capacity.itemLimit := by
    have hq : (r.expireOpenLeases request.nowUtcMs).quarantinedRecords = 0 := h.quarantinedRecords
    have hw := h.items
    rw [totalAccountedItems_eq (by omega)]
    omega
  have hbytes : (r.expireOpenLeases request.nowUtcMs).totalAccountedBytes cfg.platform ≤
      cfg.capacity.byteLimit := by
    rw [totalAccountedBytes_eq (h.sound.releases hreleases).within, hreleases.weigh]
    exact h.bytes
  unfold validateRetainedCapacity
  rw [if_neg]
  exact not_or.mpr ⟨Nat.not_lt_of_le hitems, Nat.not_lt_of_le ((Nat.sub_le _ _).trans hbytes)⟩

/-- A call under the one capacity that admits a write only below the item limit. -/
theorem Within.step (h : Within cfg r) (hop : op.capacity = none ∨ op.capacity = some cfg.capacity)
    (hroom : r.admittedBy cfg.platform op ≠ [] → r.totalAccountedItems < cfg.capacity.itemLimit) :
    Within cfg (r.step cfg.platform cfg.namespace op) where
  sound := step_sound cfg.namespace h.sound op
  bytes := step_charge_le h.sound h.bytes hop
  quarantinedRecords := (step_quarantinedRecords h.sound op).trans h.quarantinedRecords
  items := by
    have hconserve : (r.step cfg.platform cfg.namespace op).weigh countWrites +
        ((r.settledBy op).map fun _ => 1).sum =
          r.weigh countWrites + ((r.admittedBy cfg.platform op).map fun _ => 1).sum :=
      step_conserve cfg.namespace h.sound op fun _ => 1
    have hlimit := cfg.capacity.itemLimit_le
    have hq := h.quarantinedRecords
    have hw := h.items
    rw [totalAccountedItems_eq (by omega)] at hroom
    rw [map_const', map_const', sum_replicate_nat, sum_replicate_nat,
      Nat.mul_one, Nat.mul_one] at hconserve
    by_cases hnil : r.admittedBy cfg.platform op = []
    · rw [hnil, length_nil] at hconserve
      omega
    · have hone := r.length_admittedBy_le cfg.platform op
      have hbelow := hroom hnil
      omega

structure Inv (cfg : SiteConfig) (s : Site ω) : Prop where
  within : Within cfg s.retention
  writers : ∀ w, (s.writer w).Fixed cfg.capacity

/-- A change of one writer that keeps its appends under the capacity. -/
theorem Inv.set (h : Inv cfg s) {w : ω} {writer : Writer} (hw : writer.Fixed cfg.capacity) :
    Inv cfg (s.set w writer) where
  within := h.within
  writers u := by
    unfold Site.set
    dsimp only
    rw [Function.update_apply]
    split
    · exact hw
    · exact h.writers u

omit [DecidableEq ω] in
theorem Inv.serve (h : Inv cfg s) (hop : Serves cfg op) : Inv cfg (s.serve cfg op) where
  within := by
    refine h.within.step ?_ ?_
    · cases op with
      | append => cases hop
      | sealCandidate request => exact .inr (congrArg some hop)
      | claim | renew | settle | inspect => exact .inl rfl
    · cases op with
      | append => cases hop
      | _ => exact fun h => absurd rfl h
  writers := h.writers

omit [DecidableEq ω] in
/-- An append with room for its item. -/
theorem Inv.append (h : Inv cfg s) {request : BufferAppendRequest}
    (hcapacity : request.capacity = cfg.capacity) (durability : DurabilityClass)
    (hroom : s.retention.admittedBy cfg.platform (.append request durability) ≠ [] →
      s.retention.totalAccountedItems < cfg.capacity.itemLimit) :
    Inv cfg (s.serve cfg (.append request durability)) where
  within := by
    have hop : (Operation.append request durability).capacity = some cfg.capacity :=
      congrArg some hcapacity
    exact h.within.step (.inr hop) hroom
  writers := h.writers

variable {w : ω}

theorem Inv.reconcile (h : Inv cfg s) (id : OperationId) (nowUtcMs : Int64) (nowInstant : Instant) :
    Inv cfg (s.reconcile cfg w id nowUtcMs nowInstant) := by
  have hw := h.writers w
  have hserved : Inv cfg (s.serve cfg (.inspect ⟨some id, nowUtcMs, nowInstant⟩ .volatile)) :=
    h.serve trivial
  unfold Site.reconcile
  dsimp only
  split
  · exact hserved.set ⟨hw.lost, hw.current⟩
  · exact hserved

theorem Inv.preflight (h : Inv cfg s) {request : BufferInspectRequest}
    (hstep : s.preflight cfg w request = some s') : Inv cfg s' := by
  have hw := h.writers w
  have hserved : Inv cfg (s.serve cfg (.inspect request .volatile)) := h.serve trivial
  unfold Site.preflight at hstep
  dsimp only at hstep
  split at hstep
  · split at hstep <;> cases hstep <;> exact hserved.set ⟨hw.lost, nofun⟩
  · split at hstep <;> cases hstep <;> exact hserved.set ⟨hw.lost, nofun⟩
  all_goals cases hstep

theorem Inv.encode (h : Inv cfg s) {record : AdmittedRecord} {requested : Nat}
    (hstep : s.encode cfg w record requested = some s') : Inv cfg s' := by
  have hw := h.writers w
  unfold Site.encode at hstep
  split at hstep
  · split at hstep
    · cases hstep
      refine h.set ⟨hw.lost, fun r hr => ?_⟩
      cases hr
      rfl
    · cases hstep
      exact h.set ⟨hw.lost, nofun⟩
  all_goals cases hstep

theorem Inv.dispatch (h : Inv cfg s) (hstep : s.dispatch cfg w = some s') : Inv cfg s' := by
  have hw := h.writers w
  unfold Site.dispatch at hstep
  split at hstep
  · rename_i request hphase
    have hcurrent := hw.current request (by rw [hphase]; rfl)
    dsimp only at hstep
    split at hstep
    · cases hstep
      exact h.set ⟨hw.lost, fun r hr => some.inj hr ▸ hcurrent⟩
    · cases hstep
      exact h.set ⟨hw.lost, fun r hr => cfg.afterAnswer_request? request _ r hr ▸ hcurrent⟩
  all_goals cases hstep

theorem Inv.giveUp (h : Inv cfg s) : Inv cfg (s.giveUp w) := by
  have hw := h.writers w
  unfold Site.giveUp
  split
  · rename_i request hphase
    have hcurrent := hw.current request (by rw [hphase]; rfl)
    refine h.set ⟨fun r hr => ?_, nofun⟩
    obtain rfl | hr := mem_cons.mp hr
    · exact hcurrent
    · exact hw.lost r hr
  all_goals exact h.set ⟨hw.lost, nofun⟩

theorem Inv.step (h : Inv cfg s) (e : SiteEvent ω) (hok : s.Orderly cfg e)
    (hstep : s.step cfg e = some s') : Inv cfg s' := by
  cases e with
  | reconcile w id nowUtcMs nowInstant =>
    obtain rfl := some.inj hstep
    exact h.reconcile id nowUtcMs nowInstant
  | preflight => exact h.preflight hstep
  | encode => exact h.encode hstep
  | dispatch => exact h.dispatch hstep
  | append w durability =>
    have hw := h.writers w
    unfold Site.step Site.append at hstep
    unfold Orderly sent at hok
    dsimp only at hstep hok
    split at hstep
    · rename_i request hphase
      rw [hphase] at hok
      have hcurrent := hw.current request (by rw [hphase]; rfl)
      cases hstep
      exact (h.append hcurrent durability (hok _ rfl)).set
        ⟨hw.lost, fun r hr => cfg.afterAnswer_request? request _ r hr ▸ hcurrent⟩
    all_goals cases hstep
  | appendUnheard w durability =>
    have hw := h.writers w
    unfold Site.step Site.appendUnheard at hstep
    unfold Orderly sent at hok
    dsimp only at hstep hok
    split at hstep
    · rename_i request hphase
      rw [hphase] at hok
      have hcurrent := hw.current request (by rw [hphase]; rfl)
      cases hstep
      exact (h.append hcurrent durability (hok _ rfl)).set ⟨hw.lost, nofun⟩
    all_goals cases hstep
  | lateAppend w lost durability =>
    obtain ⟨request, hget, rfl⟩ := map_eq_some_iff.mp hstep
    exact h.append ((h.writers w).lost request (mem_of_getElem? hget)) durability
      (hok _ (map_eq_some_iff.mpr ⟨request, hget, rfl⟩))
  | giveUp w =>
    obtain rfl := some.inj hstep
    exact h.giveUp
  | call op =>
    unfold Site.step at hstep
    dsimp only at hstep
    split at hstep
    · rename_i hop
      cases hstep
      exact h.serve hop
    · cases hstep

omit [DecidableEq ω] in
theorem Inv.new : Inv cfg (new : Site ω) where
  within := ⟨.empty _, by simp [weigh, Site.new], rfl, by simp [weigh, Site.new]⟩
  writers _ := ⟨nofun, nofun⟩

/-- In every run in which each append that is admitted arrives while the provider's items are below
the limit, the check of the retained capacity accepts every snapshot. -/
theorem retained_within_capacity (cfg : SiteConfig) {s : Site ω}
    (h : Run (fun s e s' => s.step cfg e = some s') (fun s e => s.Orderly cfg e) new s)
    (request : BufferInspectRequest) (durability : DurabilityClass) :
    validateRetainedCapacity cfg.capacity
      (s.retention.inspectState cfg.platform request durability).1 = .ok () :=
  (h.invariant (I := Inv cfg) (fun _ e _ hi hok hst => hi.step e hok hst) .new).within.validate
    request durability

omit [DecidableEq ω] in
instance (e : SiteEvent ω) : Decidable (s.Orderly cfg e) :=
  inferInstanceAs (Decidable (∀ op ∈ s.sent e, s.retention.admittedBy cfg.platform op ≠ [] →
    s.retention.totalAccountedItems < cfg.capacity.itemLimit))

end Site

namespace Sample

/-- Two items and five thousand bytes. -/
def site : SiteConfig where
  platform := platform
  «namespace» := provider
  capacity := ⟨2, 5000, by decide, by decide⟩
  backpressure := .reject

def inspection : BufferInspectRequest := ⟨none, 0, ⟨0⟩⟩

/-- The item of a letter is encoded, sent and answered. -/
def admits (w : Fin 2) (b : Fin 26) : List (SiteEvent (Fin 2)) :=
  [.encode w (record b) 0, .dispatch w, .append w .volatile]

/-- The first item is claimed and quarantined. -/
def quarantines : List (SiteEvent (Fin 2)) :=
  [.call claim, .call (.sealCandidate {
    fencingToken := ⟨1⟩
    action := .quarantineSingleton (operation 0)
    capacity := site.capacity
    leaseDuration := .fromMillis 1000
    nowUtcMs := 0 } none)]

end Sample

namespace Site

open Sample

/-- The other writer looks after the quarantine, and its item is the second. -/
theorem retained_within_capacity_two_writers :
    ∃ s : Site (Fin 2),
      Run (fun s e s' => s.step site e = some s') (fun s e => s.Orderly site e) new s ∧
        s.retention.totalAccountedItems = 2 ∧
        validateRetainedCapacity site.capacity
          (s.retention.inspectState site.platform inspection .volatile).1 = .ok () := by
  have hrun : (Run.script (step site) (fun s e => s.Orderly site e) new
      (.preflight 0 inspection :: admits 0 0 ++ quarantines ++ .preflight 1 inspection ::
        admits 1 1)).any
      (fun s : Site (Fin 2) => s.retention.totalAccountedItems = 2) = true := by decide +kernel
  obtain ⟨s, h, hitems⟩ := Run.ofScript hrun
  exact ⟨s, h, of_decide_eq_true hitems, retained_within_capacity site h inspection .volatile⟩

/-- Two writers look while one item is quarantined and none is active, and both go ahead. The
provider leaves the quarantined item out and accepts both, and three items are retained where two
are allowed. -/
theorem retained_beyond_capacity :
    ∃ s : Site (Fin 2), Run (fun s e s' => s.step site e = some s') (fun _ _ => True) new s ∧
      ∃ bytes, validateRetainedCapacity site.capacity
        (s.retention.inspectState site.platform inspection .volatile).1 =
          .error (.insufficientRecoveryCapacity 3 bytes 2 5000) := by
  have hrun : (Run.script (step site) (fun _ _ => True) new
      (.preflight 0 inspection :: admits 0 0 ++ quarantines ++
        [.preflight 0 inspection, .preflight 1 inspection] ++ admits 0 1 ++ admits 1 2)).any
      (fun s : Site (Fin 2) => validateRetainedCapacity site.capacity
        (s.retention.inspectState site.platform inspection .volatile).1 =
          .error (.insufficientRecoveryCapacity 3 1311 2 5000)) = true := by
    decide +kernel
  obtain ⟨s, h, hp⟩ := Run.ofScript hrun
  exact ⟨s, h, _, of_decide_eq_true hp⟩

end Site

end AuxCommon.BufferedWrites
