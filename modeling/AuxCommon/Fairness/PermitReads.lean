import AuxCommon.Enqueue
import AuxCommon.Lib.Batches
import AuxCommon.Store.KeyCodec

/-!
# Reads of permit slots

`fairness/permits.rs`: the permit keys of a record, one set for each slot, are read in batches that
the store's limits allow, and `permit_read_operation_bound` says beforehand how many batches there
can be. The batches are greedy over the lengths of the keys (`Batches.cut`), the bound looks at the
first set only. It is a bound because the keys of all slots have the same lengths
(`lengths_permitKeySet`).

A store answers its calls by their number, since other nodes may write between two of them.
-/

namespace AuxCommon

open List Except StoreKey Batches KeyCodec

/-! ## Keys -/

/-- `MAX_DURABLE_PERMIT_SLOTS`. -/
def maxDurablePermitSlots : Nat := 1024

/-- The keys of `permit_keys_for_slot`. An ordering group has one slot. -/
def permitKeysForSlot (r : JobRecordV1) (slot : U32) : List PermitKey :=
  (match r.fairness with
    | .lowVolume => []
    | .scoped path => .primary r.queue path.primary slot ::
        (path.secondary.map fun secondary =>
          .secondary r.queue path.primary secondary slot).toList) ++
  (r.orderingKey.map fun ordering => .ordering r.queue ordering 0).toList

variable (ns : Namespace)

/-- `permit_key_sets`. -/
def permitKeySets (r : JobRecordV1) (capacity : NonZero 16) :
    Except StoreDataError (List (List KeyBytes)) := do
  require (capacity.get.toNat ≤ maxDurablePermitSlots)
    (.invalidLength "durable permit slots" capacity.get.toNat maxDurablePermitSlots)
  (List.range capacity.get.toNat).mapM fun slot =>
    (permitKeysForSlot r (BitVec.ofNat 32 slot)).mapM fun key => StoreKey.bytes ns (.permit key)

/-- `permit_probes`. -/
def permitProbes (sets : List (List KeyBytes)) : List KeyBytes := sets.flatten

/-! ## Reads -/

/-- The limits of `StoreCapabilities` on a read of several keys, with what `try_from` checks. -/
structure GetManyLimits where
  maxKeyBytes : NonZero 64
  maxGetManyKeys : NonZero 32
  maxGetManyKeyBytes : NonZero 64
  key_le : maxKeyBytes.get.toNat ≤ maxGetManyKeyBytes.get.toNat

/-- What the store answers to its calls of `get_many`. -/
abbrev GetManyAnswers := Nat → List KeyBytes → Except AdapterError (List (Option Bytes))

namespace GetManyLimits

variable (limits : GetManyLimits)

/-- `validate_get_many`. A sum that overflows is over the limit as well. -/
def validateGetMany (keys : List KeyBytes) : Except StoreContractError Unit :=
  if limits.maxGetManyKeys.get.toNat < keys.length then
    .error (.capabilityExceeded "get-many keys")
  else if keys.any fun key => limits.maxKeyBytes.get.toNat < key.length then
    .error (.capabilityExceeded "get-many key bytes")
  else if limits.maxGetManyKeyBytes.get.toNat < (keys.map List.length).sum then
    .error (.capabilityExceeded "get-many key bytes")
  else .ok ()

/-- `read_many`: the requests that reach the store, and the result. -/
def readMany (answer : List KeyBytes → Except AdapterError (List (Option Bytes)))
    (keys : List KeyBytes) : List (List KeyBytes) × JobResult (List (Option Bytes)) :=
  match limits.validateGetMany keys with
  | .error e => ([], .error (.storeContract e))
  | .ok () => if keys.isEmpty then ([], .ok []) else ([keys], (answer keys).mapError .store)

/-- `permit_batch_end`, counted from the start of the batch. -/
def permitBatchEnd (probes : List KeyBytes) : Nat :=
  Batches.fitting List.length limits.maxGetManyKeyBytes.get.toNat limits.maxGetManyKeys.get.toNat 0
    probes

/-- `read_permit_values` after `calls` calls: the requests that reach the store, and the result. -/
def readPermitValues (store : GetManyAnswers) (calls : Nat) (probes : List KeyBytes) :
    List (List KeyBytes) × JobResult (List (Option Bytes)) :=
  if probes = [] then ([], .ok [])
  else
    let stop := min (max (limits.permitBatchEnd probes) 1) probes.length
    let batch := probes.take stop
    let (requests, answer) := limits.readMany (store calls) batch
    match answer with
    | .error e => (requests, .error e)
    | .ok values =>
      if values.length ≠ batch.length then (requests, .error .payloadCorrupt)
      else
        let rest := readPermitValues store (calls + 1) (probes.drop stop)
        (requests ++ rest.1, rest.2.map (values ++ ·))
termination_by probes.length
decreasing_by
  rename_i hprobes _
  have := List.length_pos_iff.mpr hprobes
  rw [List.length_drop]
  omega

/-- `permit_read_operation_bound`. -/
def permitReadOperationBound (r : JobRecordV1) (capacity : NonZero 16) : JobResult U32 := do
  require (capacity.get.toNat ≤ maxDurablePermitSlots) (.storeData
    (.invalidLength "durable permit slots" capacity.get.toNat maxDurablePermitSlots))
  let sets ← permitKeySets ns r ⟨1, NonZero.one_ne_zero16⟩
  let firstSet ← okOr JobSystemError.payloadCorrupt sets.getLast?
  match (firstSet.map List.length).max? with
  | none => return 0
  | some maxKeyBytes =>
    let keysPerBatch := min (max (limits.maxGetManyKeyBytes.get.toNat / maxKeyBytes) 1)
      limits.maxGetManyKeys.get.toNat
    let totalKeys := capacity.get.toNat * firstSet.length
    require (totalKeys < 2 ^ 64) JobSystemError.payloadCorrupt
    let batches := (totalKeys + keysPerBatch - 1) / keysPerBatch
    require (batches < 2 ^ 32) JobSystemError.payloadCorrupt
    return BitVec.ofNat 32 batches

end GetManyLimits

/-! ## The lengths of the keys -/

theorem fits_permit (key : PermitKey) : Fits (components (.permit key)) := by
  have hslot : ∀ slot : U32, (u32Bytes slot).length < 256 ^ 4 := fun slot => by
    rw [u32Bytes, length_beBytes]
    decide
  have hnil : ∀ c ∈ ([] : List KeyBytes), c.length < 256 ^ 4 := by simp
  cases key with
  | primary q p slot =>
    refine ⟨by simp [components, maxComponents], ?_⟩
    simp only [components, forall_mem_cons]
    exact ⟨by decide, by decide, q.length_bytes, p.length_bytes, hslot slot, hnil⟩
  | secondary q p t slot =>
    refine ⟨by simp [components, maxComponents], ?_⟩
    simp only [components, forall_mem_cons]
    exact ⟨by decide, by decide, q.length_bytes, p.length_bytes, t.length_bytes, hslot slot, hnil⟩
  | ordering q o slot =>
    refine ⟨by simp [components, maxComponents], ?_⟩
    simp only [components, forall_mem_cons]
    exact ⟨by decide, q.length_bytes, o.length_bytes, hslot slot, hnil⟩

/-- The bytes of a permit key. -/
def permitBytes (key : PermitKey) : KeyBytes :=
  KeyCodec.header ns .permit ++ frames (StoreKey.components (.permit key))

theorem bytes_permit (key : PermitKey) : bytes ns (.permit key) = .ok (permitBytes ns key) :=
  encode_eq_ok.mpr ⟨fits_permit key, rfl⟩

/-- The set of one slot. -/
def permitKeySet (r : JobRecordV1) (slot : Nat) : List KeyBytes :=
  (permitKeysForSlot r (BitVec.ofNat 32 slot)).map (permitBytes ns)

theorem permitKeySets_eq_ok {ns : Namespace} {r : JobRecordV1} {capacity : NonZero 16}
    {sets : List (List KeyBytes)} :
    permitKeySets ns r capacity = .ok sets ↔ capacity.get.toNat ≤ maxDurablePermitSlots ∧
      sets = (range capacity.get.toNat).map (permitKeySet ns r) := by
  have hsets : ((range capacity.get.toNat).mapM fun slot =>
      (permitKeysForSlot r (BitVec.ofNat 32 slot)).mapM fun key => bytes ns (.permit key)) =
      .ok ((range capacity.get.toNat).map (permitKeySet ns r)) :=
    mapM_eq_ok_map fun slot _ => mapM_eq_ok_map fun key _ => bytes_permit ns key
  rw [permitKeySets, hsets, bind_eq_ok]
  constructor
  · rintro ⟨_, hcapacity, h⟩
    exact ⟨require_eq_ok.mp hcapacity, (ok.inj h).symm⟩
  · rintro ⟨hcapacity, rfl⟩
    exact ⟨(), require_eq_ok.mpr hcapacity, rfl⟩

variable (r : JobRecordV1)

/-- A slot is a word of four bytes in all of its keys. -/
theorem lengths_permitKeySet (slot : Nat) :
    (permitKeySet ns r slot).map length = (permitKeySet ns r 0).map length := by
  have hslot : ∀ x : U32, (u32Bytes x).length = 4 := fun x => length_beBytes 4 x.toNat
  unfold permitKeySet permitKeysForSlot
  rcases r.fairness with ⟨primary, secondary⟩ | _
  · cases secondary <;> simp [permitBytes, frames, frame, components, hslot]
  · rfl

namespace GetManyLimits

variable {limits : GetManyLimits} {store : GetManyAnswers} {probes : List KeyBytes}

/-! ## The batches -/

/-- The probes, cut into batches. -/
def permitBatches (limits : GetManyLimits) (probes : List KeyBytes) : List (List KeyBytes) :=
  Batches.cut List.length limits.maxGetManyKeys.get.toNat limits.maxGetManyKeyBytes.get.toNat probes

/-- A batch that a request may have. -/
abbrev Allows (limits : GetManyLimits) (batch : List KeyBytes) : Prop :=
  Batches.Within List.length limits.maxGetManyKeys.get.toNat limits.maxGetManyKeyBytes.get.toNat batch

/-- Each key is one that the store can have. -/
def KeysFit (limits : GetManyLimits) (probes : List KeyBytes) : Prop :=
  ∀ key ∈ probes, key.length ≤ limits.maxKeyBytes.get.toNat

theorem permitBatches_allowed (hfit : limits.KeysFit probes) :
    ∀ batch ∈ limits.permitBatches probes, limits.Allows batch :=
  cut_within limits.maxGetManyKeys.pos fun key hkey => (hfit key hkey).trans limits.key_le

/-- The values are the answers to the batches, each as long as its batch. -/
def AnsweredBy (store : GetManyAnswers) (batches : List (List KeyBytes))
    (values : List (Option Bytes)) : Prop :=
  ∃ answers, values = answers.flatten ∧
    List.Forall₂ (fun batch answer => answer.length = batch.length ∧
      ∃ call, store call batch = .ok answer) batches answers

theorem AnsweredBy.length_eq {batches : List (List KeyBytes)} {values : List (Option Bytes)}
    (h : AnsweredBy store batches values) : values.length = batches.flatten.length := by
  obtain ⟨answers, rfl, hall⟩ := h
  rw [length_flatten, length_flatten]
  congr 1
  induction hall with
  | nil => rfl
  | cons h _ ih => rw [map_cons, map_cons, ih, h.1]

/-- A request that keeps the limits reaches the store. -/
theorem readMany_of_allows (answer : List KeyBytes → Except AdapterError (List (Option Bytes)))
    {batch : List KeyBytes} (hfit : limits.KeysFit batch) (h : limits.Allows batch) :
    limits.readMany answer batch = ([batch], (answer batch).mapError .store) := by
  have hany : batch.any (fun key => limits.maxKeyBytes.get.toNat < key.length) = false := by
    simpa [KeysFit] using hfit
  have hvalid : limits.validateGetMany batch = .ok () := by
    rw [validateGetMany, if_neg (Nat.not_lt.mpr h.count), hany, if_neg (by simp),
      if_neg (Nat.not_lt.mpr h.size)]
  have hempty : batch.isEmpty = false := by simpa using h.ne_nil
  rw [readMany, hvalid, hempty]
  rfl

/-- What the loop has sent and returned, compared with the batches. -/
structure Reads (store : GetManyAnswers) (batches : List (List KeyBytes))
    (run : List (List KeyBytes) × JobResult (List (Option Bytes))) : Prop where
  sent : run.1 <+: batches
  returned : ∀ values, run.2 = .ok values → run.1 = batches ∧ AnsweredBy store batches values
  returns : (∀ call keys, ∃ answer, store call keys = .ok answer ∧ answer.length = keys.length) →
    ∃ values, run.2 = .ok values

theorem readPermitValues_reads (hfit : limits.KeysFit probes) (calls : Nat) :
    Reads store (limits.permitBatches probes) (limits.readPermitValues store calls probes) := by
  unfold permitBatches
  fun_induction cut length limits.maxGetManyKeys.get.toNat
    limits.maxGetManyKeyBytes.get.toNat probes generalizing calls with
  | case1 =>
    rw [readPermitValues, if_pos rfl]
    refine ⟨prefix_rfl, fun values h => ?_, fun _ => ⟨[], rfl⟩⟩
    cases h
    exact ⟨rfl, [], rfl, .nil⟩
  | case2 probes hprobes ih =>
    have hbatch : limits.Allows (probes.take (first length
        limits.maxGetManyKeys.get.toNat limits.maxGetManyKeyBytes.get.toNat probes)) :=
      first_within limits.maxGetManyKeys.pos
        (fun key hkey => (hfit key hkey).trans limits.key_le) hprobes
    have hread := readMany_of_allows (store calls)
      (fun key hkey => hfit key (mem_of_mem_take hkey)) hbatch
    have hrest := ih (fun key hkey => hfit key (mem_of_mem_drop hkey)) (calls + 1)
    rw [readPermitValues, if_neg hprobes, permitBatchEnd]
    unfold first at hread hrest ⊢
    simp only [hread]
    generalize probes.take _ = batch at hread ⊢
    cases hanswer : store calls batch with
    | error e =>
      refine ⟨by simp [Except.mapError], fun _ h => (by cases h), fun hstore => ?_⟩
      obtain ⟨answer, h, -⟩ := hstore calls batch
      cases hanswer.symm.trans h
    | ok answer =>
      by_cases hlen : answer.length = batch.length
      · simp only [Except.mapError, ne_eq, hlen, not_true_eq_false, if_false]
        refine ⟨(prefix_append_right_inj [batch]).mpr hrest.sent, ?_, fun hstore => ?_⟩
        · intro values h
          obtain ⟨rest, hvalues, rfl⟩ := Except.map_eq_ok.mp h
          obtain ⟨hsent, answers, rfl, hall⟩ := hrest.returned rest hvalues
          exact ⟨congrArg (batch :: ·) hsent, answer :: answers, rfl,
            .cons ⟨hlen, calls, hanswer⟩ hall⟩
        · obtain ⟨rest, hvalues⟩ := hrest.returns hstore
          exact ⟨answer ++ rest, Except.map_eq_ok.mpr ⟨rest, hvalues, rfl⟩⟩
      · simp only [Except.mapError, ne_eq, hlen, not_false_eq_true, if_true]
        refine ⟨by simp, fun _ h => (by cases h), fun hstore => ?_⟩
        obtain ⟨answer', h, hlen'⟩ := hstore calls batch
        cases hanswer.symm.trans h
        exact absurd hlen' hlen

/-! ## The bound -/

theorem length_permitKeySet_le (slot : Nat) : (permitKeySet ns r slot).length ≤ 3 := by
  unfold permitKeySet permitKeysForSlot
  rcases r.fairness with ⟨primary, secondary⟩ | _ <;> cases r.orderingKey
  · cases secondary <;> simp
  · cases secondary <;> simp
  · simp
  · simp

/-- The keys of all slots, from those of the first. -/
theorem probes_of_first (capacity : Nat) :
    let probes := permitProbes ((range capacity).map (permitKeySet ns r))
    probes.length = capacity * (permitKeySet ns r 0).length ∧
      ∀ key ∈ probes, key.length ∈ (permitKeySet ns r 0).map length := by
  have hlen : ∀ slot, (permitKeySet ns r slot).length = (permitKeySet ns r 0).length := fun slot => by
    simpa using congrArg length (lengths_permitKeySet ns r slot)
  constructor
  · have hfun : length ∘ permitKeySet ns r = fun _ => (permitKeySet ns r 0).length := by
      funext slot
      exact hlen slot
    rw [permitProbes, length_flatten, map_map, hfun]
    simp
  · intro key hkey
    obtain ⟨set, hset, hkey⟩ := mem_flatten.mp hkey
    obtain ⟨slot, -, rfl⟩ := mem_map.mp hset
    rw [← lengths_permitKeySet ns r slot]
    exact mem_map_of_mem hkey

/-- `⌈n / k⌉` batches of `k` are enough. -/
theorem le_ceil_mul (n : Nat) {k : Nat} (hk : 1 ≤ k) : n ≤ (n + k - 1) / k * k := by
  have hdiv := Nat.div_add_mod (n + k - 1) k
  have hmod := Nat.mod_lt (n + k - 1) hk
  rw [Nat.mul_comm] at hdiv
  omega

theorem permitReadOperationBound_bounds (limits : GetManyLimits) (ns : Namespace) (r : JobRecordV1)
    {capacity : NonZero 16} (hcapacity : capacity.get.toNat ≤ maxDurablePermitSlots) :
    ∃ bound, limits.permitReadOperationBound ns r capacity = .ok bound ∧
      (limits.permitBatches (permitProbes
        ((range capacity.get.toNat).map (permitKeySet ns r)))).length ≤ bound.toNat := by
  have hone : permitKeySets ns r ⟨1, NonZero.one_ne_zero16⟩ = .ok [permitKeySet ns r 0] :=
    permitKeySets_eq_ok.mpr ⟨by decide, rfl⟩
  obtain ⟨htotal, hmem⟩ := probes_of_first ns r capacity.get.toNat
  have hsmall := length_permitKeySet_le ns r 0
  generalize permitProbes ((range capacity.get.toNat).map (permitKeySet ns r)) = probes at *
  generalize permitKeySet ns r 0 = firstSet at *
  cases hmax : (firstSet.map length).max? with
  | none =>
    have hnil : firstSet = [] := map_eq_nil_iff.mp (max?_eq_none_iff.mp hmax)
    have hprobes : probes = [] := length_eq_zero_iff.mp (by rw [htotal, hnil]; rfl)
    subst hprobes
    refine ⟨0, bind_eq_ok.mpr ⟨(), require_eq_ok.mpr hcapacity, bind_eq_ok.mpr
      ⟨[firstSet], by rw [hone]; rfl, bind_eq_ok.mpr ⟨firstSet, rfl, ?_⟩⟩⟩,
      by simp [permitBatches, cut]⟩
    rw [hmax]
    rfl
  | some maxKeyBytes =>
    have hsize : ∀ key ∈ probes, key.length ≤ maxKeyBytes := fun key hkey =>
      (max?_eq_some_iff.mp hmax).2 _ (hmem key hkey)
    generalize hk : min (max (limits.maxGetManyKeyBytes.get.toNat / maxKeyBytes) 1)
      limits.maxGetManyKeys.get.toNat = k
    have hpos := limits.maxGetManyKeys.pos
    have hfit : k ≤ 1 ∨ k * maxKeyBytes ≤ limits.maxGetManyKeyBytes.get.toNat := by
      by_cases hdiv : 1 ≤ limits.maxGetManyKeyBytes.get.toNat / maxKeyBytes
      · right
        calc k * maxKeyBytes ≤ limits.maxGetManyKeyBytes.get.toNat / maxKeyBytes * maxKeyBytes :=
              Nat.mul_le_mul_right _ (by omega)
          _ ≤ limits.maxGetManyKeyBytes.get.toNat := Nat.div_mul_le_self _ _
      · left
        omega
    have hcount := length_cut_le hsize (by omega : k ≤ limits.maxGetManyKeys.get.toNat) hfit
      (le_ceil_mul probes.length (by omega))
    have hle : probes.length ≤ 3072 := by
      rw [htotal]
      exact Nat.mul_le_mul hcapacity hsmall
    have hbound : (probes.length + k - 1) / k ≤ probes.length + 1 := by
      refine Nat.div_le_of_le_mul ?_
      have := Nat.le_mul_of_pos_left probes.length (by omega : 0 < k)
      rw [Nat.mul_succ]
      omega
    refine ⟨BitVec.ofNat 32 ((probes.length + k - 1) / k), bind_eq_ok.mpr
      ⟨(), require_eq_ok.mpr hcapacity, bind_eq_ok.mpr ⟨[firstSet], by rw [hone]; rfl,
        bind_eq_ok.mpr ⟨firstSet, rfl, ?_⟩⟩⟩, ?_⟩
    · rw [hmax]
      dsimp only
      rw [hk, ← htotal]
      exact bind_eq_ok.mpr ⟨(), require_eq_ok.mpr (by omega),
        bind_eq_ok.mpr ⟨(), require_eq_ok.mpr (by omega), rfl⟩⟩
    · rw [BitVec.toNat_ofNat, Nat.mod_eq_of_lt (by omega)]
      exact hcount

/-- Every request keeps the limits, the requests are the probes in order, and there are no more of
them than the bound says. If the store answers them all, there is a value for each probe. -/
theorem permit_reads_complete (limits : GetManyLimits) (store : GetManyAnswers) (ns : Namespace)
    (r : JobRecordV1) (capacity : NonZero 16) (sets : List (List KeyBytes))
    (hsets : permitKeySets ns r capacity = .ok sets) (hfit : limits.KeysFit (permitProbes sets)) :
    let probes := permitProbes sets
    let run := limits.readPermitValues store 0 probes
    (∀ batch ∈ run.1, batch.length ≤ limits.maxGetManyKeys.get.toNat ∧
      (batch.map List.length).sum ≤ limits.maxGetManyKeyBytes.get.toNat) ∧
    run.1.flatten <+: probes ∧
    (∃ bound, limits.permitReadOperationBound ns r capacity = .ok bound ∧
      run.1.length ≤ bound.toNat) ∧
    (∀ values, run.2 = .ok values → run.1.flatten = probes ∧ AnsweredBy store run.1 values ∧
      values.length = probes.length) ∧
    ((∀ call keys, ∃ answer, store call keys = .ok answer ∧ answer.length = keys.length) →
      ∃ values, run.2 = .ok values) := by
  intro probes run
  have hreads : Reads store (limits.permitBatches probes) run := readPermitValues_reads hfit 0
  have hflat : (limits.permitBatches probes).flatten = probes := flatten_cut
  obtain ⟨hcapacity, rfl⟩ := permitKeySets_eq_ok.mp hsets
  obtain ⟨bound, hbound, hle⟩ := limits.permitReadOperationBound_bounds ns r hcapacity
  refine ⟨fun batch hbatch => ?_, ?_, ⟨bound, hbound, hreads.sent.length_le.trans hle⟩, ?_,
    hreads.returns⟩
  · have := permitBatches_allowed hfit batch (hreads.sent.subset hbatch)
    exact ⟨this.count, this.size⟩
  · obtain ⟨rest, hrest⟩ := hreads.sent
    exact ⟨rest.flatten, by rw [← flatten_append, hrest, hflat]⟩
  · intro values hvalues
    obtain ⟨hsent, hanswered⟩ := hreads.returned values hvalues
    rw [hsent]
    exact ⟨hflat, hanswered, by rw [hanswered.length_eq, hflat]⟩

end GetManyLimits

namespace Sample

/-- The job in a scope of two levels and an ordering group: three keys for each slot. -/
def groupedJob : NewJob :=
  { job with fairness := .scoped ⟨.single 1, some (.single 2)⟩, orderingKey := some (.single 3) }

/-- Requests of five keys and 200 bytes. -/
def getManyLimits : GetManyLimits :=
  ⟨⟨100, by decide⟩, ⟨5, by decide⟩, ⟨200, by decide⟩, by decide⟩

end Sample

theorem permit_reads_complete_sample : ∃ r sets, Sample.enqueued Sample.groupedJob = .ok r ∧
    permitKeySets (.single 1) r ⟨2, by decide⟩ = .ok sets ∧ (permitProbes sets).length = 6 ∧
    Sample.getManyLimits.KeysFit (permitProbes sets) ∧
    ∃ bound, Sample.getManyLimits.permitReadOperationBound (.single 1) r ⟨2, by decide⟩ = .ok bound ∧
      (Sample.getManyLimits.readPermitValues (fun _ keys => .ok (keys.map fun _ => none)) 0
        (permitProbes sets)).1.length ≤ bound.toNat := by
  have hrun : (do
      let r ← Sample.enqueued Sample.groupedJob
      let sets ← permitKeySets (.single 1) r ⟨2, by decide⟩
      return (permitProbes sets).map length) = (.ok [45, 52, 37, 45, 52, 37] : JobResult _) := by
    decide +kernel
  obtain ⟨r, hr, hrun⟩ := bind_eq_ok.mp hrun
  obtain ⟨sets, hsets, hrun⟩ := bind_eq_ok.mp hrun
  have hsets := mapError_eq_ok.mp hsets
  have hlen : (permitProbes sets).map length = [45, 52, 37, 45, 52, 37] := ok.inj hrun
  have hfit : Sample.getManyLimits.KeysFit (permitProbes sets) := by
    intro key hkey
    have hmem := mem_map_of_mem (f := length) hkey
    rw [hlen] at hmem
    have hall : ∀ n ∈ [45, 52, 37, 45, 52, 37], n ≤ 100 := by decide
    exact hall _ hmem
  refine ⟨r, sets, hr, hsets, by simpa using congrArg length hlen, hfit, ?_⟩
  exact (GetManyLimits.permit_reads_complete Sample.getManyLimits _ _ r _ sets hsets hfit).2.2.1

end AuxCommon
