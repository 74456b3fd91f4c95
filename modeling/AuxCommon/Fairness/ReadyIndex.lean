import AuxCommon.Lib.Bytes
import AuxCommon.Fairness.Run

/-!
# The ready index

Each scope counts the candidates that are routed to it and ready (`ready_count`, `index.rs`). The
counter moves by saturating steps at every change of a record. As long as no scope has more ready
candidates than a `u32` can count, the counters are exact after every run: `rebuild_ready_counts`
would change nothing, and every ready candidate is counted once, in the row of its own scope
(`ready_counts_exact`). Beyond that the counter stops, and stays behind for good
(`ready_count_saturates`).

The relation `CountsReady l m` compares the counters of `l` with the records of a map `m`, which is
`l.candidates` between calls and the map before the change inside one.
-/

namespace AuxCommon

open List Option BitVec Std.ExtTreeMap FairCandidate CandidateRecord OrdMap Function Bool

/-- The record is ready and routed to the scope `s`. -/
def CandidateRecord.readyFor (r : CandidateRecord) (s : FairScope) : Bool :=
  r.state.hasReadyRoute && r.candidate.scope = s

/-- The part of a route that the scope `s` counts. -/
def routeCount (route : Option CandidateRoute) (s : FairScope) : Nat :=
  route.elim 0 fun route => (route.ready && route.scope = s).toNat

/-- The number of ready candidates that are routed to the scope `s`. -/
def readyIn (m : OrdMap JobId CandidateRecord) (s : FairScope) : Nat :=
  OrdMap.count (fun _ r => r.readyFor s) m

namespace FairnessLedger

variable {l l' : FairnessLedger} {s : FairScope} {j : JobId} {m : OrdMap JobId CandidateRecord}
  {r : CandidateRecord} {sel : CandidateSelection} {refresh : IndexRefresh}
  {old new : Option CandidateRoute} {p : FairPermit} {prep : CandidatePreparation}
  {pass : SelectionPass}

/-- The counter of a scope. -/
def readyAt (l : FairnessLedger) (s : FairScope) : Option U32 := l.scopes[s]?.map (·.readyCount)

/-- The counters of `l` count the records of `m`. -/
def CountsReady (l : FairnessLedger) (m : OrdMap JobId CandidateRecord) : Prop :=
  ∀ s n, l.readyAt s = some n → n.toNat = readyIn m s

/-! ## What moves a counter -/

section Counters

variable {s' : FairScope}

theorem readyAt_modifyScope {f : ScopeState → ScopeState}
    (hf : ∀ st, (f st).readyCount = st.readyCount) : (l.modifyScope s f).readyAt s' = l.readyAt s' := by
  rw [readyAt, modifyScope_scopes, Option.map_map, readyAt]
  congr 1
  funext st
  simp only [comp]
  split
  · exact hf st
  · rfl

theorem readyAt_modifyOrder {k : Option OrderingKey} {f : OrderRecord → OrderRecord} :
    (l.modifyOrder k f).readyAt s = l.readyAt s := by
  rw [readyAt, modifyOrder_scopes, readyAt]

theorem readyAt_adjustReadyCount {ready add : Bool} :
    (l.adjustReadyCount s ready add).readyAt s' = (l.readyAt s').map fun n =>
      if ready && s = s' then (if add then n.satAdd 1 else n.satSub 1) else n := by
  unfold adjustReadyCount
  cases ready with
  | false => simp
  | true =>
    rw [if_pos rfl, readyAt, modifyScope_scopes, readyAt, Option.map_map, Option.map_map]
    congr 1
    funext st
    by_cases h : s' = s
    · subst h
      simp [ScopeState.adjustReady]
    · simp [h, Ne.symm h]

theorem routeCount_some {route : CandidateRoute} :
    routeCount (some route) s = 1 ↔ (route.ready && route.scope = s) = true :=
  toNat_eq_one

/-- A route is taken out of the counter of its scope, and the new one put in. -/
theorem readyAt_replaceCandidateRoute : (l.replaceCandidateRoute old new refresh).readyAt s =
      ((l.readyAt s).map fun n => if routeCount old s = 1 then n.satSub 1 else n).map fun n =>
        if routeCount new s = 1 then n.satAdd 1 else n := by
  have hnone : ¬routeCount none s = 1 := Nat.zero_ne_one
  have horder : ∀ (l : FairnessLedger) s' p,
      (l.modifyScope s' (·.advanceOrder p)).readyAt s = l.readyAt s :=
    fun l s' p => readyAt_modifyScope fun _ => rfl
  -- The old route is taken out first, and the new one goes into what is left.
  have hout : (l.replaceCandidateRoute old none refresh).readyAt s =
      (l.readyAt s).map fun n => if routeCount old s = 1 then n.satSub 1 else n := by
    cases old with
    | none => simp [replaceCandidateRoute, hnone]
    | some route =>
      simp only [replaceCandidateRoute, readyAt_adjustReadyCount, routeCount_some,
        false_eq_true, if_false]
  rw [← hout]
  cases new with
  | none => simp [hnone]
  | some route =>
    have hput : l.replaceCandidateRoute old (some route) refresh =
        if route.ready ∧ refresh = IndexRefresh.advanceOrder then
          ((l.replaceCandidateRoute old none refresh).adjustReadyCount route.scope route.ready
            true).modifyScope route.scope (·.advanceOrder route.orderingPosition)
        else (l.replaceCandidateRoute old none refresh).adjustReadyCount route.scope route.ready
          true := rfl
    rw [hput]
    split <;> simp only [horder, readyAt_adjustReadyCount, routeCount_some, if_true]

theorem readyAt_ensureScope {cost : NonZero 16} : (l.ensureScope s cost).readyAt s' =
      if s' = s then some ((l.readyAt s).getD 0) else l.readyAt s' := by
  unfold ensureScope
  split
  · rename_i h
    rw [readyAt, get_insert, readyAt, h, readyAt]
    split <;> rfl
  · rename_i st h
    refine (readyAt_modifyScope (by intro _; rfl)).trans ?_
    split
    · rename_i hs
      subst hs
      rw [readyAt, h]
      rfl
    · rfl

theorem readyAt_releaseCapacity {r : CapacityRelease} :
    (l.releaseCapacity p r).readyAt s = l.readyAt s := by
  unfold releaseCapacity releaseScope
  cases p.primary with
  | none => exact readyAt_modifyOrder.trans (readyAt_modifyScope (by intro _; rfl))
  | some primary =>
    exact readyAt_modifyOrder.trans ((readyAt_modifyScope (by intro _; rfl)).trans
      (readyAt_modifyScope (by intro _; rfl)))

theorem readyAt_restoreReconciledLowVolumeService :
    (l.restoreReconciledLowVolumeService p).readyAt s = l.readyAt s := by
  unfold restoreReconciledLowVolumeService
  split
  · exact readyAt_modifyScope (by intro _; rfl)
  · rfl

theorem readyAt_setScopeWeight {w : NonZero 16} :
    (l.setScopeWeight s w).2.readyAt s' = l.readyAt s' := by
  unfold setScopeWeight
  split
  · rfl
  · refine readyAt_modifyScope fun st => ?_
    unfold ScopeState.setWeight
    split <;> rfl

theorem readyAt_chargeSelection : (l.chargeSelection sel).readyAt s = l.readyAt s := by
  have halign : (l.alignSelectionService sel).readyAt s = l.readyAt s := by
    unfold alignSelectionService
    split
    · rfl
    · dsimp only
      split
      · exact readyAt_modifyScope (by intro _; rfl)
      · exact (readyAt_modifyScope (by intro _; rfl)).trans (readyAt_modifyScope (by intro _; rfl))
  have hscope : ((l.alignSelectionService sel).acquireScope sel.scope sel.costUnits.get
      .service).readyAt s = l.readyAt s := (readyAt_modifyScope (by intro _; rfl)).trans halign
  unfold chargeSelection
  rw [readyAt_modifyOrder]
  split
  · exact hscope
  · exact (readyAt_modifyScope (by intro _; rfl)).trans hscope

theorem readyAt_advanceServiceClocks
    : (l.advanceServiceClocks sel prep pass).readyAt s = l.readyAt s := by
  unfold advanceServiceClocks
  split
  · rfl
  · dsimp only
    split
    · exact readyAt_modifyScope (by intro _; rfl)
    · exact (readyAt_modifyScope (by intro _; rfl) :
        (l.modifyScope _ (·.advanceChildClock prep.childMinimum)).readyAt s = _)

end Counters

/-! ## One change of a record -/

theorem routeCount_fromRecord (r : CandidateRecord) (s : FairScope) :
    routeCount (some (.fromRecord r)) s = (r.readyFor s).toNat := rfl

theorem routeCount_route (l : FairnessLedger) (j : JobId) (s : FairScope) :
    routeCount (l.route j) s = l.candidates[j]?.elim 0 fun r => (r.readyFor s).toNat := by
  unfold route
  cases l.candidates[j]? <;> rfl

/-- The counters follow a change of the records when the routes that are moved say what the change
does to each scope. -/
theorem CountsReady.replace {m' : OrdMap JobId CandidateRecord} (h : l.CountsReady m)
    (hchange : ∀ s, readyIn m' s + routeCount old s = readyIn m s + routeCount new s)
    (hold : ∀ s, routeCount old s ≤ readyIn m s) (hmax : ∀ s, readyIn m' s < 2 ^ 32) :
    (l.replaceCandidateRoute old new refresh).CountsReady m' := by
  intro s n hn
  rw [readyAt_replaceCandidateRoute, Option.map_map] at hn
  obtain ⟨n₀, hn₀, rfl⟩ := Option.map_eq_some_iff.mp hn
  have hcount := h s n₀ hn₀
  have hs := hchange s
  have hos := hold s
  have hms := hmax s
  have hle : ∀ route, routeCount route s ≤ 1 := by
    intro route
    cases route with
    | none => exact Nat.zero_le _
    | some route => exact toNat_le _
  have ho := hle old
  have hnew := hle new
  have hone : (1 : U32).toNat = 1 := rfl
  simp only [comp]
  split <;> split <;> simp only [toNat_satAdd, toNat_satSub, hone, hcount] <;> omega

theorem CountsReady.congr (h : l.CountsReady m) (hready : ∀ s, l'.readyAt s = l.readyAt s) :
    l'.CountsReady m := by
  intro s n hn
  rw [hready] at hn
  exact h s n hn

theorem readyIn_empty : readyIn ∅ s = 0 :=
  total_empty (f := fun (_ : JobId) (r : CandidateRecord) => (r.readyFor s).toNat)

theorem readyIn_insert : readyIn (m.insert j r) s + m[j]?.elim 0 (fun r => (r.readyFor s).toNat) =
      readyIn m s + (r.readyFor s).toNat :=
  total_insert (f := fun _ (r : CandidateRecord) => (r.readyFor s).toNat)

theorem readyIn_le (hr : m[j]? = some r) (s : FairScope) : (r.readyFor s).toNat ≤ readyIn m s :=
  le_total (f := fun _ (r : CandidateRecord) => (r.readyFor s).toNat) hr

/-- No scope has more ready candidates than its counter can hold. -/
def Countable (l : FairnessLedger) : Prop := ∀ s, readyIn l.candidates s < 2 ^ 32

/-- A change of one record, after steps that leave the records and the counters alone. -/
theorem CountsReady.update (h : l.CountsReady l.candidates) (hcand : l'.candidates = l.candidates)
    (hready : ∀ s, l'.readyAt s = l.readyAt s)
    (hr : l.candidates[j]? = some r) {f : CandidateRecord → CandidateRecord}
    (hmax : (l'.updateRecord j (some (.fromRecord r)) f).Countable) :
    (l'.updateRecord j (some (.fromRecord r)) f).CountsReady
      (l'.updateRecord j (some (.fromRecord r)) f).candidates := by
  unfold Countable at hmax
  rw [updateRecord_candidates, hcand] at hmax ⊢
  have hget : (l'.modifyCandidate j f).candidates[j]? = some (f r) := by
    rw [modifyCandidate_candidates, get_modify, hcand, hr]
    simp
  refine CountsReady.replace (m := l.candidates) ?_ (fun s => ?_) (fun s => ?_) hmax
  · exact (h.congr hready).congr fun _ => rfl
  · rw [routeCount_route, hget, routeCount_fromRecord]
    exact total_modify (f := fun _ (r : CandidateRecord) => (r.readyFor s).toNat) hr
  · rw [routeCount_fromRecord]
    exact readyIn_le hr s

/-- A record that is put registers its scopes, which start with nothing to count. -/
theorem CountsReady.register (h : l.CountsReady l.candidates) (hcov : l.Covered)
    (c : FairCandidate) : (l.registerCandidate c).CountsReady l.candidates := by
  have hensure : ∀ {l₁ : FairnessLedger} {s₁ : FairScope} {cost : NonZero 16},
      l₁.CountsReady l.candidates → (∀ s, l₁.readyAt s = none → readyIn l.candidates s = 0) →
      (l₁.ensureScope s₁ cost).CountsReady l.candidates ∧
        ∀ s, (l₁.ensureScope s₁ cost).readyAt s = none → readyIn l.candidates s = 0 := by
    intro l₁ s₁ cost h₁ hnone
    refine ⟨fun s n hn => ?_, fun s hs => ?_⟩
    · rw [readyAt_ensureScope] at hn
      split at hn
      · rename_i hs
        subst hs
        cases hr : l₁.readyAt s with
        | none =>
          rw [hr] at hn
          cases hn
          exact (hnone s hr).symm
        | some n' =>
          rw [hr] at hn
          cases hn
          exact h₁ s _ hr
      · exact h₁ s n hn
    · rw [readyAt_ensureScope] at hs
      split at hs
      · cases hs
      · exact hnone s hs
  have hnone : ∀ s, l.readyAt s = none → readyIn l.candidates s = 0 := by
    intro s hs
    refine (total_eq_zero (m := l.candidates)
      (f := fun _ (r : CandidateRecord) => (r.readyFor s).toNat)).mpr fun j r hr => ?_
    rw [toNat_eq_zero]
    by_contra hready
    rw [not_eq_false, readyFor, and_eq_true, decide_eq_true_eq] at hready
    have hsome := hcov j r s hr (by simp [chargedTo, hready.2])
    rw [coreAt, isSome_map] at hsome
    rw [readyAt, map_eq_none_iff] at hs
    rw [hs] at hsome
    cases hsome
  have hscopes : (l.ensureCandidateScopes c).CountsReady l.candidates := by
    unfold ensureCandidateScopes
    cases c.scope.parent with
    | none => exact (hensure h hnone).1
    | some primary => exact (hensure (hensure h hnone).1 (hensure h hnone).2).1
  unfold registerCandidate
  cases c.orderingKey <;> exact hscopes

theorem CountsReady.put (h : l.CountsReady l.candidates) (hcov : l.Covered)
    {record : CandidateRecord}
    (hmax : ∀ s, readyIn (l.candidates.insert record.candidate.jobId record) s < 2 ^ 32) :
    (l.putCandidate record (l.route record.candidate.jobId) refresh).CountsReady
      (l.candidates.insert record.candidate.jobId record) := by
  refine CountsReady.replace (m := l.candidates) ?_ (fun s => ?_) (fun s => ?_) hmax
  · exact fun s n hn => h.register hcov record.candidate s n hn
  · rw [routeCount_route, routeCount_route]
    rw [get_insert_self]
    exact readyIn_insert
  · rw [routeCount_route]
    cases hr : l.candidates[record.candidate.jobId]? with
    | none => exact Nat.zero_le _
    | some r => exact readyIn_le hr s

theorem CountsReady.drop (h : l.CountsReady l.candidates)
    (hr : l.candidates[j]? = some r) (hmax : ∀ s, readyIn (l.candidates.erase j) s < 2 ^ 32) :
    (l.dropCandidate j r).CountsReady (l.candidates.erase j) := by
  have hroute : (replaceCandidateRoute { l with candidates := l.candidates.erase j }
      (some (.fromRecord r)) none .preserveOrder).CountsReady (l.candidates.erase j) := by
    refine CountsReady.replace (m := l.candidates) ?_ (fun s => ?_) (fun s => ?_) hmax
    · exact fun s n hn => h s n hn
    · have := total_erase (m := l.candidates) (k := j)
        (f := fun _ (r : CandidateRecord) => (r.readyFor s).toNat)
      rw [hr] at this
      exact this
    · exact readyIn_le hr s
  unfold dropCandidate
  cases r.candidate.orderingKey with
  | none => exact hroute
  | some key =>
    dsimp only
    split <;> exact hroute

/-! ## Every call -/

/-- A change of the records that leaves every route alone. -/
theorem CountsReady.sameRoutes (h : l.CountsReady l.candidates)
    (hready : ∀ s, l'.readyAt s = l.readyAt s)
    (hroute : ∀ j : JobId, l'.candidates[j]?.map CandidateRoute.fromRecord =
      l.candidates[j]?.map CandidateRoute.fromRecord) : l'.CountsReady l'.candidates := by
  intro s n hn
  rw [hready] at hn
  rw [h s n hn]
  exact (total_part (f := fun _ route => routeCount (some route) s) hroute).symm

theorem route_eq (hr : l.candidates[j]? = some r) : l.route j = some (.fromRecord r) := by
  rw [route, hr]
  rfl

theorem CountsReady.upToReset (h : l.CountsReady l.candidates) (hreset : l.UpToReset l') :
    l'.CountsReady l'.candidates := by
  rcases hreset with rfl | rfl
  · exact h
  · refine h.sameRoutes (fun _ => rfl) fun j => ?_
    rw [resetPriorityWindow_get, Option.map_map]
    rfl

theorem CountsReady.settle (h : l.CountsReady l.candidates) {o : FairRelease}
    (hr : l.candidates[p.jobId]? = some r)
    (hmax : (l.applySettlement p o).Countable) :
    (l.applySettlement p o).CountsReady (l.applySettlement p o).candidates := by
  unfold applySettlement at hmax ⊢
  rw [route_eq hr] at hmax ⊢
  refine h.update ?_ (fun s => ?_) hr hmax
  · split <;> simp [releaseCapacity_frame]
  · split
    · exact readyAt_modifyOrder.trans readyAt_releaseCapacity
    · exact readyAt_releaseCapacity

theorem CountsReady.select (h : l.CountsReady l.candidates) (hr : l.candidates[sel.jobId]? = some r)
    (hmax : (l.settleSelection sel prep pass).2.Countable) :
    (l.settleSelection sel prep pass).2.CountsReady (l.settleSelection sel prep pass).2.candidates := by
  have hroute : (l.advanceServiceClocks sel prep pass).route sel.jobId = some (.fromRecord r) :=
    route_eq (by rw [advanceServiceClocks_frame.2.1]; exact hr)
  unfold settleSelection at hmax ⊢
  dsimp only at hmax ⊢
  rw [hroute] at hmax ⊢
  refine h.update ?_ (fun s => ?_) hr hmax
  · exact chargeSelection_frame.2.1.trans advanceServiceClocks_frame.2.1
  · exact (readyAt_chargeSelection (l := l.advanceServiceClocks sel prep pass)).trans
      readyAt_advanceServiceClocks

/-- Every call keeps the counters exact, as long as they can hold the counts. -/
theorem CountsReady.effect (h : l.CountsReady l.candidates) (hw : l.WellFormed) {op : LedgerOp}
    (heff : l.Effect op l') (hmax : l'.Countable) : l'.CountsReady l'.candidates := by
  cases heff with
  | unchanged => exact h
  | @added input c valid puts fresh =>
    unfold Countable at hmax
    rw [putCandidate_candidates] at hmax ⊢
    have hnone : l.route (scheduled c).candidate.jobId = none := by
      rw [route, Option.map_eq_none_iff]
      exact fresh
    rw [← hnone]
    exact h.put hw.covered hmax
  | upserted valid puts next =>
    unfold Countable at hmax
    rw [putCandidate_candidates] at hmax ⊢
    exact h.put hw.covered hmax
  | refused reset => exact h.upToReset reset
  | @selected _ _ l₀ record g prepared prep reset chosen =>
    have hkeyed := hw.keyed.upToReset reset _ _ chosen.validated.get
    refine (h.upToReset reset).select (r := record) ?_ hmax
    change l₀.candidates[record.candidate.jobId]? = _
    rw [hkeyed]
    exact chosen.validated.get
  | released get => exact h.settle get hmax
  | deferred get =>
    rw [route_eq get] at hmax ⊢
    exact h.update rfl (fun _ => rfl) get hmax
  | settled get =>
    unfold Countable at hmax
    rw [restoreReconciledLowVolumeService_frame.2.1] at hmax ⊢
    exact (h.settle get hmax).congr fun _ => readyAt_restoreReconciledLowVolumeService
  | removed get =>
    rw [route_eq get] at hmax ⊢
    exact h.update rfl (fun _ => rfl) get hmax
  | reconciled get =>
    refine h.update ?_ (fun s => ?_) get hmax
    · exact restoreReconciledLowVolumeService_frame.2.1.trans releaseCapacity_frame.2.1
    · exact readyAt_restoreReconciledLowVolumeService.trans readyAt_releaseCapacity
  | weighted =>
    rw [setScopeWeight_frame.2.1]
    exact h.congr fun _ => readyAt_setScopeWeight
  | served =>
    refine h.sameRoutes (fun _ => rfl) fun j => ?_
    rw [modifyCandidate_candidates, get_modify, Option.map_map]
    congr 1
    funext r
    simp only [comp]
    split <;> rfl
  | compacted get =>
    unfold Countable at hmax
    rw [dropCandidate_frame.2.1] at hmax ⊢
    exact h.drop get hmax
  | compactedScopes =>
    intro s n hn
    obtain ⟨st, hst, rfl⟩ := Option.map_eq_some_iff.mp hn
    refine h s _ ?_
    rw [readyAt, (compactEmptyScopes_get.mp hst).1]
    rfl

/-- Calls after which every counter can hold its count. -/
def StaysCountable (l : FairnessLedger) (op : LedgerOp) : Prop := (l.apply op).Countable

theorem CountsReady.run {b : FairnessBudget} (h : RunFrom StaysCountable (.new b) l) :
    l.WellFormed ∧ l.Countable ∧ l.CountsReady l.candidates := by
  refine h.invariant (I := fun l => l.WellFormed ∧ l.Countable ∧ l.CountsReady l.candidates) ?_
    ⟨.new b, fun s => ?_, fun s n hn => ?_⟩
  · rintro l op l' ⟨hw, -, hc⟩ hmax rfl
    exact ⟨hw.effect (apply_effect op), hmax, hc.effect hw (apply_effect op) hmax⟩
  · rw [FairnessLedger.new, readyIn_empty]
    exact Nat.two_pow_pos 32
  · simp [FairnessLedger.new, readyAt] at hn

/-! ## Rebuilding the counters -/

section Rebuild

/-- A counter after `k` saturating steps. -/
def bump (n : U32) (k : Nat) : U32 := BitVec.ofNat 32 (min (n.toNat + k) (2 ^ 32 - 1))

theorem toNat_bump (n : U32) (k : Nat) : (bump n k).toNat = min (n.toNat + k) (2 ^ 32 - 1) := by
  rw [bump, toNat_ofNat]
  exact Nat.mod_eq_of_lt (by omega)

theorem bump_satAdd (n : U32) (k : Nat) : bump (n.satAdd 1) k = bump n (k + 1) := by
  refine eq_of_toNat_eq ?_
  rw [toNat_bump, toNat_bump, toNat_satAdd]
  change min (min (_ + 1) _ + k) _ = _
  omega

theorem satAdd_bump (n : U32) (k : Nat) : (bump n k).satAdd 1 = bump n (k + 1) := by
  refine eq_of_toNat_eq ?_
  rw [toNat_bump, toNat_satAdd, toNat_bump]
  change min (min _ _ + 1) _ = _
  omega

/-- The counting loop of `rebuild_ready_counts`. -/
theorem foldl_adjustReadyCount (xs : List FairScope) (l : FairnessLedger) : (∀ s : FairScope,
      (xs.foldl (fun l scope => l.adjustReadyCount scope true true) l).scopes[s]? =
        l.scopes[s]?.map fun st : ScopeState =>
          { st with readyCount := bump st.readyCount (xs.count s) }) ∧
      xs.foldl (fun l scope => l.adjustReadyCount scope true true) l =
        { l with scopes := (xs.foldl (fun l scope => l.adjustReadyCount scope true true) l).scopes } := by
  induction xs generalizing l with
  | nil =>
    refine ⟨fun s => ?_, rfl⟩
    have hzero : ∀ n : U32, bump n 0 = n := fun n =>
      eq_of_toNat_eq (by rw [toNat_bump]; have := n.isLt; omega)
    simp [hzero]
  | cons x xs ih =>
    obtain ⟨hscopes, hframe⟩ := ih (l.adjustReadyCount x true true)
    refine ⟨fun s => ?_, hframe⟩
    rw [foldl_cons, hscopes, adjustReadyCount, if_pos rfl, modifyScope_scopes, Option.map_map]
    congr 1
    funext st
    by_cases h : s = x
    · subst h
      simp only [comp, if_true, count_cons_self, ScopeState.adjustReady, bump_satAdd]
    · simp only [comp, h, if_false, count_cons_of_ne (Ne.symm h)]

theorem count_readyScopes (es : List (JobId × CandidateRecord)) (s : FairScope) :
    ((es.filter (·.2.state.hasReadyRoute)).map (·.2.candidate.scope)).count s =
      (es.map fun e => (e.2.readyFor s).toNat).sum := by
  induction es with
  | nil => rfl
  | cons e es ih =>
    rw [map_cons, sum_cons, ← ih, readyFor]
    by_cases hready : e.2.state.hasReadyRoute = true
    · by_cases hs : e.2.candidate.scope = s
      · simp [hready, hs, Nat.add_comm]
      · simp [hready, hs]
    · simp [hready]

/-- With exact counters, rebuilding them changes nothing. -/
theorem CountsReady.rebuild (h : l.CountsReady l.candidates) : l.rebuildReadyCounts = l := by
  obtain ⟨hscopes, hframe⟩ := foldl_adjustReadyCount
    ((l.candidates.toList.filter (·.2.state.hasReadyRoute)).map (·.2.candidate.scope))
    { l with scopes := l.scopes.map fun _ st => { st with readyCount := 0 } }
  unfold rebuildReadyCounts
  rw [hframe]
  refine congrArg (fun scopes => { l with scopes }) (Std.ExtTreeMap.ext_getElem? fun s => ?_)
  rw [hscopes, count_readyScopes, Std.ExtTreeMap.getElem?_map, Option.map_map]
  cases hs : l.scopes[s]? with
  | none => rfl
  | some st =>
    have hcount := h s st.readyCount (by rw [readyAt, hs]; rfl)
    have hbump : bump 0 ((l.candidates.toList.map fun e => (e.2.readyFor s).toNat).sum) =
        st.readyCount := by
      refine eq_of_toNat_eq ?_
      have hlt := st.readyCount.isLt
      change _ = (l.candidates.toList.map fun e => (e.2.readyFor s).toNat).sum at hcount
      rw [toNat_bump, ← hcount]
      change min (0 + _) _ = _
      omega
    simp only [Option.map_some, comp, hbump]

end Rebuild

/-! ## Every ready candidate is counted once -/

theorem sum_scopes_readyFor {scopes : OrdMap FairScope ScopeState}
    (h : scopes.contains r.candidate.scope = true) :
    (scopes.toList.map fun x => (r.readyFor x.1).toNat).sum = r.state.hasReadyRoute.toNat := by
  have hmem : r.candidate.scope ∈ scopes.toList.map (·.1) := by
    rw [map_fst_toList_eq_keys, Std.ExtTreeMap.mem_keys]
    exact h
  have hone := count_eq_one_of_mem OrdMap.nodup_keys hmem
  have hcount : ∀ xs : List (FairScope × ScopeState), (xs.map fun x => (r.readyFor x.1).toNat).sum =
        r.state.hasReadyRoute.toNat * (xs.map (·.1)).count r.candidate.scope := by
    intro xs
    induction xs with
    | nil => rfl
    | cons x xs ih =>
      rw [map_cons, sum_cons, ih, map_cons, count_cons, Nat.mul_add, Nat.add_comm, readyFor]
      cases r.state.hasReadyRoute with
      | false => simp
      | true =>
        by_cases hs : r.candidate.scope = x.1
        · simp [hs]
        · simp [hs, Ne.symm hs]
  rw [hcount, hone, Nat.mul_one]

/-- The counters add up to the number of ready candidates. -/
theorem CountsReady.total (h : l.CountsReady l.candidates) (hcov : l.Covered) :
    OrdMap.total (fun _ st => st.readyCount.toNat) l.scopes =
      OrdMap.count (fun _ r => r.state.hasReadyRoute) l.candidates := by
  have hcount : OrdMap.total (fun _ st => st.readyCount.toNat) l.scopes =
      OrdMap.total (fun s _ => readyIn l.candidates s) l.scopes :=
    OrdMap.total_congr fun s st hs => h s _ (by rw [readyAt, hs]; rfl)
  have hin : ∀ e ∈ l.candidates.toList, l.scopes.contains e.2.candidate.scope = true := by
    intro e he
    have hsome := hcov _ _ e.2.candidate.scope (OrdMap.mem_toList.mp he) (by simp [chargedTo])
    rw [coreAt, isSome_map] at hsome
    rw [← isSome_getElem?_eq_contains]
    exact hsome
  rw [hcount]
  unfold OrdMap.total readyIn OrdMap.count OrdMap.total
  -- both sides add the same table, by rows and by columns
  generalize l.candidates.toList = es at hin ⊢
  induction es with
  | nil => simp
  | cons e es ih =>
    simp only [map_cons, sum_cons, sum_map_add]
    rw [ih fun e' he' => hin e' (mem_cons_of_mem _ he'), sum_scopes_readyFor (hin e mem_cons_self)]

/-- After every run in which no scope ever has more than `u32::MAX` ready candidates: each counter
is the number of ready candidates routed to its scope, rebuilding the counters changes nothing, and
every ready candidate is in the row of its own scope and counted once. -/
theorem ready_counts_exact {b : FairnessBudget} {l : FairnessLedger}
    (hrun : RunFrom StaysCountable (.new b) l) :
    (∀ s st, l.scopes[s]? = some st → st.readyCount.toNat = readyIn l.candidates s) ∧
      l.rebuildReadyCounts = l ∧
      (∀ (j : JobId) r, l.candidates[j]? = some r → l.scopes.contains r.candidate.scope = true) ∧
      OrdMap.total (fun _ st => st.readyCount.toNat) l.scopes =
        OrdMap.count (fun _ r => r.state.hasReadyRoute) l.candidates := by
  obtain ⟨hw, -, hc⟩ := CountsReady.run hrun
  refine ⟨fun s st hst => ?_, hc.rebuild, fun j r hr => ?_, hc.total hw.covered⟩
  · exact hc s st.readyCount (by rw [readyAt, hst]; rfl)
  · have hsome := hw.covered j r r.candidate.scope hr (by simp [chargedTo])
    rw [coreAt, isSome_map] at hsome
    rw [← isSome_getElem?_eq_contains]
    exact hsome

theorem readyIn_le_count (m : OrdMap JobId CandidateRecord) (s : FairScope) :
    readyIn m s ≤ OrdMap.count (fun _ (r : CandidateRecord) => r.state.hasReadyRoute) m := by
  unfold readyIn OrdMap.count
  refine OrdMap.total_mono fun _ r _ => ?_
  change (r.state.hasReadyRoute && r.candidate.scope = s).toNat ≤ r.state.hasReadyRoute.toNat
  cases r.state.hasReadyRoute with
  | false => exact Nat.zero_le _
  | true => exact toNat_le _

/-- Two candidates of one primary, of which the first is selected and put back. -/
def readySample : List LedgerOp :=
  [.add (.plain 1 7), .add (.plain 2 7), .select ⟨8⟩ {.repeated 1}, .release (.plain 1 7) .conflict]

theorem ready_counts_exact_sample :
    let selected := (readySample.take 3).foldl apply (.new .tiny)
    let l := readySample.foldl apply (.new .tiny)
    OrdMap.total (fun _ st => st.readyCount.toNat) selected.scopes = 1 ∧
      l.rebuildReadyCounts = l ∧ OrdMap.total (fun _ st => st.readyCount.toNat) l.scopes = 2 := by
  intro selected l
  -- no counter can exceed the number of candidates, which is 2 at most
  let few (l : FairnessLedger) (op : LedgerOp) : Prop :=
    count (fun _ (r : CandidateRecord) => r.state.hasReadyRoute) (l.apply op).candidates ≤ 2
  have hfew : ∀ l op, few l op → StaysCountable l op := fun l op h s =>
    ((readyIn_le_count _ s).trans h).trans_lt (by decide)
  have hselected : RunFrom few (.new .tiny) selected := .ofList (by decide +kernel)
  have hrun : RunFrom few (.new .tiny) l := .ofList (by decide +kernel)
  obtain ⟨-, -, -, hone⟩ := ready_counts_exact (hselected.mono hfew)
  obtain ⟨-, hrebuild, -, htwo⟩ := ready_counts_exact (hrun.mono hfew)
  exact ⟨hone.trans (by decide +kernel), hrebuild, htwo.trans (by decide +kernel)⟩

/-! ## A counter that stops -/

theorem size_beBytes (n x : Nat) : (beBytes n x).toArray.size = n := by simp

/-- The job whose id is the number `i`. -/
def numbered (i : Nat) : JobId := ⟨⟨(beBytes opaqueIdBytes i).toArray, size_beBytes _ _⟩⟩

theorem numbered_inj {i k : Nat} (hi : i < 256 ^ 16) (hk : k < 256 ^ 16)
    (h : numbered i = numbered k) : i = k := by
  have hbytes := congrArg (fun id : JobId => id.bytes.toArray.toList) h
  exact beBytes_inj hi hk hbytes

/-- A candidate of the primary 7 with a numbered id. -/
def numberedInput (i : Nat) : FairCandidateInput :=
  { FairCandidateInput.plain 0 7 with jobId := numbered i }

/-- The scope of the numbered candidates. -/
def crowded : FairScope := FairScope.ofClass (numberedInput 0).fairness

theorem addCandidate_numbered {i : Nat} (h : l.candidates[numbered i]? = none) :
    ∃ c, c.jobId = numbered i ∧ c.scope = crowded ∧
      l.apply (.add (numberedInput i)) = l.putCandidate (.scheduled c) none .advanceOrder := by
  rcases addCandidate_cases l (numberedInput i) with ⟨e, he⟩ | ⟨c, hc, -, -, hadd⟩
  · have hcontains : l.candidates.contains (numbered i) = false := by
      rw [← isSome_getElem?_eq_contains, h]
      rfl
    have hok : tryFrom (numberedInput i) = .ok _ := rfl
    rw [addCandidate, hok] at he
    dsimp only at he
    rw [if_neg (by rw [show (numberedInput i).jobId = numbered i from rfl, hcontains]; simp)] at he
    cases congrArg Prod.fst he
  · cases hc
    exact ⟨_, rfl, rfl, congrArg Prod.snd hadd⟩

/-- Adding `n` candidates to one scope: the counter follows until it is full. -/
theorem crowded_run (n : Nat) (hn : n < 256 ^ 16) :
    ∃ l, RunFrom (fun _ _ => True) (.new .tiny) l ∧ readyIn l.candidates crowded = n ∧
      (l.readyAt crowded).getD 0 = bump 0 n ∧
      ∀ i, n ≤ i → i < 256 ^ 16 → l.candidates[numbered i]? = none := by
  induction n with
  | zero =>
    refine ⟨_, .refl, readyIn_empty, ?_, fun i _ _ => ?_⟩
    · simp [FairnessLedger.new, readyAt, bump]
    · simp [FairnessLedger.new]
  | succ n ih =>
    obtain ⟨l, hrun, hcount, hready, hfree⟩ := ih (by omega)
    have hnone := hfree n le_rfl (by omega)
    obtain ⟨c, hjob, hscope, happly⟩ := addCandidate_numbered hnone
    have hone : ((scheduled c).readyFor crowded).toNat = 1 := by
      simp [readyFor, scheduled, hscope, FairCandidateState.hasReadyRoute]
    refine ⟨l.apply (.add (numberedInput n)), hrun.tail trivial rfl, ?_, ?_, fun i hi hlt => ?_⟩
    · rw [happly, putCandidate_candidates]
      have hinsert := readyIn_insert (m := l.candidates) (j := c.jobId) (s := crowded)
        (r := .scheduled c)
      rw [hjob, hnone, hone, hcount] at hinsert
      change readyIn (l.candidates.insert c.jobId _) _ = _
      rw [hjob]
      exact hinsert
    · have hregister : (l.registerCandidate c).readyAt crowded = some (bump 0 n) := by
        have hparent : c.scope.parent = none := by rw [hscope]; rfl
        have hensure : (l.ensureCandidateScopes c).readyAt crowded = some (bump 0 n) := by
          rw [ensureCandidateScopes, hparent, readyAt_ensureScope, hscope, if_pos rfl, hready]
        unfold registerCandidate
        cases c.orderingKey <;> exact hensure
      have hroute : (putCandidate l (.scheduled c) none .advanceOrder).readyAt crowded =
          some (bump 0 (n + 1)) := by
        rw [putCandidate, readyAt_replaceCandidateRoute, routeCount_route]
        rw [get_insert_self, elim_some, hone, readyAt]
        change ((((l.registerCandidate c).readyAt crowded).map _).map _) = _
        rw [hregister]
        exact congrArg some (satAdd_bump 0 n)
      rw [happly, hroute]
      rfl
    · rw [happly, putCandidate_candidates, get_insert]
      rw [if_neg]
      · exact hfree i (by omega) hlt
      · change numbered i ≠ c.jobId
        rw [hjob]
        intro h
        have := numbered_inj hlt (by omega) h
        omega

/-- With `2 ^ 32` candidates in one scope, all of them ready, its counter says one less. -/
theorem ready_count_saturates :
    ∃ l st, RunFrom (fun _ _ => True) (.new .tiny) l ∧ l.scopes[crowded]? = some st ∧
      readyIn l.candidates crowded = 2 ^ 32 ∧ st.readyCount.toNat = 2 ^ 32 - 1 := by
  obtain ⟨l, hrun, hcount, hready, -⟩ := crowded_run (2 ^ 32) (by decide)
  have hfull : ((l.readyAt crowded).getD 0).toNat = 2 ^ 32 - 1 := by
    rw [hready, toNat_bump]
    exact Nat.min_eq_right (by decide)
  cases hst : l.scopes[crowded]? with
  | none =>
    rw [readyAt, hst] at hfull
    cases hfull
  | some st =>
    rw [readyAt, hst] at hfull
    exact ⟨l, st, hrun, hst, hcount, hfull⟩

end FairnessLedger

end AuxCommon
