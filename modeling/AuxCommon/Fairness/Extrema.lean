import AuxCommon.Lib.TwoLeast
import AuxCommon.Fairness.Preparation

/-!
# The extrema of a pass

`ServiceExtrema` keeps the two least and the two greatest services of the primaries that have a
candidate which admission could take. It is the structure of `AuxCommon.Lib.TwoLeast` twice, once
for each order (`lows`, `highs`), and `serviceExtrema_summarises` says which primaries it sees:
those of the candidates that are `Eligible` in the pass.
`allows_eq_scan` compares it with a scan over all the others.
-/

namespace AuxCommon

open List TwoLeast OrderDual

variable (i : Nat)

namespace ServiceExtrema

/-- The least services. -/
def lows (e : ServiceExtrema) : TwoLeast Nat U128 := ⟨e.min, e.secondMin⟩

/-- The greatest services. -/
def highs (e : ServiceExtrema) : TwoLeast Nat U128 := ⟨e.max, e.secondMax⟩

variable (v : U128)

/-- The rank that makes the greatest service the least one. -/
def highRank : OrderDual Nat := .toDual v.toNat

variable {e : ServiceExtrema} {xs : List (Nat × U128)}

-- The two halves of `insert`, one for each order.
private def insertLow (e : ServiceExtrema) (i : Nat) (v : U128) : ServiceExtrema :=
  match e.min with
  | none => { e with min := some (i, v) }
  | some (_, m) =>
    if v < m then { e with secondMin := some m, min := some (i, v) }
    else { e with secondMin := match e.secondMin with
      | none => some v
      | some b => if v < b then some v else some b }

private def insertHigh (e : ServiceExtrema) (i : Nat) (v : U128) : ServiceExtrema :=
  match e.max with
  | none => { e with max := some (i, v) }
  | some (_, m) =>
    if m < v then { e with secondMax := some m, max := some (i, v) }
    else { e with secondMax := match e.secondMax with
      | none => some v
      | some b => if b < v then some v else some b }

private theorem insert_eq :
    e.insert i v = (insertLow { e with count := e.count + 1 } i v).insertHigh i v := rfl

private theorem insertLow_spec : (e.insertLow i v).lows = e.lows.insert BitVec.toNat i v ∧
      (e.insertLow i v).highs = e.highs ∧ (e.insertLow i v).count = e.count := by
  unfold insertLow lows TwoLeast.insert TwoLeast.lesser
  rcases e.min with _ | ⟨k, m⟩
  · exact ⟨rfl, rfl, rfl⟩
  · dsimp only
    simp only [BitVec.lt_def]
    split
    · exact ⟨rfl, rfl, rfl⟩
    · refine ⟨?_, rfl, rfl⟩
      cases e.secondMin with
      | none => rfl
      | some b => dsimp only; split <;> rfl

private theorem insertHigh_spec : (e.insertHigh i v).highs = e.highs.insert highRank i v ∧
      (e.insertHigh i v).lows = e.lows ∧ (e.insertHigh i v).count = e.count := by
  unfold insertHigh highs TwoLeast.insert TwoLeast.lesser highRank
  rcases e.max with _ | ⟨k, m⟩
  · exact ⟨rfl, rfl, rfl⟩
  · dsimp only
    simp only [BitVec.lt_def, toDual_lt_toDual]
    split
    · exact ⟨rfl, rfl, rfl⟩
    · refine ⟨?_, rfl, rfl⟩
      cases e.secondMax with
      | none => rfl
      | some b => dsimp only; split <;> rfl

theorem lows_insert : (e.insert i v).lows = e.lows.insert BitVec.toNat i v := by
  rw [insert_eq, (insertHigh_spec i v).2.1, (insertLow_spec i v).1]
  rfl

theorem highs_insert : (e.insert i v).highs = e.highs.insert highRank i v := by
  rw [insert_eq, (insertHigh_spec i v).1, (insertLow_spec i v).2.1]
  rfl

theorem count_insert : (e.insert i v).count = e.count + 1 := by
  rw [insert_eq, (insertHigh_spec i v).2.2, (insertLow_spec i v).2.2]

theorem minimumExcept_eq : e.minimumExcept i = e.lows.except i := by
  unfold minimumExcept lows except
  rcases e.min with _ | ⟨k, m⟩ <;> rfl

theorem maximumExcept_eq : e.maximumExcept i = e.highs.except i := by
  unfold maximumExcept highs except
  rcases e.max with _ | ⟨k, m⟩ <;> rfl

/-- `e` summarises the services `xs`, each under the index of its primary. -/
structure Summarises (e : ServiceExtrema) (xs : List (Nat × U128)) : Prop where
  count : e.count = xs.length
  lows : e.lows.Tracks BitVec.toNat xs
  highs : e.highs.Tracks highRank xs

theorem Summarises.init : Summarises {} [] := ⟨rfl, .init, .init⟩

theorem Summarises.insert {i : Nat} {v : U128} (h : e.Summarises xs) (hi : ∀ x ∈ xs, x.1 ≠ i) :
    (e.insert i v).Summarises (xs ++ [(i, v)]) := by
  refine ⟨?_, ?_, ?_⟩
  · rw [count_insert, h.count, length_append, length_singleton]
  · rw [lows_insert]; exact h.lows.insert hi
  · rw [highs_insert]; exact h.highs.insert hi

/-- A service that the extrema allow is within the bound of every other primary. -/
theorem Summarises.le_of_allows (h : e.Summarises xs) {i k : Nat} {u v service bound : U128}
    (hself : (i, u) ∈ xs) (hother : (k, v) ∈ xs) (hne : k ≠ i)
    (ha : e.allows i service bound = true) : service.toNat ≤ v.toNat + bound.toNat := by
  have hcount : ¬e.count ≤ 1 := by
    rw [h.count]
    rcases xs with _ | ⟨x, _ | ⟨y, ys⟩⟩
    · cases hself
    · rw [mem_singleton] at hself hother
      exact absurd (congrArg Prod.fst (hother.trans hself.symm)) hne
    · simp
  obtain ⟨least, hleast, hle⟩ := (h.lows.except i).le (k, v) ⟨hother, hne⟩
  rw [allows, if_neg hcount, Bool.and_eq_true, minimumExcept_eq, hleast] at ha
  simp only [Option.all_some, decide_eq_true_eq, BitVec.le_def, BitVec.toNat_absDiff] at ha
  dsimp only at hle
  omega

/-! ### The scan that the extrema stand for -/

/-- The extrema of `xs`, inserted in order. -/
def ofList (xs : List (Nat × U128)) : ServiceExtrema :=
  xs.foldl (fun e x => e.insert x.1 x.2) {}

/-- `v` is at most `b` away from `s`. -/
abbrev Near (s b v : Nat) : Prop := (s - v) + (v - s) ≤ b

/-- The service compared with the least and with the greatest of the others. -/
def scanAllows (xs : List (Nat × U128)) (primaryIndex : Nat) (service bound : U128) : Bool :=
  let others := (xs.filter fun x => x.1 ≠ primaryIndex).map fun x => x.2.toNat
  others.min?.all (fun v => Near service.toNat bound.toNat v) &&
    others.max?.all (fun v => Near service.toNat bound.toNat v)

/-- What is near the least and near the greatest is near all that is between them. -/
theorem near_extrema_iff {ι α : Type} {f : α → Nat} {lo hi : Option α} {p : ι × α → Prop}
    (hlo : Least f lo p) (hhi : Least (fun v => toDual (f v)) hi p)
    (s b : Nat) :
    ((∀ v, lo = some v → Near s b (f v)) ∧ ∀ v, hi = some v → Near s b (f v)) ↔
      ∀ x, p x → Near s b (f x.2) := by
  constructor
  · rintro ⟨hleast, hgreatest⟩ x hx
    obtain ⟨l, hl, hlx⟩ := hlo.le x hx
    obtain ⟨g, hg, hgx⟩ := hhi.le x hx
    have hl := hleast l hl
    have hg := hgreatest g hg
    rw [toDual_le_toDual] at hgx
    omega
  · intro h
    constructor
    · intro v hv
      obtain ⟨k, hk⟩ := hlo.mem v hv
      exact h (k, v) hk
    · intro v hv
      obtain ⟨k, hk⟩ := hhi.mem v hv
      exact h (k, v) hk

theorem Summarises.allows_iff (h : e.Summarises xs) (i : Nat) (service bound : U128) :
    e.allows i service bound = true ↔
      xs.length ≤ 1 ∨ ∀ x, x ∈ xs ∧ x.1 ≠ i → Near service.toNat bound.toNat x.2.toNat := by
  have hnear := near_extrema_iff (h.lows.except i) (h.highs.except i) service.toNat bound.toNat
  rw [allows, ← hnear, ← h.count]
  by_cases hcount : e.count ≤ 1
  · simp only [hcount, if_true, true_or]
  · simp only [hcount, if_false, false_or, Bool.and_eq_true, minimumExcept_eq, maximumExcept_eq,
      Option.all_eq_true, decide_eq_true_eq, BitVec.le_def, BitVec.toNat_absDiff]

theorem scanAllows_iff (xs : List (Nat × U128)) (i : Nat) (service bound : U128) :
    scanAllows xs i service bound = true ↔
      ∀ x, x ∈ xs ∧ x.1 ≠ i → Near service.toNat bound.toNat x.2.toNat := by
  unfold scanAllows
  generalize hothers : (xs.filter fun x => x.1 ≠ i).map (fun x => x.2.toNat) = others
  have hlo : Least id others.min? fun x : Unit × Nat => x.2 ∈ others := by
    constructor
    · intro v hv
      exact ⟨(), min?_mem hv⟩
    · intro x hx
      obtain ⟨v, hv⟩ := Option.isSome_iff_exists.mp (isSome_min?_of_mem hx)
      exact ⟨v, hv, (min?_eq_some_iff.mp hv).2 x.2 hx⟩
  have hhi : Least (fun v => toDual (id v)) others.max? fun x : Unit × Nat => x.2 ∈ others := by
    constructor
    · intro v hv
      exact ⟨(), max?_mem hv⟩
    · intro x hx
      obtain ⟨v, hv⟩ := Option.isSome_iff_exists.mp (isSome_max?_of_mem hx)
      exact ⟨v, hv, (max?_eq_some_iff.mp hv).2 x.2 hx⟩
  have hnear := near_extrema_iff hlo hhi service.toNat bound.toNat
  simp only [id] at hnear
  simp only [Bool.and_eq_true, Option.all_eq_true, decide_eq_true_eq, hnear]
  constructor
  · intro h x hx
    refine h ((), x.2.toNat) ?_
    simpa [← hothers] using ⟨x.1, x.2, ⟨hx.1, hx.2⟩, rfl⟩
  · rintro h ⟨⟨⟩, v⟩ hv
    simp only [← hothers, mem_map, mem_filter, decide_eq_true_eq] at hv
    obtain ⟨x, hx, rfl⟩ := hv
    exact h x hx

/-- Insertions under indices of their own, one after the other. -/
theorem ofList_summarises (hxs : (xs.map Prod.fst).Nodup) : (ofList xs).Summarises xs := by
  induction xs using reverseRecOn with
  | nil => exact .init
  | append_singleton xs x ih =>
    rw [map_append, map_singleton, nodup_append] at hxs
    obtain ⟨hxs, -, hnew⟩ := hxs
    rw [ofList, foldl_append]
    exact (ih hxs).insert fun y hy => hnew _ (mem_map_of_mem hy) _ (mem_singleton.mpr rfl)

/-- Exact but for one thing: a single primary is not compared with, whether or not it is the
candidate's own. -/
theorem allows_eq_scan (xs : List (Nat × U128)) (hxs : (xs.map Prod.fst).Nodup) (primaryIndex : Nat)
    (service bound : U128) :
    (ofList xs).allows primaryIndex service bound =
      (decide (xs.length ≤ 1) || scanAllows xs primaryIndex service bound) := by
  rw [Bool.eq_iff_iff, (ofList_summarises hxs).allows_iff, Bool.or_eq_true, decide_eq_true_eq,
    scanAllows_iff]

theorem allows_eq_scan_tied :
    (ofList [(0, 1), (1, 5), (2, 5), (3, 10)]).allows 3 7 6 =
      (decide (4 ≤ 1) || scanAllows [(0, 1), (1, 5), (2, 5), (3, 10)] 3 7 6) :=
  allows_eq_scan [(0, 1), (1, 5), (2, 5), (3, 10)] (by decide) 3 7 6

theorem single_primary_not_compared :
    (([(0, 100)] : List (Nat × U128)).map Prod.fst).Nodup ∧
      (ofList [(0, 100)]).allows 1 0 5 ≠ scanAllows [(0, 100)] 1 0 5 := by
  decide

end ServiceExtrema

/-! ## The sweep over the statistics -/

/-- The services of the eligible primaries, each under its index counted from `i`. -/
def eligibleServices (stats : List PrimaryStats) : List (Nat × U128) :=
  (stats.zipIdx i).filterMap fun x =>
    if x.1.eligible then some (x.2, x.1.normalizedService) else none

/-- The primary at index `i` is marked eligible. -/
def EligibleAt (stats : List PrimaryStats) (i : Nat) : Prop :=
  ∃ st, stats[i]? = some st ∧ st.eligible = true

theorem mem_eligibleServices {stats : List PrimaryStats} {k : Nat} {v : U128} :
    (k, v) ∈ eligibleServices 0 stats ↔
      EligibleAt stats k ∧ stats[k]?.map (·.normalizedService) = some v := by
  simp only [eligibleServices, mem_filterMap, mem_zipIdx_iff_getElem?]
  constructor
  · rintro ⟨⟨st, k'⟩, hget, h⟩
    split at h
    · rename_i he
      cases h
      exact ⟨⟨st, hget, he⟩, by rw [hget]; rfl⟩
    · cases h
  · rintro ⟨⟨st, hget, he⟩, hv⟩
    rw [hget] at hv
    cases hv
    exact ⟨(st, k), hget, if_pos he⟩

theorem buildServiceExtrema_summarises (stats : List PrimaryStats) {i : Nat} {e : ServiceExtrema}
    {xs : List (Nat × U128)} (h : e.Summarises xs) (hi : ∀ x ∈ xs, x.1 < i) :
    (FairnessLedger.buildServiceExtrema i stats e).Summarises (xs ++ eligibleServices i stats) := by
  induction stats generalizing i e xs with
  | nil => simpa [FairnessLedger.buildServiceExtrema, eligibleServices] using h
  | cons st stats ih =>
    rw [FairnessLedger.buildServiceExtrema]
    by_cases he : st.eligible = true
    · have hxs := h.insert (v := st.normalizedService) fun x hx => (hi x hx).ne
      have hlt : ∀ x ∈ xs ++ [(i, st.normalizedService)], x.1 < i + 1 := by
        intro x hx
        rcases mem_append.mp hx with hx | hx
        · exact (hi x hx).trans (Nat.lt_succ_self i)
        · rw [mem_singleton.mp hx]
          exact Nat.lt_succ_self i
      have hcons : eligibleServices i (st :: stats) =
          (i, st.normalizedService) :: eligibleServices (i + 1) stats := by
        simp [eligibleServices, he]
      rw [if_pos he, hcons, append_cons]
      exact ih hxs hlt
    · have hcons : eligibleServices i (st :: stats) = eligibleServices (i + 1) stats := by
        simp [eligibleServices, he]
      rw [if_neg he, hcons]
      exact ih h fun x hx => (hi x hx).trans (Nat.lt_succ_self i)

namespace FairnessLedger

variable {l : FairnessLedger} {now : Option Timestamp} {eligible : Option (Finset JobId)}
  {prepared : PreparedCandidate} {prep : CandidatePreparation} {stats : List PrimaryStats}
  {i : Nat} {record : CandidateRecord}

/-! ## Which primaries are eligible -/

/-- An entry that marks the primary at index `i`. -/
structure Marks (l : FairnessLedger) (prepared : PreparedCandidate) (prep : CandidatePreparation)
    (i : Nat) : Prop where
  ready : prepared.ready = true
  due : prepared.due = true
  prepared : prepared.preparation = .ok prep
  scope : prep.facts.lowVolume = false
  cost : prep.facts.costUnits.get ≤ l.budget.maxCostUnits.get
  index : prep.metrics.primaryIndex = i

theorem eligibleAt_modify {k : Nat} {f : PrimaryStats → PrimaryStats} :
    EligibleAt (stats.modify k f) i ↔
      ∃ st, stats[i]? = some st ∧ (if k = i then f st else st).eligible = true := by
  unfold EligibleAt
  rw [getElem?_modify]
  cases stats[i]? <;> simp

theorem eligibleAt_recordReadyCandidate (c : FairCandidate) (ready : Bool) :
    EligibleAt (l.recordReadyCandidate c ready stats) i ↔ EligibleAt stats i := by
  unfold recordReadyCandidate
  split
  · split
    · exact Iff.rfl
    · rw [eligibleAt_modify]
      refine exists_congr fun st => and_congr_right fun _ => ?_
      split <;> rfl
  · exact Iff.rfl

theorem eligibleAt_markEligibleCandidate (prepared : PreparedCandidate)
    (hbound : ∀ prep, prepared.preparation = .ok prep → prep.metrics.primaryIndex < stats.length) :
    EligibleAt (l.markEligibleCandidate prepared.ready prepared.due prepared.preparation stats) i ↔
      EligibleAt stats i ∨ ∃ prep, l.Marks prepared prep i := by
  unfold markEligibleCandidate
  split
  · rename_i e he
    refine (or_iff_left ?_).symm
    rintro ⟨prep, hm⟩
    cases he.symm.trans hm.prepared
  · rename_i prep hprep
    split
    · rename_i hcond
      obtain ⟨hready, hdue, hscope, hcost⟩ := hcond
      rw [eligibleAt_modify]
      by_cases hi : prep.metrics.primaryIndex = i
      · subst hi
        refine iff_of_true ⟨_, getElem?_eq_getElem (hbound prep hprep), ?_⟩ (.inr ⟨prep, ?_⟩)
        · rw [if_pos rfl]
        · exact ⟨hready, hdue, hprep, hscope, hcost, rfl⟩
      · simp only [hi, if_false]
        refine (or_iff_left ?_).symm
        rintro ⟨prep', hm⟩
        cases hprep.symm.trans hm.prepared
        exact hi hm.index
    · rename_i hcond
      refine (or_iff_left ?_).symm
      rintro ⟨prep', hm⟩
      cases hprep.symm.trans hm.prepared
      exact hcond ⟨hm.ready, hm.due, hm.scope, hm.cost⟩

theorem passEntry_index_lt (h : (l.passEntry now eligible record).preparation = .ok prep) :
    prep.metrics.primaryIndex < l.preparePrimaryStats.length := by
  obtain ⟨c, g, -, hm, -⟩ := passEntry_ok h
  obtain ⟨st, hmeasures⟩ := candidateServiceMetrics_ok hm
  obtain ⟨hlt, -⟩ := idxOf?_eq_some_iff.mp hmeasures.index
  rwa [preparePrimaryStats, length_map]

theorem SameService.length_eq {stats' : List PrimaryStats} (h : SameService stats stats') :
    stats.length = stats'.length := by
  simpa using congrArg length h

/-- One entry marks the primary of its candidate and no other one. -/
theorem eligibleAt_prepareCandidateEntry (h : SameService stats l.preparePrimaryStats)
    (record : CandidateRecord) :
    EligibleAt (l.prepareCandidateEntry now eligible record stats).2 i ↔
      EligibleAt stats i ∨ ∃ prep, l.Marks (l.passEntry now eligible record) prep i := by
  have hfst := prepareCandidateEntry_fst now eligible h record
  rw [← hfst]
  refine (eligibleAt_markEligibleCandidate
    (l.prepareCandidateEntry now eligible record stats).1 fun prep hprep => ?_).trans
      (or_congr_left (eligibleAt_recordReadyCandidate _ _))
  rw [hfst] at hprep
  rw [SameService.length_eq ((recordReadyCandidate_sameService _ _).trans h)]
  exact passEntry_index_lt hprep

theorem eligibleAt_prepareCandidates (h : SameService stats l.preparePrimaryStats)
    (records : List CandidateRecord) :
    EligibleAt (l.prepareCandidates now eligible records stats).2 i ↔ EligibleAt stats i ∨
        ∃ record ∈ records, ∃ prep, l.Marks (l.passEntry now eligible record) prep i := by
  induction records generalizing stats with
  | nil => simp [prepareCandidates]
  | cons record records ih =>
    have hnext := (prepareCandidateEntry_sameService l now eligible record stats).trans h
    refine (ih hnext).trans ?_
    rw [eligibleAt_prepareCandidateEntry h, or_assoc]
    simp only [mem_cons, exists_eq_or_imp]

/-- A ready and due candidate of the pass that is not low-volume, was prepared and is within the
cost limit: what makes its primary one of the eligible primaries. -/
structure Eligible (l : FairnessLedger) (pass : SelectionPass) (prepared : PreparedCandidate)
    (prep : CandidatePreparation) : Prop where
  mem : prepared ∈ pass.candidates
  ready : prepared.ready = true
  due : prepared.due = true
  prepared : prepared.preparation = .ok prep
  scope : prep.facts.lowVolume = false
  cost : prep.facts.costUnits.get ≤ l.budget.maxCostUnits.get

theorem passEntry_service (h : (l.passEntry now eligible record).preparation = .ok prep)
    (hv : prep.facts.lowVolume = false) :
    l.preparePrimaryStats[prep.metrics.primaryIndex]?.map (·.normalizedService) =
      some prep.metrics.primaryService := by
  obtain ⟨c, g, -, hm, hfacts⟩ := passEntry_ok h
  obtain ⟨st, hmeasures⟩ := candidateServiceMetrics_ok hm
  rw [hfacts] at hv
  rw [hmeasures.primaryService hv, preparePrimaryStats_get hmeasures.index hmeasures.get
    ((FairScope.isLowVolume_primaryScope _).trans hv)]
  rfl

/-- The service of an eligible candidate is that of its primary. -/
theorem Eligible.service (h : l.Eligible (l.prepareSelectionPass now eligible) prepared prep) :
    l.preparePrimaryStats[prep.metrics.primaryIndex]?.map (·.normalizedService) =
      some prep.metrics.primaryService := by
  obtain ⟨record, -, stats, rfl⟩ := mem_prepareSelectionPass h.mem
  obtain ⟨prep₀, hprep₀, hfacts, hindex, hservice, -⟩ := attachCandidateCounts_ok h.prepared
  have hscope := h.scope
  rw [hfacts] at hscope
  rw [hindex, hservice]
  exact passEntry_service hprep₀ hscope

theorem not_eligibleAt_preparePrimaryStats : ¬EligibleAt l.preparePrimaryStats i := by
  rintro ⟨st, hget, he⟩
  rw [preparePrimaryStats, getElem?_map] at hget
  obtain ⟨s, -, rfl⟩ := Option.map_eq_some_iff.mp hget
  split at he <;> cases he

/-- The extrema of a pass summarise the services of the eligible primaries. -/
theorem serviceExtrema_summarises (l : FairnessLedger) (now : Option Timestamp)
    (eligible : Option (Finset JobId)) :
    ∃ xs, (l.prepareSelectionPass now eligible).serviceExtrema.Summarises xs ∧
      ∀ k v, (k, v) ∈ xs ↔ ∃ prepared prep,
        l.Eligible (l.prepareSelectionPass now eligible) prepared prep ∧
          prep.metrics.primaryIndex = k ∧ prep.metrics.primaryService = v := by
  have hsame := prepareCandidates_sameService l now eligible l.candidates.values l.preparePrimaryStats
  refine ⟨_, buildServiceExtrema_summarises _ .init (by simp), fun k v => ?_⟩
  rw [nil_append, mem_eligibleServices, eligibleAt_prepareCandidates rfl,
    or_iff_right not_eligibleAt_preparePrimaryStats, hsame.get k]
  constructor
  · rintro ⟨⟨record, hrecord, prep, hm⟩, hv⟩
    obtain ⟨prep', hprep'⟩ := attachCandidateCounts_of_ok
      (l.prepareCandidates now eligible l.candidates.values l.preparePrimaryStats).2 hm.prepared
    obtain ⟨prep₀, hprep₀, hfacts, hindex, hservice, -⟩ := attachCandidateCounts_ok hprep'
    cases hm.prepared.symm.trans hprep₀
    obtain ⟨-, hready, hdue⟩ := attachCandidateCounts_frame
      (l.prepareCandidates now eligible l.candidates.values l.preparePrimaryStats).2
      (l.passEntry now eligible record)
    rw [← hm.index, passEntry_service hm.prepared hm.scope] at hv
    refine ⟨_, prep', ⟨?_, hready.trans hm.ready, hdue.trans hm.due, hprep', ?_, ?_⟩,
      hindex.trans hm.index, hservice.trans (Option.some.inj hv)⟩
    · unfold prepareSelectionPass
      dsimp only
      rw [prepareCandidates_fst rfl]
      exact mem_map_of_mem (mem_map_of_mem hrecord)
    · rw [hfacts]; exact hm.scope
    · rw [hfacts]; exact hm.cost
  · rintro ⟨prepared, prep, he, rfl, rfl⟩
    obtain ⟨record, hrecord, stats, rfl⟩ := mem_prepareSelectionPass he.mem
    obtain ⟨prep₀, hprep₀, hfacts, hindex, hservice, -⟩ := attachCandidateCounts_ok he.prepared
    obtain ⟨-, hready, hdue⟩ := attachCandidateCounts_frame stats (l.passEntry now eligible record)
    have hscope := he.scope
    have hcost := he.cost
    rw [hfacts] at hscope hcost
    rw [hindex, hservice]
    exact ⟨⟨record, hrecord, prep₀, hready.symm.trans he.ready, hdue.symm.trans he.due, hprep₀,
      hscope, hcost, rfl⟩, passEntry_service hprep₀ hscope⟩

end FairnessLedger

end AuxCommon
