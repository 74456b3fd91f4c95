import AuxCommon.Schedule.Emission

/-!
# Catching up under a budget

A schedule that may catch up on `N` occurrences emits the first `N` of those that are due and skips
the rest. Materialisation under a budget calls from one cursor after the other, and the cursor does
not say how much of the allowance has been used: each call has all of it. So the limit survives only
if a call is not cut short while more than `N` occurrences are due (`Unhurried`).
-/

namespace AuxCommon

open List Option Backlog Timestamp CronExpression Int64 Set RecurringSchedule

namespace CronExpression

variable {cron : CronExpression} {occurs : Timestamp → Prop} {t u now due : Timestamp}
  {l l' : List Timestamp}

/-- The occurrences from `due` to `now`. -/
def dueSet (occurs : Timestamp → Prop) (due now : Timestamp) : Set Timestamp :=
  {u | occurs u ∧ due ≤ u ∧ u ≤ now}

theorem dueSet_subset (h : due ≤ u) : dueSet occurs u now ⊆ dueSet occurs due now :=
  fun _ ht => ⟨ht.1, h.trans ht.2.1, ht.2.2⟩

theorem Chain.subset_dueSet (hcron : cron.Lawful occurs) (h : Chain cron due.preceding l)
    (hle : ∀ u ∈ l, u ≤ now) : ∀ u ∈ l, u ∈ dueSet occurs due now :=
  fun u hu => ⟨h.all_occur hcron u hu, le_of_preceding_lt (h.lt hcron u hu), hle u hu⟩

theorem ncard_eq_length (hl : l.Pairwise (· < ·)) : {u | u ∈ l}.ncard = l.length := by
  have hnodup : l.Nodup := hl.imp fun h => ne_of_lt h
  rw [← toFinset_card_of_nodup hnodup, ← ncard_coe_finset]
  congr 1
  ext u
  simp

theorem Chain.length_le (hcron : cron.Lawful occurs) (h : Chain cron due.preceding l)
    (hle : ∀ u ∈ l, u ≤ now) : l.length ≤ (dueSet occurs due now).ncard := by
  rw [← ncard_eq_length (h.sorted hcron)]
  exact ncard_le_ncard (h.subset_dueSet hcron hle) (toFinite _)

/-- A list of all that is due, as far as a scan goes. -/
structure Due (cron : CronExpression) (due now : Timestamp) (l : List Timestamp) : Prop where
  chain : cron.Chain due.preceding l
  le : ∀ u ∈ l, u ≤ now
  length_le : l.length ≤ maxOccurrenceScan
  ends : l.length = maxOccurrenceScan ∨ cron.Ends now (chainEnd due.preceding l)

/-- A scan starts before everything that is due. -/
theorem preceding_lt_of_mem (hcron : cron.Lawful occurs) (hu : u ∈ dueSet occurs due now) :
    due.preceding < u := by
  obtain ⟨hoccurs, hle, -⟩ := hu
  by_cases hmin : due.millis = minValue
  · rw [preceding, if_pos hmin]
    exact lt_of_le_of_ne hle fun heq => hcron.least u hoccurs (heq ▸ hmin)
  · exact preceding_lt_of_le hmin hle

/-- A chain that ends holds all that is due. -/
theorem Due.mem_of_ends (hcron : cron.Lawful occurs) (h : Due cron due now l)
    (hend : cron.Ends now (chainEnd due.preceding l)) (hu : u ∈ dueSet occurs due now) : u ∈ l :=
  (h.chain.mem_iff hcron h.le hend u).mpr ⟨hu.1, preceding_lt_of_mem hcron hu, hu.2.2⟩

theorem Due.length_eq (hcron : cron.Lawful occurs) (h : Due cron due now l)
    (hcount : (dueSet occurs due now).ncard ≤ maxOccurrenceScan) :
    l.length = (dueSet occurs due now).ncard := by
  have hle := h.chain.length_le hcron h.le
  rcases h.ends with hlength | hend
  · omega
  · refine le_antisymm hle ?_
    rw [← ncard_eq_length (h.chain.sorted hcron)]
    exact ncard_le_ncard (fun u hu => h.mem_of_ends hcron hend hu) (toFinite _)

theorem chainEnd_append : chainEnd t (l ++ l') = chainEnd (chainEnd t l) l' := by
  induction l generalizing t with
  | nil => rfl
  | cons u l ih => exact ih

/-- The occurrence after a part of a chain is the next one of the chain. -/
theorem Chain.next_take (h : Chain cron t l) {n : Nat} (hn : n < l.length) :
    cron.nextAfter (chainEnd t (l.take n)) = .ok (some l[n]) := by
  induction h generalizing n with
  | nil t => cases hn
  | cons next rest ih =>
    cases n with
    | zero => exact next
    | succ n => exact ih (Nat.lt_of_succ_lt_succ hn)

/-- What is due from an occurrence on starts with it. -/
theorem Due.head (hcron : cron.Lawful occurs) (hoccurs : occurs t) (ht : t ≤ now)
    (h : Due cron t now l) : ∃ l', l = t :: l' := by
  have hpreceding : t.preceding < t := preceding_lt_of_le (hcron.least t hoccurs) le_rfl
  cases h.chain with
  | nil =>
    exfalso
    rcases h.ends with hlength | ⟨next, hfirst, hlater⟩
    · cases hlength
    · cases next with
      | none => exact hcron.last hfirst t hpreceding hoccurs
      | some m =>
        have hm := (hcron.next hfirst).2.2 t hpreceding hoccurs
        exact absurd (hlater m rfl) (not_lt.mpr (hm.trans ht))
  | @cons _ m l' hfirst _ =>
    obtain ⟨hgt, -, hleast⟩ := hcron.next hfirst
    have hm : m = t := le_antisymm (hleast t hpreceding hoccurs) (le_of_preceding_lt hgt)
    exact ⟨l', by rw [hm]⟩

/-- What is due is what was seen before the next occurrence and what is due from it on. -/
theorem Due.append (hcron : cron.Lawful occurs) {n : Timestamp}
    (hcount : (dueSet occurs due now).ncard ≤ maxOccurrenceScan)
    (hchain : Chain cron due.preceding l) (hl : l ≠ []) (hle : ∀ u ∈ l, u ≤ now)
    (hnext : cron.nextAfter (chainEnd due.preceding l) = .ok (some n)) (hn : n ≤ now)
    (hrest : Due cron n now l') : Due cron due now (l ++ l') := by
  obtain ⟨l'', rfl⟩ := hrest.head hcron (hcron.next hnext).2.1 hn
  have hrest' : Chain cron n l'' := by cases hrest.chain; assumption
  have hchain' := hchain.append (.cons hnext hrest')
  have hle' : ∀ u ∈ l ++ n :: l'', u ≤ now := forall_mem_append.mpr ⟨hle, hrest.le⟩
  have hlength := hchain'.length_le hcron hle'
  refine ⟨hchain', hle', hlength.trans hcount, .inr ?_⟩
  rcases hrest.ends with hfull | hend
  · have hpos := length_pos_iff.mpr hl
    rw [length_append] at hlength
    omega
  · rw [chainEnd_append]
    exact hend

end CronExpression

/-! ## The evaluation without a budget -/

theorem collectLoop_of_chain {t : Timestamp}
    (hstop : query.stopAfterSelection = false) (hchain : query.cron.Chain t l)
    (hle : ∀ u ∈ l, u ≤ query.now) {scan : Nat} (hscan : l.length ≤ scan)
    (hend : l.length = scan ∨ query.cron.Ends query.now (chainEnd t l))
    (backlog : Backlog) :
    collectLoop query scan t backlog = .ok (backlog.extend query l) := by
  induction hchain generalizing scan backlog with
  | nil t =>
    rcases hend with rfl | ⟨next, hnext, hlater⟩
    · rfl
    · cases scan with
      | zero => rfl
      | succ scan =>
        unfold collectLoop
        rw [chainEnd_nil] at hnext
        rw [hnext]
        cases next with
        | none => rfl
        | some n => exact if_pos (hlater n rfl)
  | @cons t n l next rest ih =>
    obtain ⟨scan, rfl⟩ : ∃ k, scan = k + 1 := ⟨scan - 1, by rw [length_cons] at hscan; omega⟩
    have hnow : ¬query.now < n := not_lt.mpr (hle n mem_cons_self)
    have hreached : (backlog.record query n).reachedSelection query n =
        .ok (false, backlog.record query n) := by
      unfold reachedSelection
      rw [hstop]
      rfl
    unfold collectLoop
    rw [next]
    change (if query.now < n then _ else _) = _
    rw [if_neg hnow, hreached]
    exact ih (fun u hu => hle u (mem_cons_of_mem _ hu)) (Nat.le_of_succ_le_succ hscan)
      (hend.imp_left Nat.succ.inj) _

/-- A scan that is not resumable has gone as far as it can. -/
theorem Backlog.Stops.ends {scan selected : Nat} {t : Timestamp}
    {resumable : Bool} (h : Stops query scan t l selected resumable)
    (hr : resumable = false) :
    l.length = scan ∨ query.cron.Ends query.now (chainEnd t l) := by
  cases h with
  | scanned h => exact .inl h
  | ended h => exact .inr h
  | @selected following _ _ _ hnext =>
    refine .inr ⟨following, hnext, fun n hn => ?_⟩
    cases hn
    exact not_le.mp (of_decide_eq_false hr)

/-- A resumable scan knows the next occurrence that is due. -/
theorem Backlog.Stops.next {scan selected : Nat} {t : Timestamp}
    {resumable : Bool} (h : Stops query scan t l selected resumable)
    (hr : resumable = true) :
    l ≠ [] ∧ query.stopAfterSelection = true ∧ ∃ n, n ≤ query.now ∧
      query.cron.nextAfter (chainEnd t l) = .ok (some n) := by
  cases h with
  | scanned => cases hr
  | ended => cases hr
  | @selected following hl hstop _ hnext =>
    cases following with
    | none => cases hr
    | some n => exact ⟨hl, hstop, n, of_decide_eq_true hr, hnext⟩

namespace RecurringSchedule

variable {schedule : RecurringSchedule} {cursor : ScheduleCursor} {now due : Timestamp}
  {occurs : Timestamp → Prop} {maximum : NonZero 16} {l : List Timestamp} {call : MaterializeCall}

/-- The occurrences of a schedule at these times. -/
def occurrencesAt (schedule : RecurringSchedule) (generation : U32) (l : List Timestamp) :
    List ScheduleOccurrence := l.map (⟨schedule.scheduleId, ·, generation⟩)

/-- What the end of an evaluation of these times asks of the cron expression. -/
def Finishes (schedule : RecurringSchedule) (now : Timestamp) (l : List Timestamp) : Prop :=
  if l = [] then ∃ wake, schedule.cron.nextAtOrAfter now = .ok wake
  else ∃ next, schedule.cron.nextAfter now = .ok next

/-- The occurrences of a catch-up evaluation: as many of those seen as the limits allow. -/
theorem catchUp_occurrences {query : BacklogQuery} {b : Backlog}
    (hquery : query.limit ≤ maximum.get.toNat)
    (hselected : b.selected = (extend query {} l).selected)
    (hcount : b.count = (extend query {} l).count) :
    b.occurrences query.scheduleId query.generation (.catchUp maximum) =
        (l.take query.limit).map (⟨query.scheduleId, ·, query.generation⟩) ∧
      b.count - b.selectedCount (.catchUp maximum) = l.length - query.limit := by
  have hselected := hselected.trans (extend_selected.trans (nil_append _))
  have hcount := hcount.trans extend_empty.1
  constructor
  · unfold occurrences
    dsimp only
    rw [hselected, ← map_take, take_take, length_nil, Nat.sub_zero, Nat.min_eq_right hquery]
  · unfold selectedCount
    dsimp only
    rw [hselected, hcount, length_map, length_take, length_nil]
    omega

theorem limit_catchUp (hpolicy : schedule.misfire = .catchUp maximum) (limit : Option Nat) :
    (schedule.backlogQuery cursor due now limit).limit =
      limit.elim maximum.get.toNat (min maximum.get.toNat) := by
  unfold BacklogQuery.limit backlogQuery selectedLimit configuredLimit
  rw [hpolicy]

theorem stopAfterSelection_catchUp (hpolicy : schedule.misfire = .catchUp maximum)
    (limit : Option Nat) : (schedule.backlogQuery cursor due now limit).stopAfterSelection =
      limit.any (· < maximum.get.toNat) := by
  unfold backlogQuery stopAfterSelection configuredLimit
  rw [hpolicy]

theorem stopAfterSelection_none (policy : MisfirePolicy) : stopAfterSelection policy none = false := by
  cases policy <;> rfl

/-- Without a budget a live cursor is evaluated on all that is due, as far as a scan goes. -/
theorem evaluate_eq_finish (hlive : schedule.Live cursor) (hdue : cursor.nextDue = some due)
    (hl : schedule.cron.Due due now l) :
    schedule.evaluate cursor now = schedule.finishEvaluation cursor now
      (extend (schedule.backlogQuery cursor due now none) {} l) := by
  have hcollect : collectBacklog (schedule.backlogQuery cursor due now none) =
      .ok (extend (schedule.backlogQuery cursor due now none) {} l) := by
    apply collectLoop_of_chain
    · exact stopAfterSelection_none _
    · exact hl.chain
    · exact hl.le
    · exact hl.length_le
    · exact hl.ends
  unfold evaluate evaluateWithLimit
  rw [if_neg (by simp [hlive.1, hlive.2.1]), if_neg hlive.2.2, hdue]
  dsimp only
  rw [hcollect]
  rfl

/-- Without a budget the first occurrences that are due are emitted, up to the maximum. -/
theorem evaluate_of_due (hpolicy : schedule.misfire = .catchUp maximum)
    (hlive : schedule.Live cursor) (hdue : cursor.nextDue = some due)
    (hl : schedule.cron.Due due now l) (hfinish : schedule.Finishes now l) :
    ∃ ev, schedule.evaluate cursor now = .ok ev ∧
      ev.occurrences = schedule.occurrencesAt cursor.generation (l.take maximum.get.toNat) := by
  have hlimit : (schedule.backlogQuery cursor due now none).limit = maximum.get.toNat :=
    limit_catchUp hpolicy none
  obtain ⟨hocc, -⟩ := catchUp_occurrences (l := l) hlimit.le rfl rfl
  rw [evaluate_eq_finish hlive hdue hl]
  unfold finishEvaluation nextDueAfter
  rw [extend_empty.1, extend_empty.2, hpolicy]
  unfold Finishes at hfinish
  by_cases hnil : l = []
  · subst hnil
    obtain ⟨wake, hwake⟩ := hfinish
    rw [if_pos length_nil, hwake]
    exact ⟨_, rfl, by rw [take_nil]; rfl⟩
  · rw [if_neg hnil] at hfinish
    obtain ⟨next, hnext⟩ := hfinish
    rw [if_neg (fun h => hnil (length_eq_zero_iff.mp h)), if_neg Bool.false_ne_true, hnext]
    refine ⟨_, rfl, ?_⟩
    rw [hlimit] at hocc
    exact hocc

/-! ## Materialising until nothing is left -/

/-- Materialisations at one time, each from the cursor of the one before, until one is complete:
all that they emit and the number that they skip. `D` holds of each call and its cursor. -/
inductive Drains (schedule : RecurringSchedule) (now : Timestamp)
    (D : ScheduleCursor → MaterializeCall → Prop) :
    ScheduleCursor → List ScheduleOccurrence → Nat → Prop
  | last {cursor : ScheduleCursor} {sys : JobSystem} {call : MaterializeCall}
    {m : ScheduleMaterialization} (hnow : call.now = now) (hcall : D cursor call)
    (h : (materialize sys schedule cursor call).CanReturn (.ok m)) (hcomplete : m.complete = true) :
    Drains schedule now D cursor (m.occurrences.map (·.occurrence)) m.skipped
  | more {cursor : ScheduleCursor} {sys : JobSystem} {call : MaterializeCall}
    {m : ScheduleMaterialization} {rest : List ScheduleOccurrence} {skipped : Nat}
    (hnow : call.now = now) (hcall : D cursor call)
    (h : (materialize sys schedule cursor call).CanReturn (.ok m))
    (hcomplete : m.complete = false) (hrest : Drains schedule now D m.cursor rest skipped) :
    Drains schedule now D cursor (m.occurrences.map (·.occurrence) ++ rest) (m.skipped + skipped)

/-- A call that does not use up an allowance that it leaves whole to the next: no more than the
maximum is due, or the call does nothing, or its budget and its deadline leave room for the
maximum. -/
def Unhurried (occurs : Timestamp → Prop) (maximum : Nat) (cursor : ScheduleCursor)
    (call : MaterializeCall) : Prop :=
  (∀ due ∈ cursor.nextDue, (CronExpression.dueSet occurs due call.now).ncard ≤ maximum) ∨
    call.budget.itemLimit = none ∨
    call.budget.finishBy.isAtOrBefore (call.clock 0) = true ∨
    ∃ limit, call.budget.itemLimit = some limit ∧ maximum ≤ limit ∧
      ∀ i < maximum, call.budget.finishBy.isAtOrBefore (call.clock i) = false

/-- What is emitted and skipped when these times are due. -/
structure Catches (schedule : RecurringSchedule) (maximum : Nat) (generation : U32)
    (due now : Timestamp) (emitted : List ScheduleOccurrence) (skipped : Nat)
    (l : List Timestamp) : Prop where
  due : schedule.cron.Due due now l
  finishes : schedule.Finishes now l
  emitted : emitted = schedule.occurrencesAt generation (l.take maximum)
  skipped : skipped = l.length - maximum

/-- One call: nothing has happened, or it has caught up, or it has emitted some occurrences before
the next one that is due. -/
inductive Progress (schedule : RecurringSchedule) (maximum : Nat) (cursor : ScheduleCursor)
    (due : Timestamp) (call : MaterializeCall) (m : ScheduleMaterialization) : Prop
  | still (hnone : m.occurrences = []) (hskipped : m.skipped = 0) (hcursor : m.cursor = cursor)
    (hcomplete : m.complete = false)
  | done {l : List Timestamp} (hcomplete : m.complete = true)
    (hcatches : schedule.Catches maximum cursor.generation due call.now
      (m.occurrences.map (·.occurrence)) m.skipped l)
  | part {l : List Timestamp} {n : Timestamp} (hchain : schedule.cron.Chain due.preceding l)
    (hl : l ≠ []) (hle : ∀ u ∈ l, u ≤ call.now)
    (hnext : schedule.cron.nextAfter (CronExpression.chainEnd due.preceding l) = .ok (some n))
    (hn : n ≤ call.now)
    (hemitted : m.occurrences.map (·.occurrence) = schedule.occurrencesAt cursor.generation l)
    (hskipped : m.skipped = 0) (hcomplete : m.complete = false)
    (hcursor : m.cursor.nextDue = some n ∧ m.cursor.enabled = cursor.enabled ∧
      m.cursor.paused = cursor.paused ∧ m.cursor.active = cursor.active ∧
      m.cursor.generation = cursor.generation)

/-- An evaluation under a limit: it has seen all that is due, or has stopped at the limit. -/
theorem Evaluates.limited (hpolicy : schedule.misfire = .catchUp maximum)
    (hlive : schedule.Live cursor) (hdue : cursor.nextDue = some due) {limit : Nat}
    (hlimit : 0 < limit) {ev : ScheduleEvaluation}
    (h : schedule.Evaluates cursor now (some limit) ev) :
    ∃ l, schedule.cron.Chain due.preceding l ∧ (∀ u ∈ l, u ≤ now) ∧ ev.occurrences =
        schedule.occurrencesAt cursor.generation (l.take (min maximum.get.toNat limit)) ∧
      ev.skipped = l.length - min maximum.get.toNat limit ∧
      (limit < maximum.get.toNat → l.length ≤ limit) ∧
      (ev.cursor.enabled = cursor.enabled ∧ ev.cursor.paused = cursor.paused ∧
        ev.cursor.active = cursor.active ∧ ev.cursor.generation = cursor.generation) ∧
      (ev.resumable = false ∧ schedule.cron.Due due now l ∧ schedule.Finishes now l ∨
        ev.resumable = true ∧ limit < maximum.get.toNat ∧ l ≠ [] ∧ ∃ n,
          schedule.cron.nextAfter (chainEnd due.preceding l) = .ok (some n) ∧
          n ≤ now ∧ ev.cursor.nextDue = some n) := by
  cases h with
  | inactive hidle => exact absurd ⟨hlive, by rw [hdue]; rfl⟩ hidle
  | nothing _ hdue' hcollected hwake =>
    cases hdue.symm.trans hdue'
    obtain ⟨resumable, -, hstops⟩ := hcollected.eq
    have hends : ([] : List Timestamp).length = maxOccurrenceScan ∨ schedule.cron.Ends now due.preceding := by
      cases hstops with
      | scanned h => exact .inl h
      | ended h => exact .inr h
      | selected hl => exact absurd rfl hl
    refine ⟨[], hcollected.chain, nofun, by rw [take_nil]; rfl, by simp [ScheduleEvaluation.idle],
      fun _ => Nat.zero_le _, ⟨rfl, rfl, rfl, rfl⟩, .inl ⟨rfl, ?_, ?_⟩⟩
    · exact ⟨hcollected.chain, nofun, Nat.zero_le _, hends⟩
    · unfold Finishes
      rw [if_pos rfl]
      exact ⟨_, hwake⟩
  | @backlog due' b l nextDue _ hdue' hcollected hl hnext =>
    cases hdue.symm.trans hdue'
    obtain ⟨resumable, heq, hstops⟩ := hcollected.eq
    have hquery : (schedule.backlogQuery cursor due now (some limit)).limit =
        min maximum.get.toNat limit := limit_catchUp hpolicy (some limit)
    have hstop : (schedule.backlogQuery cursor due now (some limit)).stopAfterSelection =
        decide (limit < maximum.get.toNat) := stopAfterSelection_catchUp hpolicy (some limit)
    have hselected : b.selected =
        (extend (schedule.backlogQuery cursor due now (some limit)) {} l).selected := by
      rw [heq]
    have hcount : b.count =
        (extend (schedule.backlogQuery cursor due now (some limit)) {} l).count := by
      rw [heq]
    obtain ⟨hocc, hskipped⟩ :=
      catchUp_occurrences (hquery.trans_le (Nat.min_le_left maximum.get.toNat limit)) hselected hcount
    rw [hquery] at hocc hskipped
    have hlength := hcollected.length_le
    have hresumable : b.resumable = resumable := by rw [heq]
    have hlast : b.last = some (chainEnd due.preceding l) := by
      rw [heq]
      exact extend_last.trans (by rw [chainEnd_eq hl]; rfl)
    have hwhole : limit < maximum.get.toNat → l.length ≤ limit := by
      intro hlt
      have hall := hcollected.whole (by rw [hstop]; exact decide_eq_true hlt)
        (by rw [hquery]; exact lt_min maximum.pos hlimit)
      rw [hquery, length_nil] at hall
      omega
    refine ⟨l, hcollected.chain, hcollected.le, by rw [hpolicy]; exact hocc, ?_, hwhole,
      ⟨rfl, rfl, rfl, rfl⟩, ?_⟩
    · dsimp only
      rw [hpolicy, hskipped]
      unfold maxOccurrenceScan at hlength
      omega
    · dsimp only
      unfold nextDueAfter at hnext
      rw [hresumable] at hnext ⊢
      cases hr : resumable with
      | false =>
        rw [hr, if_neg Bool.false_ne_true] at hnext
        refine .inl ⟨rfl, ⟨hcollected.chain, hcollected.le, hlength, hstops.ends hr⟩, ?_⟩
        unfold Finishes
        rw [if_neg hl]
        exact ⟨_, hnext⟩
      | true =>
        obtain ⟨-, hselects, n, hn, hfollowing⟩ := hstops.next hr
        rw [hstop, decide_eq_true_eq] at hselects
        refine .inr ⟨rfl, hselects, hl, n, hfollowing, hn, ?_⟩
        rw [hr, if_pos rfl, hlast] at hnext
        obtain ⟨next, hmap, hnext⟩ := Except.bind_eq_ok.mp hnext
        obtain ⟨found, hfound, hmap⟩ := Except.bind_eq_ok.mp hmap
        cases hmap
        cases hnext
        exact Except.ok.inj (hfound.symm.trans hfollowing)

theorem itemLimit_pos {budget : ScheduleMaterializationBudget} {limit : Nat}
    (h : budget.itemLimit = some limit) : 0 < limit := by
  unfold ScheduleMaterializationBudget.itemLimit at h
  dsimp only at h
  split at h
  · cases h
  · rename_i hne
    cases h
    exact Nat.pos_of_ne_zero hne

/-- A call that has emitted something and was stopped, by its limit or its deadline, was made when
no more than the maximum was due. -/
theorem Unhurried.few {limit n : Nat}
    (h : Unhurried occurs maximum.get.toNat cursor call) (hdue : cursor.nextDue = some due)
    (hlimit : call.budget.itemLimit = some limit) (hn : 0 < n)
    (hclock : ∀ i < n, call.budget.finishBy.isAtOrBefore (call.clock i) = false)
    (hstopped : limit < maximum.get.toNat ∨ n < maximum.get.toNat ∧
      call.budget.finishBy.isAtOrBefore (call.clock n) = true) :
    (dueSet occurs due call.now).ncard ≤ maximum.get.toNat := by
  rcases h with hfew | hnone | hpassed | ⟨limit', hlimit', hle, hroom⟩
  · exact hfew due hdue
  · rw [hlimit] at hnone
    cases hnone
  · rw [hclock 0 hn] at hpassed
    cases hpassed
  · rw [hlimit] at hlimit'
    cases hlimit'
    rcases hstopped with hlt | ⟨hlt, hdeadline⟩
    · exact absurd hle (Nat.not_le_of_lt hlt)
    · rw [hroom n hlt] at hdeadline
      cases hdeadline

/-- Each unhurried call makes progress, and one that leaves something to do after emitting some was
made when no more than the maximum was due. -/
theorem Materializes.progress (hpolicy : schedule.misfire = .catchUp maximum)
    (hlive : schedule.Live cursor) (hdue : cursor.nextDue = some due)
    (hcall : Unhurried occurs maximum.get.toNat cursor call) {m : ScheduleMaterialization}
    (h : schedule.Materializes cursor call m) :
    schedule.Progress maximum.get.toNat cursor due call m ∧
      (m.complete = false → m.occurrences ≠ [] →
        (dueSet occurs due call.now).ncard ≤ maximum.get.toNat) := by
  cases h with
  | unfunded _ hnone hskipped hcursor hcomplete =>
    exact ⟨.still hnone hskipped hcursor hcomplete, fun _ hsome => absurd hnone hsome⟩
  | @full limit ev hlimit hev hclock _ hall hskipped hcursor hcomplete =>
    obtain ⟨l, hchain, hle, hocc, hskip, hwhole, hsame, hfinish⟩ :=
      (evaluateWithLimit_eq_ok hev).limited hpolicy hlive hdue (itemLimit_pos hlimit)
    rcases hfinish with ⟨hresumable, hdue', hfinishes⟩ | ⟨hresumable, hlt, hl, n, hnext, hn, hcur⟩
    · rw [hresumable] at hcomplete
      refine ⟨.done hcomplete ⟨hdue', hfinishes, ?_, ?_⟩, fun hpart => ?_⟩
      · rw [hall, hocc]
        by_cases hlt : limit < maximum.get.toNat
        · have hlength := hwhole hlt
          rw [take_of_length_le (by omega), take_of_length_le (by omega)]
        · rw [Nat.min_eq_left (Nat.le_of_not_lt hlt)]
      · rw [hskipped, hskip]
        by_cases hlt : limit < maximum.get.toNat
        · have hlength := hwhole hlt
          omega
        · rw [Nat.min_eq_left (Nat.le_of_not_lt hlt)]
      · rw [hcomplete] at hpart
        cases hpart
    · have hlength := hwhole hlt
      rw [take_of_length_le (by omega)] at hocc
      rw [hresumable] at hcomplete
      refine ⟨.part hchain hl hle hnext hn (hall.trans hocc) (by omega) hcomplete ?_,
        fun _ _ => hcall.few hdue hlimit ?_ hclock (.inl hlt)⟩
      · rw [hcursor]
        exact ⟨hcur, hsame⟩
      · rw [hocc]
        rw [occurrencesAt, length_map]
        exact length_pos_iff.mpr hl
  | @cut limit n ev hlimit hev hn hclock hdeadline _ hsome hskipped hcursor hcomplete =>
    obtain ⟨l, hchain, hle, hocc, -, -, hsame, -⟩ :=
      (evaluateWithLimit_eq_ok hev).limited hpolicy hlive hdue (itemLimit_pos hlimit)
    rcases hcursor with ⟨rfl, hcursor⟩ | ⟨last, nextDue, hlast, hnext, hcursor⟩
    · have hnone : m.occurrences = [] := map_eq_nil_iff.mp hsome
      exact ⟨.still hnone hskipped hcursor hcomplete, fun _ h => absurd hnone h⟩
    · have hlen : n < min maximum.get.toNat limit ∧ n < l.length := by
        rw [hocc, occurrencesAt, length_map, length_take] at hn
        omega
      have htake : ev.occurrences.take n = schedule.occurrencesAt cursor.generation (l.take n) := by
        rw [hocc, occurrencesAt, ← map_take, take_take, Nat.min_eq_left (by omega)]
        rfl
      have hl : l.take n ≠ [] := by
        intro hnil
        rw [htake, hnil] at hlast
        cases hlast
      have hend : last.intendedAt = chainEnd due.preceding (l.take n) := by
        rw [htake, occurrencesAt, getLast?_map, chainEnd_eq (t := due.preceding) hl] at hlast
        exact (congrArg ScheduleOccurrence.intendedAt (some.inj hlast)).symm
      have hfound := hchain.next_take hlen.2
      rw [← hend, hnext] at hfound
      have hn0 : 0 < n := by
        refine Nat.pos_of_ne_zero fun hzero => hl ?_
        rw [hzero]
        rfl
      refine ⟨.part (hchain.take n) hl (fun u hu => hle u (mem_of_mem_take hu))
        (hchain.next_take hlen.2) (hle _ (getElem_mem hlen.2)) (hsome.trans htake) hskipped
        hcomplete ?_, fun _ _ => hcall.few hdue hlimit hn0 hclock (.inr ⟨by omega, hdeadline⟩)⟩
      rw [hcursor]
      exact ⟨Except.ok.inj hfound, hsame⟩

/-- A completed run of unhurried calls catches up as one evaluation would. -/
theorem Drains.catches (hcron : schedule.cron.Lawful occurs)
    (hpolicy : schedule.misfire = .catchUp maximum)
    {emitted : List ScheduleOccurrence} {skipped : Nat}
    (h : schedule.Drains now (Unhurried occurs maximum.get.toNat) cursor emitted skipped)
    (hlive : schedule.Live cursor) (hdue : cursor.nextDue = some due)
    (hcount : (dueSet occurs due now).ncard ≤ maxOccurrenceScan) :
    ∃ l, schedule.Catches maximum.get.toNat cursor.generation due now emitted skipped l := by
  induction h generalizing due with
  | last hnow hcall h hcomplete =>
    obtain ⟨hstep, -⟩ := (materialize_canReturn h).progress hpolicy hlive hdue hcall
    cases hstep with
    | still _ _ _ hpartial => rw [hcomplete] at hpartial; cases hpartial
    | done _ hcatches => exact ⟨_, hnow ▸ hcatches⟩
    | part _ _ _ _ _ _ _ hpartial => rw [hcomplete] at hpartial; cases hpartial
  | @more cursor sys call m rest skipped hnow hcall h hcomplete hrest ih =>
    obtain ⟨hstep, hfew⟩ := (materialize_canReturn h).progress hpolicy hlive hdue hcall
    rw [hnow] at hfew
    cases hstep with
    | still hnone hskipped hcursor =>
      rw [hnone, hskipped, map_nil, nil_append, Nat.zero_add]
      rw [hcursor] at ih
      exact ih hlive hdue hcount
    | done hfull => rw [hcomplete] at hfull; cases hfull
    | @part l n hchain hl hle hnext hn hemitted hskipped _ hcursor =>
      obtain ⟨hdue', henabled, hpaused, hactive, hgeneration⟩ := hcursor
      have hge : due ≤ n := by
        have hlt := (hcron.next hnext).1
        have hend := mem_of_getLast? (chainEnd_eq (t := due.preceding) hl)
        exact (le_of_preceding_lt (hchain.lt hcron _ hend)).trans hlt.le
      have hlive' : schedule.Live m.cursor :=
        ⟨henabled ▸ hlive.1, hpaused ▸ hlive.2.1, hactive ▸ hlive.2.2⟩
      have hfewer : (dueSet occurs n now).ncard ≤ maxOccurrenceScan :=
        (ncard_le_ncard (dueSet_subset hge) (toFinite _)).trans hcount
      obtain ⟨l', hl'⟩ := ih hlive' hdue' hfewer
      have hall := Due.append hcron hcount hchain hl (hnow ▸ hle) hnext (hnow ▸ hn) hl'.due
      have hlength := hall.chain.length_le hcron hall.le
      have hsome : m.occurrences ≠ [] := by
        intro hnone
        rw [hnone] at hemitted
        exact hl (map_eq_nil_iff.mp hemitted.symm)
      have hfew := hlength.trans (hfew hcomplete hsome)
      rw [length_append] at hfew
      refine ⟨l ++ l', hall, ?_, ?_, ?_⟩
      · obtain ⟨l'', rfl⟩ := hl'.due.head hcron (hcron.next hnext).2.1 (hnow ▸ hn)
        have hfinishes := hl'.finishes
        unfold Finishes at hfinishes ⊢
        rw [if_neg nofun] at hfinishes
        rw [if_neg (append_ne_nil_of_left_ne_nil hl _)]
        exact hfinishes
      · rw [hemitted, hl'.emitted, hgeneration, take_of_length_le (by omega),
          take_of_length_le (by rw [length_append]; omega)]
        exact map_append.symm
      · rw [hskipped, hl'.skipped, length_append]
        omega

/-- From a live cursor with at most 65535 occurrences due, a run of unhurried calls that ends emits
exactly what one evaluation without a budget returns, at most the maximum, and each occurrence that
is due is emitted or skipped. -/
theorem catch_up_survives_budgets (hcron : schedule.cron.Lawful occurs)
    (hpolicy : schedule.misfire = .catchUp maximum) (hlive : schedule.Live cursor)
    (hdue : cursor.nextDue = some due)
    (hcount : (CronExpression.dueSet occurs due now).ncard ≤ maxOccurrenceScan)
    {emitted : List ScheduleOccurrence} {skipped : Nat}
    (h : schedule.Drains now (Unhurried occurs maximum.get.toNat) cursor emitted skipped) :
    ∃ ev, schedule.evaluate cursor now = .ok ev ∧ emitted = ev.occurrences ∧
      emitted.length ≤ maximum.get.toNat ∧
      skipped + emitted.length = (CronExpression.dueSet occurs due now).ncard := by
  obtain ⟨l, hl⟩ := h.catches hcron hpolicy hlive hdue hcount
  obtain ⟨ev, hev, hocc⟩ := evaluate_of_due hpolicy hlive hdue hl.due hl.finishes
  have hlength : emitted.length = min maximum.get.toNat l.length := by
    rw [hl.emitted, occurrencesAt, length_map, length_take]
  refine ⟨ev, hev, hl.emitted.trans hocc.symm, by omega, ?_⟩
  rw [← hl.due.length_eq hcron hcount, hl.skipped, hlength]
  omega

end RecurringSchedule

namespace Sample

/-- Calls one after the other on one store, until one is complete. -/
def drained (n : NonZero 16) :
    List MaterializeCall → ScheduleCursor → JobWorld → Option (List ScheduleOccurrence × Nat)
  | [], _, _ => none
  | call :: calls, cursor, w => do
    let m ← materialized n cursor call w
    if m.1.complete then return (m.1.occurrences.map (·.occurrence), m.1.skipped)
    else
      let rest ← drained n calls m.1.cursor m.2
      return (m.1.occurrences.map (·.occurrence) ++ rest.1, m.1.skipped + rest.2)

theorem drains_of_drained {n : NonZero 16} {now : Timestamp} {calls : List MaterializeCall}
    {cursor : ScheduleCursor} {w : JobWorld} {result : List ScheduleOccurrence × Nat}
    {D : ScheduleCursor → MaterializeCall → Prop}
    (hcalls : ∀ call ∈ calls, call.now = now ∧
      ∀ cursor, (∀ due ∈ cursor.nextDue, ⟨0⟩ ≤ due) → D cursor call)
    (hcursor : ∀ due ∈ cursor.nextDue, ⟨0⟩ ≤ due) (h : drained n calls cursor w = some result) :
    (schedule n).Drains now D cursor result.1 result.2 := by
  induction calls generalizing cursor w result with
  | nil => cases h
  | cons call calls ih =>
    obtain ⟨hnow, hcall⟩ := hcalls call mem_cons_self
    obtain ⟨m, hm, h⟩ := bind_eq_some_iff.mp h
    have hreturn := materialized_canReturn hm
    split at h
    · rename_i hcomplete
      cases h
      exact .last hnow (hcall _ hcursor) hreturn hcomplete
    · rename_i hpart
      obtain ⟨rest, hrest, h⟩ := bind_eq_some_iff.mp h
      cases h
      refine .more hnow (hcall _ hcursor) hreturn (Bool.eq_false_iff.mpr hpart)
        (ih (fun call hmem => hcalls call (mem_cons_of_mem _ hmem)) (fun due hdue => ?_) hrest)
      cases (materialize_canReturn hreturn).advances minutely_lawful with
      | stays _ hsame => exact hcursor due (hsame ▸ hdue)
      | moves hfirst _ _ hafter => exact (hcursor _ hfirst).trans (hafter due hdue).1.le

def everyMinute (t : Timestamp) : Prop := 60000 ∣ t.millis.toInt

/-- In `n` minutes `n + 1` occurrences are due. -/
theorem ncard_minutes {n : Nat} {now : Timestamp} (hnow : now.millis.toInt = n * 60000) :
    (dueSet everyMinute ⟨0⟩ now).ncard = n + 1 := by
  have hhi := now.millis.toInt_lt
  have hzero : toInt 0 = 0 := rfl
  have hint : ∀ i ∈ Finset.range (n + 1), (ofInt (i * 60000)).toInt = i * 60000 := by
    intro i hi
    rw [Finset.mem_range_succ_iff] at hi
    exact toInt_ofInt_of_le (by omega) (by omega)
  have hinj : InjOn (fun i : Nat => (⟨ofInt (i * 60000)⟩ : Timestamp)) (Finset.range (n + 1)) := by
    intro i hi j hj heq
    have heq : ofInt (i * 60000) = ofInt (j * 60000) := congrArg millis heq
    have hi := hint i hi
    rw [heq, hint j hj] at hi
    omega
  have himage : dueSet everyMinute ⟨0⟩ now =
      (fun i : Nat => (⟨ofInt (i * 60000)⟩ : Timestamp)) '' Finset.range (n + 1) := by
    ext u
    constructor
    · rintro ⟨⟨k, hk⟩, hlo, hle⟩
      have hlo : 0 ≤ u.millis.toInt := le_iff.mp hlo
      rw [le_iff] at hle
      have hmem : k.toNat ∈ Finset.range (n + 1) := Finset.mem_range_succ_iff.mpr (by omega)
      refine ⟨k.toNat, hmem, ext ?_⟩
      rw [hint _ hmem]
      omega
    · rintro ⟨i, hi, rfl⟩
      have hle := Finset.mem_range_succ_iff.mp (Finset.mem_coe.mp hi)
      refine ⟨⟨i, by rw [hint i hi]; ring⟩, ?_, ?_⟩
      · rw [le_iff, hint i hi, hzero]
        omega
      · rw [le_iff, hint i hi, hnow]
        omega
  rw [himage, hinj.ncard_image, ncard_coe_finset, Finset.card_range]

end Sample

open Sample in
/-- Two occurrences are due and two may be caught up. Calls of one occurrence each emit both. -/
theorem catch_up_survives_budgets_split : ∃ emitted skipped,
    (schedule ⟨2, by decide⟩).Drains ⟨60000⟩ (RecurringSchedule.Unhurried everyMinute 2)
        (.new (some ⟨0⟩) true) emitted skipped ∧
      emitted.map (·.intendedAt) = [⟨0⟩, ⟨60000⟩] ∧
      ∃ ev, (schedule ⟨2, by decide⟩).evaluate (.new (some ⟨0⟩) true) ⟨60000⟩ = .ok ev ∧
        emitted = ev.occurrences := by
  have hrun : (drained ⟨2, by decide⟩ [occurrencesCall 0 ⟨60000⟩ ⟨1, by decide⟩,
      occurrencesCall 1 ⟨60000⟩ ⟨1, by decide⟩] (.new (some ⟨0⟩) true) ∅).any
        (·.1.map (·.intendedAt) = [⟨0⟩, ⟨60000⟩]) = true := by decide +kernel
  obtain ⟨result, hresult, hboth⟩ := (any_eq_true _ _).mp hrun
  have hcount : (dueSet everyMinute ⟨0⟩ ⟨60000⟩).ncard = 2 := ncard_minutes rfl
  have hcalls : ∀ call ∈ [occurrencesCall 0 ⟨60000⟩ ⟨1, by decide⟩,
      occurrencesCall 1 ⟨60000⟩ ⟨1, by decide⟩], call.now = ⟨60000⟩ ∧
        ∀ cursor : ScheduleCursor, (∀ due ∈ cursor.nextDue, ⟨0⟩ ≤ due) →
          Unhurried everyMinute 2 cursor call := by
    intro call hmem
    have hnow : call.now = ⟨60000⟩ := by
      simp only [mem_cons, not_mem_nil, or_false] at hmem
      rcases hmem with rfl | rfl <;> rfl
    refine ⟨hnow, fun cursor hcursor => .inl fun due hdue => ?_⟩
    rw [hnow, ← hcount]
    exact ncard_le_ncard (dueSet_subset (hcursor due hdue)) (toFinite _)
  have hdrains := drains_of_drained hcalls (fun due hdue => by cases hdue; exact le_rfl) hresult
  have hlive : (schedule ⟨2, by decide⟩).Live (.new (some ⟨0⟩) true) := ⟨rfl, rfl, by decide⟩
  have hpolicy : (schedule ⟨2, by decide⟩).misfire = .catchUp ⟨2, by decide⟩ := rfl
  obtain ⟨ev, hev, hemitted, -⟩ := catch_up_survives_budgets minutely_lawful
    hpolicy hlive rfl (hcount.trans_le (by decide)) hdrains
  exact ⟨_, _, hdrains, of_decide_eq_true hboth, ev, hev, hemitted⟩

open Sample in
/-- Three occurrences are due and two may be caught up. Calls of one occurrence each emit all
three. -/
theorem catch_up_exceeded : ∃ emitted skipped ev,
    (schedule ⟨2, by decide⟩).Drains ⟨120000⟩ (fun _ _ => True) (.new (some ⟨0⟩) true)
        emitted skipped ∧
      (schedule ⟨2, by decide⟩).evaluate (.new (some ⟨0⟩) true) ⟨120000⟩ = .ok ev ∧
      emitted.length = 3 ∧ ev.occurrences.length = 2 := by
  have hrun : (drained ⟨2, by decide⟩ [occurrencesCall 0 ⟨120000⟩ ⟨1, by decide⟩,
      occurrencesCall 1 ⟨120000⟩ ⟨1, by decide⟩, occurrencesCall 2 ⟨120000⟩ ⟨1, by decide⟩]
      (.new (some ⟨0⟩) true) ∅).any (·.1.length = 3) = true := by decide +kernel
  have hev : ((schedule ⟨2, by decide⟩).evaluate (.new (some ⟨0⟩) true) ⟨120000⟩).toOption.any
      (·.occurrences.length = 2) = true := by decide +kernel
  obtain ⟨result, hresult, hthree⟩ := (any_eq_true _ _).mp hrun
  obtain ⟨ev, hok, htwo⟩ := (any_eq_true _ _).mp hev
  have hcalls : ∀ call ∈ [occurrencesCall 0 ⟨120000⟩ ⟨1, by decide⟩,
      occurrencesCall 1 ⟨120000⟩ ⟨1, by decide⟩, occurrencesCall 2 ⟨120000⟩ ⟨1, by decide⟩],
      call.now = ⟨120000⟩ ∧ ∀ cursor : ScheduleCursor, (∀ due ∈ cursor.nextDue, ⟨0⟩ ≤ due) → True := by
    intro call hmem
    simp only [mem_cons, not_mem_nil, or_false] at hmem
    rcases hmem with rfl | rfl | rfl <;> exact ⟨rfl, fun _ _ => trivial⟩
  have hdrains := drains_of_drained (D := fun _ _ => True) hcalls
    (fun due hdue => by cases hdue; exact le_rfl) hresult
  exact ⟨_, _, ev, hdrains, Except.toOption_eq_some.mp hok, of_decide_eq_true hthree,
    of_decide_eq_true htwo⟩

end AuxCommon
