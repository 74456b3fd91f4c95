import AuxCommon.Lib.Outcomes
import AuxCommon.Schedule.Backlog
import AuxCommon.Schedule.Materialise

/-!
# The emitted occurrences of a schedule

What one evaluation (`Evaluates`) and one materialisation (`Materializes`) return. Each emits
occurrences from the next due time to `now`, in order, and leaves a next due time after all of them,
so a sequence of calls emits no occurrence twice and none before an earlier one, whatever the times
of the calls and whatever controls come between (`Run.sorted`).
-/

namespace AuxCommon

open List Except CronExpression Backlog Timestamp ScheduleCursor Prog.CanReturn

namespace RecurringSchedule

variable {schedule : RecurringSchedule} {cursor cursor' : ScheduleCursor} {now : Timestamp}
  {m : ScheduleMaterialization} {ev : ScheduleEvaluation} {call : MaterializeCall} {sys : JobSystem}
  {limit : Option Nat}

/-! ## One evaluation -/

/-- The cursor is enabled, not paused and not held by a running occurrence. -/
def Live (schedule : RecurringSchedule) (cursor : ScheduleCursor) : Prop :=
  cursor.enabled = true ∧ cursor.paused = false ∧
    ¬(schedule.overlap = .forbid ∧ cursor.active = true)

/-- The results of an evaluation. -/
inductive Evaluates (schedule : RecurringSchedule) (cursor : ScheduleCursor) (now : Timestamp)
    (limit : Option Nat) : ScheduleEvaluation → Prop
  | inactive (h : ¬(schedule.Live cursor ∧ cursor.nextDue.isSome)) (ev : ScheduleEvaluation)
    (hnone : ev.occurrences = []) (hskipped : ev.skipped = 0) (hcursor : ev.cursor = cursor)
    (hresumable : ev.resumable = false) : Evaluates schedule cursor now limit ev
  | nothing {due : Timestamp} {b : Backlog} (hlive : schedule.Live cursor)
    (hdue : cursor.nextDue = some due)
    (hcollected : Backlog.Collected (schedule.backlogQuery cursor due now limit)
      maxOccurrenceScan due.preceding {} [] b) {wake : Option Timestamp}
    (hwake : schedule.cron.nextAtOrAfter now = .ok wake) :
    Evaluates schedule cursor now limit (.idle cursor (.fromOptionalTimestamp wake))
  | backlog {due : Timestamp} {b : Backlog} {l : List Timestamp} {nextDue : Option Timestamp}
    (hlive : schedule.Live cursor) (hdue : cursor.nextDue = some due)
    (hcollected : Backlog.Collected (schedule.backlogQuery cursor due now limit)
      maxOccurrenceScan due.preceding {} l b) (hl : l ≠ [])
    (hnext : schedule.nextDueAfter now b = .ok nextDue) :
    Evaluates schedule cursor now limit {
      occurrences := b.occurrences schedule.scheduleId cursor.generation schedule.misfire
      skipped := min (b.count - b.selectedCount schedule.misfire) (2 ^ 32 - 1)
      cursor := advanceCursor cursor nextDue (b.watermark schedule.misfire) b.last
      wake := if b.resumable then .now else .fromOptionalTimestamp nextDue
      blockedByOverlap := false
      resumable := b.resumable }

theorem evaluateWithLimit_eq_ok (h : schedule.evaluateWithLimit cursor now limit = .ok ev) :
    schedule.Evaluates cursor now limit ev := by
  unfold evaluateWithLimit at h
  split at h
  · rename_i hoff
    cases h
    refine .inactive (fun hlive => ?_) _ rfl rfl rfl rfl
    simp [hlive.1.1, hlive.1.2.1] at hoff
  · rename_i hon
    simp only [Bool.or_eq_true, Bool.not_eq_eq_eq_not, Bool.not_true, not_or, Bool.not_eq_false,
      Bool.not_eq_true] at hon
    split at h
    · rename_i hheld
      cases h
      exact .inactive (fun hlive => hlive.1.2.2 hheld) _ rfl rfl rfl rfl
    · rename_i hfree
      have hlive : schedule.Live cursor := ⟨hon.1, hon.2, hfree⟩
      split at h
      · rename_i hnone
        cases h
        refine .inactive (fun hlive => ?_) _ rfl rfl rfl rfl
        rw [hnone] at hlive
        cases hlive.2
      · rename_i due hdue
        obtain ⟨b, hb, h⟩ := bind_eq_ok.mp h
        obtain ⟨l, hl⟩ := collectBacklog_eq_ok hb
        obtain ⟨resumable, heq, -⟩ := hl.eq
        have hcount : b.count = l.length := by
          rw [heq]
          exact extend_empty.1
        unfold finishEvaluation at h
        split at h
        · rename_i hzero
          obtain ⟨wake, hwake, h⟩ := bind_eq_ok.mp h
          cases h
          rw [hcount] at hzero
          cases length_eq_zero_iff.mp hzero
          exact .nothing hlive hdue hl hwake
        · rename_i hpos
          obtain ⟨nextDue, hnext, h⟩ := bind_eq_ok.mp h
          cases h
          refine .backlog hlive hdue hl (fun hnil => hpos ?_) hnext
          rw [hcount, hnil]
          rfl

/-! ## One materialisation -/

/-- The results of a materialisation. -/
inductive Materializes (schedule : RecurringSchedule) (cursor : ScheduleCursor)
    (call : MaterializeCall) : ScheduleMaterialization → Prop
  | unfunded (h : call.budget.itemLimit = none) {m : ScheduleMaterialization}
    (hnone : m.occurrences = []) (hskipped : m.skipped = 0) (hcursor : m.cursor = cursor)
    (hcomplete : m.complete = false) : Materializes schedule cursor call m
  | full {limit : Nat} {ev : ScheduleEvaluation} (h : call.budget.itemLimit = some limit)
    (hev : schedule.evaluateForMaterialization cursor call.now limit = .ok ev)
    (hclock : ∀ i < ev.occurrences.length,
      call.budget.finishBy.isAtOrBefore (call.clock i) = false)
    {m : ScheduleMaterialization} (hall : m.occurrences.map (·.occurrence) = ev.occurrences)
    (hskipped : m.skipped = ev.skipped) (hcursor : m.cursor = ev.cursor)
    (hcomplete : m.complete = !ev.resumable) : Materializes schedule cursor call m
  | cut {limit n : Nat} {ev : ScheduleEvaluation} (h : call.budget.itemLimit = some limit)
    (hev : schedule.evaluateForMaterialization cursor call.now limit = .ok ev)
    (hn : n < ev.occurrences.length)
    (hclock : ∀ i < n, call.budget.finishBy.isAtOrBefore (call.clock i) = false)
    (hdeadline : call.budget.finishBy.isAtOrBefore (call.clock n) = true)
    {m : ScheduleMaterialization}
    (hsome : m.occurrences.map (·.occurrence) = ev.occurrences.take n) (hskipped : m.skipped = 0)
    (hcursor : n = 0 ∧ m.cursor = cursor ∨ ∃ last nextDue,
      (ev.occurrences.take n).getLast? = some last ∧
      schedule.cron.nextAfter last.intendedAt = .ok nextDue ∧
      m.cursor = resumeCursor ev.cursor nextDue last.intendedAt)
    (hcomplete : m.complete = false) : Materializes schedule cursor call m

theorem resumeMaterialization_eq_ok {materialized : List MaterializedOccurrence}
    (h : resumeMaterialization schedule cursor ev materialized = .ok m) :
    m.occurrences = materialized ∧ m.skipped = 0 ∧ m.complete = false ∧
      (materialized = [] ∧ m.cursor = cursor ∨ ∃ last nextDue,
        (materialized.map (·.occurrence)).getLast? = some last ∧
        schedule.cron.nextAfter last.intendedAt = .ok nextDue ∧
        m.cursor = resumeCursor ev.cursor nextDue last.intendedAt) := by
  obtain ⟨c, hc, h⟩ := bind_eq_ok.mp h
  cases h
  refine ⟨rfl, rfl, rfl, ?_⟩
  split at hc
  · rename_i entry hlast
    obtain ⟨nextDue, hnext, hc⟩ := bind_eq_ok.mp hc
    cases hc
    refine .inr ⟨entry.occurrence, nextDue, ?_, hnext, rfl⟩
    rw [getLast?_map, hlast]
    rfl
  · rename_i hnone
    cases hc
    exact .inl ⟨getLast?_eq_none_iff.mp hnone, rfl⟩

theorem materializeLoop_canReturn {limit : Nat} (hlimit : call.budget.itemLimit = some limit)
    (hev : schedule.evaluateForMaterialization cursor call.now limit = .ok ev)
    {rest : List ScheduleOccurrence} {done : List MaterializedOccurrence}
    (hsplit : done.map (·.occurrence) ++ rest = ev.occurrences)
    (hclock : ∀ i < done.length, call.budget.finishBy.isAtOrBefore (call.clock i) = false)
    (h : (materializeLoop sys schedule cursor call ev rest done).CanReturn (.ok m)) :
    schedule.Materializes cursor call m := by
  induction rest generalizing done with
  | nil =>
    cases h
    rw [append_nil] at hsplit
    exact .full hlimit hev (by rw [← hsplit, length_map]; exact hclock) hsplit rfl rfl rfl
  | cons o rest ih =>
    unfold materializeLoop at h
    split at h
    · rename_i hdeadline
      have hm : resumeMaterialization schedule cursor ev done = .ok m := by
        have hlift : (resumeMaterialization schedule cursor ev done).mapError
          JobSystemError.validation = .ok m := h
        exact mapError_eq_ok.mp hlift
      obtain ⟨hocc, hskipped, hcomplete, hcursor⟩ := resumeMaterialization_eq_ok hm
      have htake : ev.occurrences.take done.length = done.map (·.occurrence) := by
        rw [← hsplit, take_left' (by simp)]
      refine .cut hlimit hev ?_ hclock hdeadline (hocc ▸ htake.symm) hskipped ?_ hcomplete
      · rw [← hsplit]; simp
      · rw [htake]
        exact hcursor.imp_left fun h => ⟨by rw [h.1]; rfl, h.2⟩
    · rename_i hdeadline
      obtain ⟨job, -, h⟩ := of_bind h
      obtain ⟨result, -, h⟩ := of_bind h
      refine ih ?_ (fun i hi => ?_) h
      · rw [map_append, map_singleton, append_assoc, singleton_append]
        exact hsplit
      · rw [length_append, length_singleton] at hi
        rcases Nat.lt_succ_iff_lt_or_eq.mp hi with hi | rfl
        · exact hclock i hi
        · exact Bool.eq_false_iff.mpr hdeadline

theorem materialize_canReturn (h : (materialize sys schedule cursor call).CanReturn (.ok m)) :
    schedule.Materializes cursor call m := by
  unfold materialize at h
  split at h
  · rename_i hnone
    cases h
    exact .unfunded hnone rfl rfl rfl rfl
  · rename_i limit hlimit
    obtain ⟨ev, hev, h⟩ := of_bind h
    have hev : (schedule.evaluateForMaterialization cursor call.now limit).mapError
      JobSystemError.validation = .ok ev := hev
    exact materializeLoop_canReturn hlimit (mapError_eq_ok.mp hev) rfl (fun i hi => by cases hi) h

/-! ## What a call emits -/

/-- A call emits nothing and leaves the next due time, or emits occurrences between that time and
`now` in order and leaves a time after them. -/
inductive Advances (cursor : ScheduleCursor) (now : Timestamp) (emitted : List Timestamp)
    (cursor' : ScheduleCursor) : Prop
  | stays (hnone : emitted = []) (hdue : cursor'.nextDue = cursor.nextDue)
  | moves {due : Timestamp} (hdue : cursor.nextDue = some due) (hsorted : emitted.Pairwise (· < ·))
    (hrange : ∀ u ∈ emitted, due ≤ u ∧ u ≤ now)
    (hafter : ∀ n ∈ cursor'.nextDue, due < n ∧ ∀ u ∈ emitted, u < n)

variable {occurs : Timestamp → Prop} {l : List Timestamp}
  {emitted : List (ScheduleOccurrence × Timestamp)} {query : BacklogQuery}

theorem occurrences_sublist {b : Backlog}
    {resumable : Bool} (heq : b = { extend query {} l with resumable })
    (policy : MisfirePolicy) (scheduleId : ScheduleId) (generation : U32) :
    ((b.occurrences scheduleId generation policy).map (·.intendedAt)).Sublist l := by
  cases policy with
  | skip => exact nil_sublist _
  | fireOnce =>
    have hlast : b.last = l.getLast? := by
      rw [heq]
      exact extend_last.trans (Option.or_none ..)
    unfold occurrences
    rw [hlast, map_map]
    cases h : l.getLast? with
    | none => exact nil_sublist _
    | some last => exact singleton_sublist.mpr (mem_of_getLast? h)
  | catchUp maximumOccurrences =>
    have hselected : b.selected.map (·.intendedAt) = l.take query.limit := by
      rw [heq]
      rw [extend_selected, nil_append, map_map]
      exact map_id' _
    unfold occurrences
    dsimp only
    rw [map_take, hselected]
    exact (take_sublist _ _).trans (take_sublist _ _)

theorem le_of_getLast? {last u : Timestamp} (hsorted : l.Pairwise (· < ·))
    (hlast : l.getLast? = some last) (hu : u ∈ l) : u ≤ last := by
  have hle : l.Pairwise (· ≤ ·) := hsorted.imp fun h => le_of_lt h
  rw [getLast?_eq_some_getLast (ne_nil_of_mem hu)] at hlast
  cases hlast
  exact hle.rel_getLast hu

/-- The next due time of an evaluation is after all that it has seen. -/
theorem nextDueAfter_lt (hcron : schedule.cron.Lawful occurs) {t n : Timestamp}
    {b : Backlog} {nextDue : Option Timestamp}
    (hquery : query.cron = schedule.cron ∧ query.now = now) {scan : Nat}
    (hcollected : Collected query scan t {} l b) (hl : l ≠ [])
    (h : schedule.nextDueAfter now b = .ok nextDue) (hn : nextDue = some n) : ∀ u ∈ l, u < n := by
  obtain ⟨resumable, heq, -⟩ := hcollected.eq
  have hlast : b.last = some (chainEnd t l) := by
    rw [heq]
    exact extend_last.trans (by rw [chainEnd_eq hl]; rfl)
  intro u hu
  unfold nextDueAfter at h
  split at h
  · rw [hlast] at h
    obtain ⟨next, hnext, h⟩ := bind_eq_ok.mp h
    obtain ⟨found, hfound, hnext⟩ := bind_eq_ok.mp hnext
    cases hnext
    cases h
    have hfound : schedule.cron.nextAfter (chainEnd t l) = .ok (some n) := by
      rw [hfound]; exact congrArg ok hn
    have hle : u ≤ chainEnd t l :=
      le_of_getLast? (hcollected.chain.sorted (hquery.1 ▸ hcron)) (chainEnd_eq hl) hu
    exact hle.trans_lt (hcron.next hfound).1
  · rw [hn] at h
    exact (hquery.2 ▸ hcollected.le u hu).trans_lt (hcron.next h).1

theorem Evaluates.advances (hcron : schedule.cron.Lawful occurs)
    (h : schedule.Evaluates cursor now limit ev) :
    Advances cursor now (ev.occurrences.map (·.intendedAt)) ev.cursor := by
  cases h with
  | inactive _ _ hnone _ hcursor => exact .stays (by rw [hnone]; rfl) (by rw [hcursor])
  | nothing => exact .stays rfl rfl
  | @backlog due b l nextDue hlive hdue hcollected hl hnext =>
    obtain ⟨resumable, heq, -⟩ := hcollected.eq
    have hsub := occurrences_sublist heq schedule.misfire schedule.scheduleId cursor.generation
    have hge : ∀ u ∈ l, due ≤ u := fun u hu =>
      le_of_preceding_lt (hcollected.chain.lt hcron u hu)
    refine .moves hdue ((hcollected.chain.sorted hcron).sublist hsub)
      (fun u hu => ⟨hge u (hsub.subset hu), hcollected.le u (hsub.subset hu)⟩) fun n hn => ?_
    have hlt := nextDueAfter_lt hcron ⟨rfl, rfl⟩ hcollected hl hnext hn
    obtain ⟨u, hu⟩ := exists_mem_of_ne_nil l hl
    exact ⟨(hge u hu).trans_lt (hlt u hu), fun u hu => hlt u (hsub.subset hu)⟩

theorem Materializes.advances (hcron : schedule.cron.Lawful occurs)
    (h : schedule.Materializes cursor call m) :
    Advances cursor call.now (m.occurrences.map (·.occurrence.intendedAt)) m.cursor := by
  have hmap : m.occurrences.map (·.occurrence.intendedAt) =
      (m.occurrences.map (·.occurrence)).map (·.intendedAt) := by rw [map_map]; rfl
  rw [hmap]
  cases h with
  | unfunded _ hnone _ hcursor => exact .stays (by rw [hnone]; rfl) (by rw [hcursor])
  | full _ hev _ hall _ hcursor =>
    rw [hall, hcursor]
    exact (evaluateWithLimit_eq_ok hev).advances hcron
  | @cut limit n ev _ hev hn _ _ _ hsome _ hcursor =>
    rw [hsome]
    rcases hcursor with ⟨rfl, hcursor⟩ | ⟨last, nextDue, hlast, hnext, hcursor⟩
    · exact .stays rfl (by rw [hcursor])
    · cases (evaluateWithLimit_eq_ok hev).advances hcron with
      | stays hnone =>
        rw [map_eq_nil_iff.mp hnone] at hn
        cases hn
      | moves hdue hsorted hrange =>
        have hsub : ((ev.occurrences.take n).map (·.intendedAt)).Sublist
          (ev.occurrences.map (·.intendedAt)) := (take_sublist _ _).map _
        have hlast' : ((ev.occurrences.take n).map (·.intendedAt)).getLast? =
            some last.intendedAt := by rw [getLast?_map, hlast]; rfl
        have hmem := mem_of_getLast? hlast'
        refine .moves hdue (hsorted.sublist hsub) (fun u hu => hrange u (hsub.subset hu)) ?_
        intro n' hn'
        rw [hcursor] at hn'
        have hn' : nextDue = some n' := hn'
        have hlt := (hcron.next (hn' ▸ hnext)).1
        exact ⟨(hrange _ (hsub.subset hmem)).1.trans_lt hlt, fun u hu =>
          (le_of_getLast? (hsorted.sublist hsub) hlast' hu).trans_lt hlt⟩

/-! ## Sequences of calls -/

/-- One call that returns a cursor, with what it emits and the time of the call. -/
inductive Call (schedule : RecurringSchedule) :
    ScheduleCursor → List (ScheduleOccurrence × Timestamp) → ScheduleCursor → Prop
  | evaluate {cursor : ScheduleCursor} {now : Timestamp} {ev : ScheduleEvaluation}
    (h : schedule.evaluate cursor now = .ok ev) :
    Call schedule cursor (ev.occurrences.map (·, now)) ev.cursor
  | materialize {cursor : ScheduleCursor} {sys : JobSystem} {call : MaterializeCall}
    {m : ScheduleMaterialization}
    (h : (AuxCommon.materialize sys schedule cursor call).CanReturn (.ok m)) :
    Call schedule cursor (m.occurrences.map (·.occurrence, call.now)) m.cursor
  | control (cursor : ScheduleCursor) (revision : U64) (generation : U32)
    (control : ScheduleControl) :
    Call schedule cursor [] (cursor.applyControl revision generation control).2
  | started (cursor : ScheduleCursor) (generation : U32) (revision : U64) :
    Call schedule cursor [] (cursor.markStarted generation revision).2
  | completed (cursor : ScheduleCursor) (generation : U32) (revision : U64) :
    Call schedule cursor [] (cursor.markCompleted generation revision).2

/-- Calls one after the other, each from the cursor that the one before returned. -/
inductive Run (schedule : RecurringSchedule) :
    ScheduleCursor → List (ScheduleOccurrence × Timestamp) → ScheduleCursor → Prop
  | nil (cursor : ScheduleCursor) : Run schedule cursor [] cursor
  | cons {cursor₀ cursor₁ cursor₂ : ScheduleCursor}
    {emitted emitted' : List (ScheduleOccurrence × Timestamp)}
    (call : schedule.Call cursor₀ emitted cursor₁) (rest : Run schedule cursor₁ emitted' cursor₂) :
    Run schedule cursor₀ (emitted ++ emitted') cursor₂

theorem applyControl_nextDue (cursor : ScheduleCursor) (revision : U64) (generation : U32)
    (control : ScheduleControl) :
    (cursor.applyControl revision generation control).2.nextDue = cursor.nextDue := by
  unfold applyControl
  split
  · rfl
  · cases control <;> rfl

theorem markStarted_nextDue (cursor : ScheduleCursor) (generation : U32) (revision : U64) :
    (cursor.markStarted generation revision).2.nextDue = cursor.nextDue := by
  unfold markStarted
  split <;> rfl

theorem markCompleted_nextDue (cursor : ScheduleCursor) (generation : U32) (revision : U64) :
    (cursor.markCompleted generation revision).2.nextDue = cursor.nextDue := by
  unfold markCompleted
  split <;> rfl

/-- All that a call emits carries the time of the call, and the cursor moves past it. -/
theorem Call.advances (hcron : schedule.cron.Lawful occurs)
    (h : schedule.Call cursor emitted cursor') :
    ∃ now, (∀ e ∈ emitted, e.2 = now) ∧
      Advances cursor now (emitted.map (·.1.intendedAt)) cursor' := by
  cases h with
  | @evaluate now ev h =>
    refine ⟨now, by simp, ?_⟩
    rw [map_map]
    exact (evaluateWithLimit_eq_ok h).advances hcron
  | @materialize sys call m h =>
    refine ⟨call.now, by simp, ?_⟩
    rw [map_map]
    exact (materialize_canReturn h).advances hcron
  | control => exact ⟨⟨0⟩, nofun, .stays rfl (applyControl_nextDue ..)⟩
  | started => exact ⟨⟨0⟩, nofun, .stays rfl (markStarted_nextDue ..)⟩
  | completed => exact ⟨⟨0⟩, nofun, .stays rfl (markCompleted_nextDue ..)⟩

/-- The invariant of a run, from its end: what is still to come is in order and not before the next
due time. -/
theorem Run.sorted (hcron : schedule.cron.Lawful occurs) (h : schedule.Run cursor emitted cursor') :
    (emitted.map (·.1.intendedAt)).Pairwise (· < ·) ∧ (∀ e ∈ emitted, e.1.intendedAt ≤ e.2) ∧
      ∀ u ∈ emitted.map (·.1.intendedAt), ∃ due, cursor.nextDue = some due ∧ due ≤ u := by
  induction h with
  | nil cursor => exact ⟨.nil, nofun, nofun⟩
  | cons call rest ih =>
    obtain ⟨hsorted', hnow', hdue'⟩ := ih
    obtain ⟨now, htime, hadvances⟩ := call.advances hcron
    rw [map_append]
    cases hadvances with
    | stays hnone hsame =>
      rw [map_eq_nil_iff.mp hnone, map_nil, nil_append, nil_append]
      exact ⟨hsorted', hnow', hsame ▸ hdue'⟩
    | @moves due hdue hsorted hrange hafter =>
      refine ⟨pairwise_append.mpr ⟨hsorted, hsorted', fun u hu v hv => ?_⟩, fun e he => ?_,
        fun u hu => ?_⟩
      · obtain ⟨n, hn, hle⟩ := hdue' v hv
        exact ((hafter n hn).2 u hu).trans_le hle
      · rcases mem_append.mp he with he | he
        · rw [htime e he]
          exact (hrange _ (mem_map_of_mem he)).2
        · exact hnow' e he
      · rcases mem_append.mp hu with hu | hu
        · exact ⟨due, hdue, (hrange u hu).1⟩
        · obtain ⟨n, hn, hle⟩ := hdue' u hu
          exact ⟨due, hdue, (hafter n hn).1.le.trans hle⟩

/-- Over any sequence of calls, at any times and with any controls between them, the emitted
occurrences are strictly increasing, and each is at or before the time of its call. -/
theorem occurrences_never_repeat (hcron : schedule.cron.Lawful occurs)
    {emitted : List (ScheduleOccurrence × Timestamp)} (h : schedule.Run cursor emitted cursor') :
    (emitted.map (·.1.intendedAt)).Pairwise (· < ·) ∧ ∀ e ∈ emitted, e.1.intendedAt ≤ e.2 :=
  ⟨(h.sorted hcron).1, (h.sorted hcron).2.1⟩

end RecurringSchedule

namespace Sample

/-- The cron expression `* * * * *`: each minute. -/
def minutely : CronExpression where
  representable _ := true
  after t :=
    let next := (t.millis.toInt / 60000 + 1) * 60000
    if next < 2 ^ 63 then some ⟨Int64.ofInt next⟩ else none

theorem minutely_lawful : minutely.Lawful fun t => 60000 ∣ t.millis.toInt where
  next {t n} h := by
    have hlo := t.millis.le_toInt
    have h := ok.inj h
    dsimp only [minutely] at h
    split at h
    · rename_i hlt
      cases h
      have hn : (Int64.ofInt ((t.millis.toInt / 60000 + 1) * 60000)).toInt =
          (t.millis.toInt / 60000 + 1) * 60000 :=
        Int64.toInt_ofInt_of_le (by omega) hlt
      simp only [lt_iff, le_iff, hn]
      exact ⟨by omega, by omega, fun m hm hdvd => by omega⟩
    · cases h
  last {t} h m hlt hdvd := by
    have hhi := m.millis.toInt_lt
    have h := ok.inj h
    dsimp only [minutely] at h
    rw [lt_iff] at hlt
    split at h
    · cases h
    · omega
  least t hdvd heq := by
    rw [heq] at hdvd
    revert hdvd
    decide

def schedule (n : NonZero 16) : RecurringSchedule where
  scheduleId := .repeated 7
  jobTemplate := {
    kind := kind
    schemaVersion := ⟨1, NonZero.one_ne_zero16⟩
    payload := [1, 2, 3]
    fairness := .lowVolume
    orderingKey := none
    priority := .default
    expiresAfter := none
    retryOverride := none
    deduplication := none
    payload_le := by decide
    expiresAfter_ne := nofun }
  cron := minutely
  misfire := .catchUp n
  overlap := .allow
  enabled := true

/-- The sample system with a hash that keeps the end of its input. -/
def hashingSystem : JobSystem :=
  { system with sha256 := fun bytes => Vector.ofFn fun i => bytes.reverse[i.val]?.getD 0 }

/-- The materialisation with this number, of at most `limit` occurrences and without a deadline. -/
def occurrencesCall (number : Nat) (now : Timestamp) (limit : NonZero 32) : MaterializeCall where
  now := now
  budget := ⟨limit, ⟨4000, by decide⟩, ⟨BitVec.allOnes 64⟩⟩
  clock _ := ⟨0⟩
  ids i := ⟨.repeated (UInt8.ofNat (16 * number + i)), .repeated (UInt8.ofNat (16 * number + i))⟩

/-- What a call returns when it runs alone on a store, and the store after it. -/
def materialized (n : NonZero 16) (cursor : ScheduleCursor) (call : MaterializeCall)
    (w : JobWorld) : Option (ScheduleMaterialization × JobWorld) :=
  let result := (AuxCommon.materialize hashingSystem (schedule n) cursor call).run w
  result.1.toOption.map (·, result.2)

theorem materialized_canReturn {n : NonZero 16} {cursor : ScheduleCursor} {call : MaterializeCall}
    {w : JobWorld} {m : ScheduleMaterialization × JobWorld}
    (h : materialized n cursor call w = some m) :
    (AuxCommon.materialize hashingSystem (schedule n) cursor call).CanReturn (.ok m.1) := by
  have hrun := Prog.canReturn_run (AuxCommon.materialize hashingSystem (schedule n) cursor call) w
  obtain ⟨m', hm', rfl⟩ := Option.map_eq_some_iff.mp h
  rw [toOption_eq_some.mp hm'] at hrun
  exact hrun

/-- The cursor after the occurrence at the start. -/
def afterFirst : ScheduleCursor :=
  { ScheduleCursor.new (some ⟨60000⟩) true with
    watermark := some ⟨0⟩, revision := 1, lastIntended := some ⟨0⟩ }

end Sample

open Sample in
/-- A budgeted call that leaves work, a call after the clock went back, and a pause. -/
theorem occurrences_never_repeat_resumed : ∃ emitted cursor',
    (schedule ⟨2, by decide⟩).Run (.new (some ⟨0⟩) true) emitted cursor' ∧
      emitted.map (fun e => (e.1.intendedAt, e.2)) = [(⟨0⟩, ⟨120000⟩), (⟨60000⟩, ⟨60000⟩)] ∧
      (emitted.map (·.1.intendedAt)).Pairwise (· < ·) ∧ ∀ e ∈ emitted, e.1.intendedAt ≤ e.2 := by
  have hfirst : (materialized ⟨2, by decide⟩ (.new (some ⟨0⟩) true)
      (occurrencesCall 0 ⟨120000⟩ ⟨1, by decide⟩) ∅).any (fun m =>
        m.1.occurrences.map (·.occurrence.intendedAt) = [⟨0⟩] ∧ m.1.cursor = afterFirst) = true := by
    decide +kernel
  obtain ⟨m, hm, hfacts⟩ := (Option.any_eq_true _ _).mp hfirst
  obtain ⟨hemitted, hcursor⟩ := of_decide_eq_true hfacts
  have hsecond : ((schedule ⟨2, by decide⟩).evaluate afterFirst ⟨60000⟩).toOption.any (fun ev =>
      ev.occurrences.map (·.intendedAt) = [⟨60000⟩]) = true := by
    decide +kernel
  obtain ⟨ev, hev, hnext⟩ := (Option.any_eq_true _ _).mp hsecond
  have hnext := of_decide_eq_true hnext
  have hev : (schedule ⟨2, by decide⟩).evaluate m.1.cursor ⟨60000⟩ = .ok ev := by
    rw [hcursor]
    exact toOption_eq_some.mp hev
  have hrun := RecurringSchedule.Run.cons (.materialize (materialized_canReturn hm))
    (.cons (.evaluate hev) (.cons (.control ev.cursor ev.cursor.revision ev.cursor.generation .pause)
      (.nil _)))
  refine ⟨_, _, hrun, ?_, RecurringSchedule.occurrences_never_repeat minutely_lawful hrun⟩
  simp only [append_nil, map_append, map_map]
  have hfirst' : m.1.occurrences.map (fun o => (o.occurrence.intendedAt,
      (occurrencesCall 0 ⟨120000⟩ ⟨1, by decide⟩).now)) =
      (m.1.occurrences.map (·.occurrence.intendedAt)).map (·, ⟨120000⟩) := by
    rw [map_map]; rfl
  have hsecond' : ev.occurrences.map (fun o => (o.intendedAt, (⟨60000⟩ : Timestamp))) =
      (ev.occurrences.map (·.intendedAt)).map (·, ⟨60000⟩) := by
    rw [map_map]; rfl
  refine (congrArg₂ (· ++ ·) hfirst' hsecond').trans ?_
  rw [hemitted, hnext]
  rfl

end AuxCommon
