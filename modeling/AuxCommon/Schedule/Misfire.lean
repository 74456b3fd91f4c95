import AuxCommon.Schedule.CatchUp

/-!
# What an evaluation reports of a downtime

An evaluation without a budget scans at most `MAX_OCCURRENCE_SCAN` occurrences, whatever the misfire
policy. What it emits and skips are those that it has scanned (`Reports`), and the new due time is the
first one after `now` in any case. So between times that the calendar represents the report is exact
for a live cursor unless more than 65535 occurrences are due (`misfire_exact_iff`); then the rest is
neither emitted nor counted, and `FireOnce` emits an occurrence that is not the last.
-/

namespace AuxCommon

open List CronExpression Backlog

namespace CronExpression

variable {cron : CronExpression} {occurs : Timestamp → Prop} {due now : Timestamp}
  {l : List Timestamp}

/-- Between two times that the calendar represents a scan goes on until nothing is due or `n`
occurrences are seen. -/
theorem exists_chain (hcron : cron.Lawful occurs)
    (hcalendar : {t | cron.representable t = true}.OrdConnected) {t : Timestamp}
    (ht : cron.representable t = true) (hnow : cron.representable now = true) (n : Nat) :
    ∃ l, cron.Chain t l ∧ (∀ u ∈ l, u ≤ now) ∧ l.length ≤ n ∧
      (l.length = n ∨ cron.Ends now (chainEnd t l)) := by
  induction n generalizing t with
  | zero => exact ⟨[], .nil t, by simp, le_rfl, .inl rfl⟩
  | succ n ih =>
    have hnext : cron.nextAfter t = .ok (cron.after t) := if_pos ht
    by_cases hlater : ∀ m ∈ cron.after t, now < m
    · exact ⟨[], .nil t, by simp, Nat.zero_le _, .inr ⟨_, hnext, hlater⟩⟩
    · push Not at hlater
      obtain ⟨m, hm, hdue⟩ := hlater
      rw [Option.mem_def.mp hm] at hnext
      have hm : cron.representable m = true :=
        hcalendar.out ht hnow ⟨(hcron.next hnext).1.le, hdue⟩
      obtain ⟨l, hchain, hle, hlength, hends⟩ := ih hm
      exact ⟨m :: l, .cons hnext hchain, forall_mem_cons.mpr ⟨hdue, hle⟩,
        Nat.succ_le_succ hlength, hends.imp (congrArg (· + 1)) id⟩

theorem exists_due (hcron : cron.Lawful occurs)
    (hcalendar : {t | cron.representable t = true}.OrdConnected)
    (hdue : cron.representable due.preceding = true) (hnow : cron.representable now = true) :
    ∃ l, Due cron due now l := by
  obtain ⟨l, hchain, hle, hlength, hends⟩ := exists_chain hcron hcalendar hdue hnow maxOccurrenceScan
  exact ⟨l, hchain, hle, hlength, hends⟩

theorem Due.representable (h : Due cron due now l) (hl : l ≠ []) :
    cron.representable due.preceding = true := by
  obtain ⟨hchain, -, -, -⟩ := h
  cases hchain with
  | nil => exact absurd rfl hl
  | cons next rest => exact (nextAfter_eq_ok.mp next).1

/-- A scan that does not run into its limit sees all that is due. -/
theorem Due.mem_iff (hcron : cron.Lawful occurs) (h : Due cron due now l)
    (hcount : (dueSet occurs due now).ncard ≤ maxOccurrenceScan) (u : Timestamp) :
    u ∈ l ↔ u ∈ dueSet occurs due now := by
  have hlength := h.length_eq hcron hcount
  rw [← ncard_eq_length (h.chain.sorted hcron)] at hlength
  have heq := Set.eq_of_subset_of_ncard_le (h.chain.subset_dueSet hcron h.le) hlength.ge
    (Set.toFinite _)
  exact Set.ext_iff.mp heq u

/-- A scan sees something if something is due. -/
theorem Due.ne_nil (hcron : cron.Lawful occurs) (h : Due cron due now l)
    (hdue : (dueSet occurs due now).Nonempty) : l ≠ [] := by
  rintro rfl
  obtain ⟨u, hu⟩ := hdue
  rcases h.ends with hfull | hend
  · cases hfull
  · exact absurd (h.mem_of_ends hcron hend hu) not_mem_nil

end CronExpression

namespace RecurringSchedule

variable {schedule : RecurringSchedule} {cursor : ScheduleCursor} {now due : Timestamp}
  {occurs : Timestamp → Prop} {l : List Timestamp} {next : Option Timestamp}
  {ev : ScheduleEvaluation}

/-- What is emitted of these times. -/
def selects : MisfirePolicy → List Timestamp → List Timestamp
  | .skip, _ => []
  | .fireOnce, l => l.getLast?.toList
  | .catchUp maximum, l => l.take maximum.get.toNat

/-- What an evaluation says that has seen these times. -/
structure Reports (schedule : RecurringSchedule) (cursor : ScheduleCursor) (now : Timestamp)
    (l : List Timestamp) (ev : ScheduleEvaluation) : Prop where
  occurrences : ev.occurrences =
    schedule.occurrencesAt cursor.generation (selects schedule.misfire l)
  skipped : ev.skipped + ev.occurrences.length = l.length
  nextDue : schedule.cron.nextAfter now = .ok ev.cursor.nextDue

/-- The selection of a backlog without a budget. -/
theorem extend_occurrences (schedule : RecurringSchedule) (cursor : ScheduleCursor)
    (due now : Timestamp) (hl : l ≠ []) :
    let b := extend (schedule.backlogQuery cursor due now none) {} l
    b.occurrences schedule.scheduleId cursor.generation schedule.misfire =
        schedule.occurrencesAt cursor.generation (selects schedule.misfire l) ∧
      b.selectedCount schedule.misfire = (selects schedule.misfire l).length := by
  intro b
  have hcount : b.count = l.length := extend_empty.1
  have hlast : b.last = l.getLast? := extend_last.trans (Option.or_none ..)
  cases hpolicy : schedule.misfire with
  | skip => exact ⟨rfl, rfl⟩
  | fireOnce =>
    obtain ⟨last, hsome⟩ := Option.isSome_iff_exists.mp (getLast?_isSome.mpr hl)
    refine ⟨by rw [occurrences, hlast, occurrencesAt, selects], ?_⟩
    rw [selectedCount, hcount, if_pos (fun h => hl (length_eq_zero_iff.mp h)), selects, hsome]
    rfl
  | catchUp maximum =>
    have hlimit : (schedule.backlogQuery cursor due now none).limit = maximum.get.toNat :=
      limit_catchUp hpolicy none
    have hselected : b.selected = _ := extend_selected.trans (nil_append _)
    rw [hlimit, length_nil, Nat.sub_zero] at hselected
    rw [occurrences, selectedCount, hselected, ← map_take, take_take,
      Nat.min_self, length_map, length_take]
    exact ⟨rfl, by rw [selects, length_take]; omega⟩

theorem length_selects_le (policy : MisfirePolicy) (l : List Timestamp) :
    (selects policy l).length ≤ l.length := by
  cases policy with
  | skip => exact Nat.zero_le _
  | fireOnce => rcases eq_nil_or_concat l with rfl | ⟨l, last, rfl⟩ <;> simp [selects]
  | catchUp maximum => exact length_take_le' ..

/-- An evaluation of a live cursor reports what it has scanned. -/
theorem evaluate_reports (hlive : schedule.Live cursor) (hdue : cursor.nextDue = some due)
    (hl : schedule.cron.Due due now l) (hne : l ≠ [])
    (hnext : schedule.cron.nextAfter now = .ok next) :
    ∃ ev, schedule.evaluate cursor now = .ok ev ∧ schedule.Reports cursor now l ev := by
  obtain ⟨hoccurrences, hselected⟩ := extend_occurrences schedule cursor due now hne
  rw [evaluate_eq_finish hlive hdue hl]
  unfold finishEvaluation nextDueAfter
  rw [extend_empty.1, if_neg (fun h => hne (length_eq_zero_iff.mp h)),
    extend_empty.2, if_neg Bool.false_ne_true, hnext]
  refine ⟨_, rfl, hoccurrences, ?_, hnext⟩
  change min (l.length - _) (2 ^ 32 - 1) + (occurrences _ _ _ _).length = l.length
  have hscan : l.length ≤ 65535 := hl.length_le
  have hle := length_selects_le schedule.misfire l
  rw [hoccurrences, hselected, occurrencesAt, length_map]
  omega

/-- Which of the occurrences that are due a policy emits. -/
def Emits : MisfirePolicy → Set Timestamp → List Timestamp → Prop
  | .skip, _, l => l = []
  | .fireOnce, O, l => ∃ last, IsGreatest O last ∧ l = [last]
  | .catchUp maximum, O, l => l.Pairwise (· < ·) ∧ l.length = min maximum.get.toNat O.ncard ∧
    (∀ u ∈ l, u ∈ O) ∧ ∀ u ∈ l, ∀ v ∈ O, v ∉ l → u < v

/-- The first occurrence after a time, if there is one. -/
def IsFirstAfter (occurs : Timestamp → Prop) (now : Timestamp) : Option Timestamp → Prop
  | some n => IsLeast {u | occurs u ∧ now < u} n
  | none => ∀ u, now < u → ¬occurs u

/-- The exact report of what is due from `due` to `now`. -/
structure Exact (schedule : RecurringSchedule) (occurs : Timestamp → Prop) (generation : U32)
    (due now : Timestamp) (ev : ScheduleEvaluation) : Prop where
  skipped : ev.skipped + ev.occurrences.length = (CronExpression.dueSet occurs due now).ncard
  emitted : ∃ l, Emits schedule.misfire (CronExpression.dueSet occurs due now) l ∧
    ev.occurrences = schedule.occurrencesAt generation l
  nextDue : IsFirstAfter occurs now ev.cursor.nextDue

theorem selects_emits (hcron : schedule.cron.Lawful occurs) (hl : schedule.cron.Due due now l)
    (hne : l ≠ []) (hcount : (dueSet occurs due now).ncard ≤ maxOccurrenceScan)
    (policy : MisfirePolicy) :
    Emits policy (dueSet occurs due now) (selects policy l) := by
  have hmem := hl.mem_iff hcron hcount
  have hsorted := hl.chain.sorted hcron
  cases policy with
  | skip => rfl
  | fireOnce =>
    obtain ⟨last, hlast⟩ := Option.isSome_iff_exists.mp (getLast?_isSome.mpr hne)
    refine ⟨last, ⟨(hmem last).mp (mem_of_getLast? hlast), fun u hu => ?_⟩, ?_⟩
    · exact le_of_getLast? hsorted hlast ((hmem u).mpr hu)
    · rw [selects, hlast]
      rfl
  | catchUp maximum =>
    rw [← take_append_drop maximum.get.toNat l, pairwise_append] at hsorted
    obtain ⟨hfirst, -, hbefore⟩ := hsorted
    refine ⟨hfirst, ?_, fun u hu => (hmem u).mp (mem_of_mem_take hu), fun u hu v hv hnot => ?_⟩
    · rw [← hl.length_eq hcron hcount, selects, length_take]
    · have hv := (hmem v).mpr hv
      rw [← take_append_drop maximum.get.toNat l, mem_append] at hv
      exact hbefore u hu v (hv.resolve_left hnot)

theorem isFirstAfter_of_nextAfter (hcron : schedule.cron.Lawful occurs)
    (h : schedule.cron.nextAfter now = .ok next) : IsFirstAfter occurs now next := by
  cases next with
  | none => exact hcron.last h
  | some n =>
    obtain ⟨hlt, hoccurs, hleast⟩ := hcron.next h
    exact ⟨⟨hoccurs, hlt⟩, fun u hu => hleast u hu.2 hu.1⟩

/-- A cursor that is not live emits and skips nothing. -/
theorem evaluate_inactive (hinactive : ¬schedule.Live cursor)
    (h : schedule.evaluate cursor now = .ok ev) : ev.occurrences = [] ∧ ev.skipped = 0 := by
  cases evaluateWithLimit_eq_ok h with
  | inactive _ _ hnone hskipped _ _ => exact ⟨hnone, hskipped⟩
  | nothing hlive => exact absurd hlive hinactive
  | backlog hlive => exact absurd hlive hinactive

/-- An evaluation without a budget has seen all that is due, as far as a scan goes. -/
theorem Evaluates.scanned (hlive : schedule.Live cursor) (hdue : cursor.nextDue = some due)
    (h : schedule.Evaluates cursor now none ev) :
    ∃ l, schedule.cron.Due due now l ∧ schedule.Finishes now l := by
  have hwhole {t : Timestamp} {l : List Timestamp} {n : Nat} {resumable : Bool}
      (hstops : Stops (schedule.backlogQuery cursor due now none) maxOccurrenceScan t l n
        resumable) : resumable = false := by
    by_contra hr
    have hstop := (hstops.next (Bool.eq_true_of_not_eq_false hr)).2.1
    exact absurd ((stopAfterSelection_none schedule.misfire).symm.trans hstop) Bool.false_ne_true
  cases h with
  | inactive hidle => exact absurd ⟨hlive, by rw [hdue]; rfl⟩ hidle
  | nothing _ hdue' hcollected hwake =>
    cases hdue.symm.trans hdue'
    obtain ⟨resumable, -, hstops⟩ := hcollected.eq
    refine ⟨[], ⟨hcollected.chain, hcollected.le, hcollected.length_le,
      hstops.ends (hwhole hstops)⟩, ?_⟩
    rw [Finishes, if_pos rfl]
    exact ⟨_, hwake⟩
  | @backlog due' b l nextDue _ hdue' hcollected hl hnext =>
    cases hdue.symm.trans hdue'
    obtain ⟨resumable, heq, hstops⟩ := hcollected.eq
    have hr := hwhole hstops
    refine ⟨l, ⟨hcollected.chain, hcollected.le, hcollected.length_le, hstops.ends hr⟩, ?_⟩
    rw [nextDueAfter, heq, if_neg (by rw [hr]; exact Bool.false_ne_true)] at hnext
    rw [Finishes, if_neg hl]
    exact ⟨_, hnext⟩

/-- An exact report is of no more than one scan sees, between times that the calendar represents. -/
theorem Exact.scannable (hcron : schedule.cron.Lawful occurs) (hlive : schedule.Live cursor)
    (hdue : cursor.nextDue = some due) (hsome : (dueSet occurs due now).Nonempty)
    (hev : schedule.evaluate cursor now = .ok ev)
    (h : schedule.Exact occurs cursor.generation due now ev) :
    schedule.cron.representable due.preceding = true ∧ schedule.cron.representable now = true ∧
      (dueSet occurs due now).ncard ≤ maxOccurrenceScan := by
  obtain ⟨l, hl, hfinish⟩ := (evaluateWithLimit_eq_ok hev).scanned hlive hdue
  have hne := hl.ne_nil hcron hsome
  rw [Finishes, if_neg hne] at hfinish
  obtain ⟨next, hnext⟩ := hfinish
  obtain ⟨ev', hev', hreports⟩ := evaluate_reports hlive hdue hl hne hnext
  cases hev.symm.trans hev'
  exact ⟨hl.representable hne, (nextAfter_eq_ok.mp hnext).1,
    (h.skipped.symm.trans hreports.skipped).trans_le hl.length_le⟩

/-- If something is due, the evaluation without a budget succeeds with an exact report precisely when
the cursor is live, the calendar represents the times that the scan starts from and ends at, and no
more is due than one scan sees. The calendar represents the times of an interval. -/
theorem misfire_exact_iff (hcron : schedule.cron.Lawful occurs)
    (hcalendar : {t | schedule.cron.representable t = true}.OrdConnected)
    (hdue : cursor.nextDue = some due) (hsome : (CronExpression.dueSet occurs due now).Nonempty) :
    (∃ ev, schedule.evaluate cursor now = .ok ev ∧
        schedule.Exact occurs cursor.generation due now ev) ↔
      schedule.Live cursor ∧ schedule.cron.representable due.preceding = true ∧
        schedule.cron.representable now = true ∧
        (CronExpression.dueSet occurs due now).ncard ≤ maxOccurrenceScan := by
  constructor
  · rintro ⟨ev, hev, hexact⟩
    have hlive : schedule.Live cursor := by
      by_contra hinactive
      obtain ⟨hnone, hskipped⟩ := evaluate_inactive hinactive hev
      have hcount := hexact.skipped
      rw [hnone, hskipped] at hcount
      exact ((Set.ncard_pos (Set.toFinite _)).mpr hsome).ne hcount
    exact ⟨hlive, hexact.scannable hcron hlive hdue hsome hev⟩
  · rintro ⟨hlive, hfirst, hnow, hcount⟩
    obtain ⟨l, hl⟩ := exists_due hcron hcalendar hfirst hnow
    have hne := hl.ne_nil hcron hsome
    obtain ⟨ev, hev, hreports⟩ := evaluate_reports hlive hdue hl hne (if_pos hnow)
    exact ⟨ev, hev, hreports.skipped.trans (hl.length_eq hcron hcount),
      ⟨_, selects_emits hcron hl hne hcount _, hreports.occurrences⟩,
      isFirstAfter_of_nextAfter hcron hreports.nextDue⟩

end RecurringSchedule

namespace Sample

/-- A schedule that fires once after a downtime. -/
def fireOnce : RecurringSchedule := { schedule ⟨1, NonZero.one_ne_zero16⟩ with misfire := .fireOnce }

theorem minutely_calendar : {t | minutely.representable t = true}.OrdConnected :=
  ⟨fun _ _ _ _ _ _ => rfl⟩

theorem fireOnce_live : fireOnce.Live (.new (some ⟨0⟩) true) := ⟨rfl, rfl, by decide⟩

theorem zero_due {now : Timestamp} (h : ⟨0⟩ ≤ now) :
    (dueSet everyMinute ⟨0⟩ now).Nonempty := ⟨⟨0⟩, ⟨0, by decide⟩, le_rfl, h⟩

end Sample

open Sample in
/-- Of the three occurrences of two minutes the last is emitted and two are skipped. -/
theorem misfire_exact_three : ∃ ev, fireOnce.evaluate (.new (some ⟨0⟩) true) ⟨120000⟩ = .ok ev ∧
    fireOnce.Exact everyMinute 0 ⟨0⟩ ⟨120000⟩ ev := by
  have hcount : (dueSet everyMinute ⟨0⟩ ⟨120000⟩).ncard = 3 := ncard_minutes rfl
  exact (RecurringSchedule.misfire_exact_iff minutely_lawful minutely_calendar rfl
    (zero_due (by decide))).mpr ⟨fireOnce_live, rfl, rfl, hcount.trans_le (by decide)⟩

open Sample in
/-- After 65535 minutes 65536 occurrences are due, one more than are scanned. -/
theorem misfire_beyond_scan : ∃ ev,
    fireOnce.evaluate (.new (some ⟨0⟩) true) ⟨3932100000⟩ = .ok ev ∧
      (CronExpression.dueSet everyMinute ⟨0⟩ ⟨3932100000⟩).Nonempty ∧
      ¬fireOnce.Exact everyMinute 0 ⟨0⟩ ⟨3932100000⟩ ev := by
  have hsome : (dueSet everyMinute ⟨0⟩ ⟨3932100000⟩).Nonempty := zero_due (by decide)
  obtain ⟨l, hl⟩ : ∃ l, minutely.Due ⟨0⟩ ⟨3932100000⟩ l :=
    exists_due minutely_lawful minutely_calendar rfl rfl
  obtain ⟨ev, hev, -⟩ := RecurringSchedule.evaluate_reports fireOnce_live rfl hl
    (hl.ne_nil minutely_lawful hsome) rfl
  refine ⟨ev, hev, hsome, fun hexact => ?_⟩
  obtain ⟨-, -, hcount⟩ := hexact.scannable minutely_lawful fireOnce_live rfl hsome hev
  have hmany : (dueSet everyMinute ⟨0⟩ ⟨3932100000⟩).ncard = 65536 :=
    ncard_minutes rfl
  exact absurd (hmany.symm.trans_le hcount) (by decide)

end AuxCommon
