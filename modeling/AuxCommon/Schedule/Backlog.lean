import AuxCommon.Schedule.Evaluation
import Mathlib.Data.Set.Card

/-!
# The due occurrences of a schedule

A scan follows the cron expression from one occurrence to the next (`CronExpression.Chain`). It ends
because nothing more is due (`Ends`), because it has reached the limit of the scan, or because it
has selected enough; `collectBacklog_eq_ok` says what it has recorded then.
-/

namespace AuxCommon

open List Nat Int64

/-- `next_after` returns the least occurrence strictly after its argument. An occurrence is a whole
second that the calendar of the library represents, so never the least timestamp. -/
structure CronExpression.Lawful (cron : CronExpression) (occurs : Timestamp → Prop) : Prop where
  next : ∀ {t n : Timestamp}, cron.nextAfter t = .ok (some n) →
    t < n ∧ occurs n ∧ ∀ m, t < m → occurs m → n ≤ m
  last : ∀ {t : Timestamp}, cron.nextAfter t = .ok none → ∀ m, t < m → ¬occurs m
  least : ∀ t, occurs t → t.millis ≠ Int64.minValue

namespace Timestamp

theorem toInt_preceding {t : Timestamp} (ht : t.millis ≠ minValue) :
    t.preceding.millis.toInt = t.millis.toInt - 1 := by
  have hne : t.millis.toInt ≠ -2 ^ 63 := fun heq => ht (toInt_inj.mp heq)
  have hlo := t.millis.le_toInt
  have hhi := t.millis.toInt_lt
  have hone : toInt 1 = 1 := rfl
  rw [preceding, if_neg ht, toInt_sub, hone]
  exact Int.bmod_eq_of_le (by norm_num; omega) (by norm_num; omega)

theorem le_of_preceding_lt {t u : Timestamp} (h : t.preceding < u) : t ≤ u := by
  by_cases ht : t.millis = minValue
  · rw [preceding, if_pos ht] at h
    exact h.le
  · rw [lt_iff, toInt_preceding ht] at h
    rw [le_iff]
    omega

theorem preceding_lt_of_le {t u : Timestamp} (ht : t.millis ≠ minValue) (h : t ≤ u) :
    t.preceding < u := by
  rw [le_iff] at h
  rw [lt_iff, toInt_preceding ht]
  omega

instance : Finite Timestamp :=
  Finite.of_injective (fun t : Timestamp => t.millis.toBitVec.toFin) fun _ _ h =>
    ext (congrArg Int64.toInt (Int64.toBitVec_inj.mp (BitVec.toFin_inj.mp h)))

end Timestamp

/-! ## Chains of occurrences -/

namespace CronExpression

variable {cron : CronExpression} {occurs : Timestamp → Prop} {t u now : Timestamp}
  {l l' : List Timestamp}

/-- Successive occurrences after a time. -/
inductive Chain (cron : CronExpression) : Timestamp → List Timestamp → Prop
  | nil (t : Timestamp) : Chain cron t []
  | cons {t n : Timestamp} {l : List Timestamp} (next : cron.nextAfter t = .ok (some n))
    (rest : Chain cron n l) : Chain cron t (n :: l)

/-- The end of a chain. -/
def chainEnd : Timestamp → List Timestamp → Timestamp
  | t, [] => t
  | _, u :: l => chainEnd u l

@[simp] theorem chainEnd_nil : chainEnd t [] = t := rfl

@[simp] theorem chainEnd_cons : chainEnd t (u :: l) = chainEnd u l := rfl

theorem chainEnd_eq (h : l ≠ []) : l.getLast? = some (chainEnd t l) := by
  induction l generalizing t with
  | nil => exact absurd rfl h
  | cons u l ih =>
    cases l with
    | nil => rfl
    | cons u' l => exact getLast?_cons_cons.trans (ih (t := u) nofun)

/-- Nothing after `t` is due at `now`. -/
def Ends (cron : CronExpression) (now t : Timestamp) : Prop :=
  ∃ next, cron.nextAfter t = .ok next ∧ ∀ n ∈ next, now < n

theorem Chain.lt (hcron : cron.Lawful occurs) (h : Chain cron t l) : ∀ u ∈ l, t < u := by
  induction h with
  | nil t => exact nofun
  | cons next rest ih =>
    obtain ⟨hlt, -, -⟩ := hcron.next next
    refine forall_mem_cons.mpr ⟨hlt, fun u hu => hlt.trans (ih u hu)⟩

theorem Chain.all_occur (hcron : cron.Lawful occurs) (h : Chain cron t l) : ∀ u ∈ l, occurs u := by
  induction h with
  | nil t => exact nofun
  | cons next rest ih => exact forall_mem_cons.mpr ⟨(hcron.next next).2.1, ih⟩

theorem Chain.sorted (hcron : cron.Lawful occurs) (h : Chain cron t l) : l.Pairwise (· < ·) := by
  induction h with
  | nil t => exact .nil
  | cons next rest ih => exact .cons (rest.lt hcron) ih

theorem Chain.append (h : Chain cron t l) (h' : Chain cron (chainEnd t l) l') :
    Chain cron t (l ++ l') := by
  induction h with
  | nil t => exact h'
  | cons next rest ih =>
    rw [chainEnd_cons] at h'
    exact .cons next (ih h')

theorem Chain.take (h : Chain cron t l) (n : Nat) : Chain cron t (l.take n) := by
  induction h generalizing n with
  | nil t => rw [take_nil]; exact .nil t
  | cons next rest ih =>
    cases n with
    | zero => exact .nil _
    | succ n => exact .cons next (ih n)

/-- A chain that ends holds every due occurrence. -/
theorem Chain.mem_iff (hcron : cron.Lawful occurs) (h : Chain cron t l) (hle : ∀ u ∈ l, u ≤ now)
    (hend : cron.Ends now (chainEnd t l)) (u : Timestamp) :
    u ∈ l ↔ occurs u ∧ t < u ∧ u ≤ now := by
  refine ⟨fun hu => ⟨h.all_occur hcron u hu, h.lt hcron u hu, hle u hu⟩, ?_⟩
  rintro ⟨hoccurs, hlt, hnow⟩
  induction h with
  | nil t =>
    obtain ⟨next, hnext, hlater⟩ := hend
    cases next with
    | none => exact absurd hoccurs (hcron.last hnext u hlt)
    | some n =>
      have hn := hlater n rfl
      exact absurd ((hcron.next hnext).2.2 u hlt hoccurs) (not_le.mpr (hnow.trans_lt hn))
  | @cons t n l next rest ih =>
    rw [chainEnd_cons] at hend
    rcases ((hcron.next next).2.2 u hlt hoccurs).eq_or_lt with rfl | hn
    · exact mem_cons_self
    · exact mem_cons_of_mem _ (ih (fun u hu => hle u (mem_cons_of_mem _ hu)) hend hn)

end CronExpression

/-! ## The scan -/

namespace Backlog

variable {query : BacklogQuery} {backlog backlog' : Backlog} {l : List Timestamp}

/-- The backlog with more occurrences recorded. -/
def extend (query : BacklogQuery) (backlog : Backlog) (l : List Timestamp) : Backlog :=
  l.foldl (record query) backlog

@[simp] theorem extend_nil : backlog.extend query [] = backlog := rfl

@[simp] theorem extend_cons {t : Timestamp} :
    backlog.extend query (t :: l) = (backlog.record query t).extend query l := rfl

theorem extend_count : (backlog.extend query l).count = backlog.count + l.length := by
  induction l generalizing backlog with
  | nil => rfl
  | cons t l ih =>
    rw [extend_cons, ih, length_cons]
    exact add_right_comm backlog.count 1 l.length

theorem extend_last : (backlog.extend query l).last = l.getLast?.or backlog.last := by
  induction l generalizing backlog with
  | nil => rfl
  | cons t l ih =>
    rw [extend_cons, ih]
    cases l with
    | nil => rfl
    | cons u l =>
      rw [getLast?_cons_cons]
      cases h : (u :: l).getLast? with
      | none => simp at h
      | some last => rfl

theorem extend_resumable : (backlog.extend query l).resumable = backlog.resumable := by
  induction l generalizing backlog with
  | nil => rfl
  | cons t l ih => rw [extend_cons, ih, record]

theorem extend_empty : (extend query {} l).count = l.length ∧ (extend query {} l).resumable = false :=
  ⟨extend_count.trans (zero_add _), extend_resumable⟩

theorem extend_selected : (backlog.extend query l).selected = backlog.selected ++
    (l.take (query.limit - backlog.selected.length)).map
      (⟨query.scheduleId, ·, query.generation⟩) := by
  induction l generalizing backlog with
  | nil => simp
  | cons t l ih =>
    rw [extend_cons, ih]
    unfold record
    dsimp only
    split
    · rename_i hlt
      obtain ⟨k, hk⟩ : ∃ k, query.limit - backlog.selected.length = k + 1 :=
        ⟨_, (Nat.succ_pred_eq_of_pos (Nat.sub_pos_of_lt hlt)).symm⟩
      rw [hk, take_succ_cons, map_cons, append_assoc, singleton_append,
        length_append, length_singleton,
        show query.limit - (backlog.selected.length + 1) = k by omega]
    · rename_i hge
      rw [show query.limit - backlog.selected.length = 0 by omega, take_zero, take_zero]

/-- Why a scan of at most `scan` occurrences stopped after `l`, and whether it is resumable. -/
inductive Stops (query : BacklogQuery) (scan : Nat) (t : Timestamp) (l : List Timestamp)
    (selected : Nat) : Bool → Prop
  | scanned (h : l.length = scan) : Stops query scan t l selected false
  | ended (h : query.cron.Ends query.now (CronExpression.chainEnd t l)) :
    Stops query scan t l selected false
  | selected {following : Option Timestamp} (hl : l ≠ []) (hstop : query.stopAfterSelection = true)
    (hlimit : query.limit ≤ selected)
    (hnext : query.cron.nextAfter (CronExpression.chainEnd t l) = .ok following) :
    Stops query scan t l selected (following.any (· ≤ query.now))

theorem Stops.cons {scan selected : Nat} {t u : Timestamp} {resumable : Bool}
    (h : Stops query scan u l selected resumable) :
    Stops query (scan + 1) t (u :: l) selected resumable := by
  cases h with
  | scanned h => exact .scanned (congrArg (· + 1) h)
  | ended h => exact .ended h
  | selected hl hstop hlimit hnext => exact .selected nofun hstop hlimit hnext

/-- What a scan has recorded. While it can stop for its selection, it selects all that it sees. -/
structure Collected (query : BacklogQuery) (scan : Nat) (t : Timestamp) (backlog : Backlog)
    (l : List Timestamp) (backlog' : Backlog) : Prop where
  chain : query.cron.Chain t l
  le : ∀ u ∈ l, u ≤ query.now
  length_le : l.length ≤ scan
  eq : ∃ resumable, backlog' = { backlog.extend query l with resumable } ∧
    Stops query scan t l (backlog.extend query l).selected.length resumable
  whole : query.stopAfterSelection = true → backlog.selected.length < query.limit →
    backlog.selected.length + l.length ≤ query.limit

theorem reachedSelection_eq_ok {t : Timestamp} {stop : Bool}
    (h : backlog.reachedSelection query t = .ok (stop, backlog')) :
    stop = false ∧ backlog' = backlog ∧
        (query.stopAfterSelection = true → backlog.selected.length < query.limit) ∨
      stop = true ∧ query.stopAfterSelection = true ∧ query.limit ≤ backlog.selected.length ∧
        ∃ following, query.cron.nextAfter t = .ok following ∧
          backlog' = { backlog with resumable := following.any (· ≤ query.now) } := by
  unfold reachedSelection at h
  split at h
  · rename_i hcond
    cases h
    refine .inl ⟨rfl, rfl, fun hstop => ?_⟩
    simpa [hstop] using hcond
  · rename_i hcond
    simp only [Bool.or_eq_true, Bool.not_eq_eq_eq_not, Bool.not_true, decide_eq_true_eq, not_or,
      Bool.not_eq_false, not_lt] at hcond
    obtain ⟨following, hnext, h⟩ := Except.bind_eq_ok.mp h
    cases h
    exact .inr ⟨rfl, hcond.1, hcond.2, following, hnext, rfl⟩

theorem collectLoop_eq_ok {scan : Nat} {t : Timestamp} (hresumable : backlog.resumable = false)
    (h : collectLoop query scan t backlog = .ok backlog') :
    ∃ l, Collected query scan t backlog l backlog' := by
  induction scan generalizing t backlog with
  | zero =>
    cases h
    refine ⟨[], .nil t, nofun, le_rfl, ⟨false, ?_, .scanned rfl⟩, fun _ hlt => hlt.le⟩
    rw [extend_nil, ← hresumable]
  | succ scan ih =>
    have hnone : backlog = { backlog.extend query [] with resumable := false } := by
      rw [extend_nil, ← hresumable]
    obtain ⟨next, hnext, h⟩ := Except.bind_eq_ok.mp h
    cases next with
    | none =>
      cases h
      exact ⟨[], .nil t, nofun, zero_le _, ⟨false, hnone, .ended ⟨none, hnext, nofun⟩⟩,
        fun _ hlt => hlt.le⟩
    | some n =>
      dsimp only at h
      split at h
      · rename_i hlater
        cases h
        refine ⟨[], .nil t, nofun, zero_le _,
          ⟨false, hnone, .ended ⟨some n, hnext, fun m hm => ?_⟩⟩, fun _ hlt => hlt.le⟩
        cases hm
        exact hlater
      · rename_i hdue
        have hdue := not_lt.mp hdue
        obtain ⟨⟨stop, b⟩, hreached, h⟩ := Except.bind_eq_ok.mp h
        have hrecord : (backlog.record query n).resumable = false := hresumable
        have hselected : backlog.selected.length < query.limit →
            (backlog.record query n).selected.length = backlog.selected.length + 1 := by
          intro hlt
          rw [record, if_pos hlt, length_append, length_singleton]
        rcases reachedSelection_eq_ok hreached with ⟨rfl, rfl, hroom⟩ |
          ⟨rfl, hstop, hlimit, following, hfollowing, rfl⟩
        · obtain ⟨l, hl⟩ := ih hrecord h
          obtain ⟨resumable, heq, hstops⟩ := hl.eq
          refine ⟨n :: l, .cons hnext hl.chain, forall_mem_cons.mpr ⟨hdue, hl.le⟩,
            succ_le_succ hl.length_le, ⟨resumable, heq, hstops.cons⟩, fun hstop hlt => ?_⟩
          have hwhole := hl.whole hstop (hroom hstop)
          rw [hselected hlt] at hwhole
          rw [length_cons]
          omega
        · cases h
          refine ⟨[n], .cons hnext (.nil n), by simpa using hdue, succ_le_succ (zero_le _),
            ⟨_, rfl, .selected nofun hstop hlimit hfollowing⟩, fun _ hlt => hlt⟩

end Backlog

theorem collectBacklog_eq_ok {query : BacklogQuery} {backlog : Backlog}
    (h : collectBacklog query = .ok backlog) :
    ∃ l, Backlog.Collected query maxOccurrenceScan query.firstAfter {} l backlog :=
  Backlog.collectLoop_eq_ok rfl h

end AuxCommon
