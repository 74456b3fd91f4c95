import AuxCommon.BufferedWrites.Deadline
import AuxCommon.Lib.System

/-!
# The circuit breaker of a sink

`engine/state.rs`, `acquire_sink_permission` and the delivery of a batch (`engine/delivery`): writes that
fail open the breaker, an open one is probed from `next_probe_at` on, and after a probe that passed it
closes with the last of `recovery_success_threshold` writes that succeed. The signals may come in any
order (`recloses`, `failure_opens`, `nextProbeAt_of_opening`). A turn of the engine asks for permission
once for all its attempts, and stops when one of them opens the breaker (`Turns.Inv`).

The delivery mode and the revisions, which only reports and events read, are left out, and so is what
a turn does to its batch. Turns hold the engine's lock one after the other, and a turn may be dropped
at any point.
-/

namespace AuxCommon.BufferedWrites

open List

/-! ## The breaker -/

inductive SinkHealth
  | closed
  | opened
  | halfOpen
  deriving DecidableEq

/-- `PolicyState`, the part of the breaker. The counters are `u32`. -/
structure PolicyState where
  health : SinkHealth := .closed
  consecutiveFailures : Nat := 0
  recoverySuccesses : Nat := 0
  probeExponent : Nat := 0
  nextProbeAt : Option Instant := none

/-- `DeliveryPolicy`, the part that a delivery reads of the breaker. -/
structure DeliveryPolicy where
  maxAttemptsPerTurn : Nat
  failureThreshold : Nat
  fallbackAge : Duration
  probeInitialDelay : Duration
  probeMaxDelay : Duration
  recoverySuccessThreshold : Nat

/-- `saturating_add(1)` of a `u32`. -/
def increment (n : Nat) : Nat := min (n + 1) (2 ^ 32 - 1)

/-- `Duration::saturating_mul`, in nanoseconds. -/
def saturatingMul (d : Duration) (factor : Nat) : Nat :=
  min (d.nanos.toNat * factor) (2 ^ 64 * 10 ^ 9 - 1)

/-- What the probe of a sink returns in time, and when it has failed. -/
inductive ProbeOutcome
  | passed
  | failed (now : Instant)

namespace DeliveryPolicy

variable (policy : DeliveryPolicy) (p : PolicyState)

/-- `record_sink_success`. -/
def recordSinkSuccess : PolicyState :=
  match p.health with
  | .closed => { p with consecutiveFailures := 0 }
  | .opened => p
  | .halfOpen =>
    let p := { p with
      consecutiveFailures := 0
      recoverySuccesses := increment p.recoverySuccesses }
    if policy.recoverySuccessThreshold ≤ p.recoverySuccesses then
      { p with health := .closed, probeExponent := 0, nextProbeAt := none }
    else p

/-- `record_sink_failure`. -/
def recordSinkFailure (batchAge : Nat) (now : Instant) : PolicyState :=
  let p := { p with
    consecutiveFailures := increment p.consecutiveFailures
    recoverySuccesses := 0 }
  if p.health ≠ .closed ∨ policy.failureThreshold ≤ p.consecutiveFailures ∨
      policy.fallbackAge.nanos.toNat ≤ batchAge then
    let delay := min (saturatingMul policy.probeInitialDelay (2 ^ min p.probeExponent 10))
      policy.probeMaxDelay.nanos.toNat
    { p with
      health := .opened
      probeExponent := increment p.probeExponent
      nextProbeAt := now.checkedAdd delay }
  else p

/-- `acquire_sink_permission`. -/
def acquireSinkPermission (now : Instant) (probe : ProbeOutcome) : Bool × PolicyState :=
  match p.health with
  | .closed | .halfOpen => (true, p)
  | .opened =>
    if p.nextProbeAt.any (·.nanos ≤ now.nanos) then
      match probe with
      | .passed => (true, { p with health := .halfOpen })
      | .failed later => (false, policy.recordSinkFailure p 0 later)
    else (false, p)

end DeliveryPolicy

/-- What reaches the breaker. -/
inductive Signal
  | success
  | failure (batchAge : Nat) (now : Instant)
  | permission (now : Instant) (probe : ProbeOutcome)

namespace Signal

/-- A failure of a write. -/
def IsFailure : Signal → Prop
  | .failure _ _ => True
  | .success | .permission _ _ => False

def isSuccess : Signal → Bool
  | .success => true
  | .failure _ _ | .permission _ _ => false

/-- When a failure is recorded, of a write or of a probe. -/
def failsAt (p : PolicyState) : Signal → Option Instant
  | .failure _ now => some now
  | .permission now (.failed later) =>
    if p.health = .opened ∧ p.nextProbeAt.any (·.nanos ≤ now.nanos) then some later else none
  | .success | .permission _ .passed => none

end Signal

variable {now : Instant}

namespace DeliveryPolicy

variable (policy : DeliveryPolicy)

def apply (p : PolicyState) : Signal → PolicyState
  | .success => policy.recordSinkSuccess p
  | .failure batchAge now => policy.recordSinkFailure p batchAge now
  | .permission now probe => (policy.acquireSinkPermission p now probe).2

def run (p : PolicyState) (signals : List Signal) : PolicyState := signals.foldl policy.apply p

/-- The number of openings since the breaker was closed. -/
def openings (signals : List Signal) : Nat :=
  (signals.foldl (fun s a =>
    let p := policy.apply s.1 a
    (p, if p.health = .closed then 0 else if (a.failsAt s.1).isSome then s.2 + 1 else s.2))
    (({} : PolicyState), 0)).2

variable {policy} {p : PolicyState} {a : Signal} {l : List Signal}

@[simp] theorem run_nil : policy.run p [] = p := rfl

@[simp] theorem run_cons : policy.run p (a :: l) = policy.run (policy.apply p a) l := rfl

theorem run_append {l l' : List Signal} : policy.run p (l ++ l') = policy.run (policy.run p l) l' :=
  foldl_append

/-! ## One signal -/

theorem recordSinkSuccess_closed (h : p.health = .closed) :
    policy.recordSinkSuccess p = { p with consecutiveFailures := 0 } := by
  rw [recordSinkSuccess, h]

theorem recordSinkSuccess_opened (h : p.health = .opened) : policy.recordSinkSuccess p = p := by
  rw [recordSinkSuccess, h]

/-- The last success of a recovery. -/
theorem recordSinkSuccess_last (h : p.health = .halfOpen)
    (hlast : policy.recoverySuccessThreshold ≤ increment p.recoverySuccesses) :
    policy.recordSinkSuccess p = { recoverySuccesses := increment p.recoverySuccesses } := by
  rw [recordSinkSuccess, h]
  exact if_pos hlast

theorem recordSinkSuccess_more (h : p.health = .halfOpen)
    (hmore : ¬policy.recoverySuccessThreshold ≤ increment p.recoverySuccesses) :
    policy.recordSinkSuccess p =
      { p with consecutiveFailures := 0, recoverySuccesses := increment p.recoverySuccesses } := by
  rw [recordSinkSuccess, h]
  exact if_neg hmore

theorem recordSinkFailure_recovery (batchAge : Nat) (now : Instant) :
    (policy.recordSinkFailure p batchAge now).recoverySuccesses = 0 := by
  unfold recordSinkFailure
  dsimp only
  split <;> rfl

theorem recordSinkFailure_opens (h : p.health ≠ .closed) (batchAge : Nat) (now : Instant) :
    (policy.recordSinkFailure p batchAge now).health = .opened := by
  unfold recordSinkFailure
  rw [if_pos (.inl h)]

/-- A failure opens the breaker, or leaves it closed. -/
theorem recordSinkFailure_cases (policy : DeliveryPolicy) (p : PolicyState) (batchAge : Nat) (now : Instant) :
    (policy.recordSinkFailure p batchAge now).health = .opened ∨
      p.health = .closed ∧ (policy.recordSinkFailure p batchAge now).health = .closed ∧
        (policy.recordSinkFailure p batchAge now).probeExponent = p.probeExponent := by
  unfold recordSinkFailure
  dsimp only
  split
  · exact .inl rfl
  · rename_i hstays
    rw [not_or, not_not] at hstays
    exact .inr ⟨hstays.1, hstays.1, rfl⟩

/-- What an opening does, whatever was the cause. -/
theorem recordSinkFailure_opened {batchAge : Nat}
    (h : (policy.recordSinkFailure p batchAge now).health = .opened) :
    (policy.recordSinkFailure p batchAge now).probeExponent = increment p.probeExponent ∧
      (policy.recordSinkFailure p batchAge now).nextProbeAt = now.checkedAdd
        (min policy.probeMaxDelay.nanos.toNat
          (policy.probeInitialDelay.nanos.toNat * 2 ^ min p.probeExponent 10)) := by
  have hmax := policy.probeMaxDelay.bounded
  unfold recordSinkFailure at h ⊢
  dsimp only at h ⊢
  split at h
  · rename_i hopens
    rw [if_pos hopens]
    refine ⟨rfl, congrArg now.checkedAdd ?_⟩
    unfold saturatingMul
    omega
  · rename_i hstays
    exact absurd (.inl (by rw [h]; decide)) hstays

/-- What a signal does: nothing, or a success, a failure or a probe is recorded. -/
inductive Effect (policy : DeliveryPolicy) (p : PolicyState) (a : Signal) : PolicyState → Prop
  | nothing (ha : a.isSuccess = false) (hfails : a.failsAt p = none) : Effect policy p a p
  | success (ha : a = .success) : Effect policy p a (policy.recordSinkSuccess p)
  | fails {now : Instant} (batchAge : Nat) (ha : a.isSuccess = false) (hfails : a.failsAt p = some now) :
    Effect policy p a (policy.recordSinkFailure p batchAge now)
  | probed {now due : Instant} (ha : a = .permission now .passed) (hopen : p.health = .opened)
    (hdue : p.nextProbeAt = some due) (hle : due.nanos ≤ now.nanos) :
    Effect policy p a { p with health := .halfOpen }

theorem effect (policy : DeliveryPolicy) (p : PolicyState) (a : Signal) :
    Effect policy p a (policy.apply p a) := by
  cases a with
  | success => exact .success rfl
  | failure batchAge now => exact .fails batchAge rfl rfl
  | permission now probe =>
    have hidle : p.health ≠ .opened ∨ ¬p.nextProbeAt.any (·.nanos ≤ now.nanos) →
        (Signal.permission now probe).failsAt p = none := by
      intro h
      cases probe with
      | passed => rfl
      | failed later => exact if_neg (by rw [not_and_or]; exact h)
    unfold apply acquireSinkPermission
    cases hhealth : p.health with
    | closed => exact .nothing rfl (hidle (.inl (by rw [hhealth]; decide)))
    | halfOpen => exact .nothing rfl (hidle (.inl (by rw [hhealth]; decide)))
    | opened =>
      dsimp only
      split
      · rename_i hdue
        cases probe with
        | passed =>
          obtain ⟨due, hsome, hle⟩ := (Option.any_eq_true _ _).mp hdue
          exact .probed rfl hhealth hsome (of_decide_eq_true hle)
        | failed later => exact .fails 0 rfl (if_pos ⟨hhealth, hdue⟩)
      · rename_i hdue
        exact .nothing rfl (hidle (.inr hdue))

/-- A failure of a breaker that is not closed, of a write or of a probe, opens it. -/
theorem failure_opens (h : p.health ≠ .closed)
    (hfails : a.failsAt p = some now) : (policy.apply p a).health = .opened := by
  have heffect := effect policy p a
  generalize policy.apply p a = q at heffect ⊢
  cases heffect with
  | nothing _ hnone => rw [hnone] at hfails; cases hfails
  | success ha => rw [ha] at hfails; cases hfails
  | fails batchAge => exact recordSinkFailure_opens h ..
  | probed ha => rw [ha] at hfails; cases hfails

/-- An open breaker has no successes of a recovery. -/
def Sound (p : PolicyState) : Prop := p.health = .opened → p.recoverySuccesses = 0

theorem Sound.apply (h : Sound p) (a : Signal) : Sound (policy.apply p a) := by
  have heffect := effect policy p a
  generalize policy.apply p a = q at heffect ⊢
  cases heffect with
  | nothing => exact h
  | success ha =>
    cases hhealth : p.health with
    | closed =>
      rw [recordSinkSuccess_closed hhealth]
      exact fun h => absurd (hhealth.symm.trans h) (by decide)
    | opened =>
      rw [recordSinkSuccess_opened hhealth]
      exact h
    | halfOpen =>
      by_cases hlast : policy.recoverySuccessThreshold ≤ increment p.recoverySuccesses
      · rw [recordSinkSuccess_last hhealth hlast]
        exact fun h => by cases h
      · rw [recordSinkSuccess_more hhealth hlast]
        exact fun h => absurd (hhealth.symm.trans h) (by decide)
  | fails batchAge => exact fun _ => recordSinkFailure_recovery ..
  | probed => exact fun h => by cases h

theorem Sound.run (h : Sound p) (l : List Signal) : Sound (policy.run p l) := by
  induction l generalizing p with
  | nil => exact h
  | cons a l ih => exact ih (h.apply a)

/-! ## Runs -/

/-- A probe that passed when it was due, and then as many successes as a recovery takes with no failure
among them, after which the breaker is closed. -/
def Recovers (policy : DeliveryPolicy) (p : PolicyState) (l : List Signal) : Prop :=
  ∃ before now after rest, l = before ++ .permission now .passed :: (after ++ rest) ∧
    (policy.run p before).health = .opened ∧
    (∃ due, (policy.run p before).nextProbeAt = some due ∧ due.nanos ≤ now.nanos) ∧
    (∀ a ∈ after, ¬a.IsFailure) ∧ policy.recoverySuccessThreshold ≤ after.countP Signal.isSuccess ∧
    (policy.run p (before ++ .permission now .passed :: after)).health = .closed

theorem Recovers.cons (h : Recovers policy (policy.apply p a) l) : Recovers policy p (a :: l) := by
  obtain ⟨before, now, after, rest, rfl, hopen, hdue, hnone, hcount, hclosed⟩ := h
  exact ⟨a :: before, now, after, rest, rfl, hopen, hdue, hnone, hcount, hclosed⟩

/-- A half-open breaker closes with the last success that it takes, or opens before. -/
def Closes (policy : DeliveryPolicy) (p : PolicyState) (l : List Signal) : Prop :=
  ∃ after rest, l = after ++ rest ∧ (∀ a ∈ after, ¬a.IsFailure) ∧
    policy.recoverySuccessThreshold ≤ p.recoverySuccesses + after.countP Signal.isSuccess ∧
    (policy.run p after).health = .closed

theorem Closes.cons (h : Closes policy (policy.apply p a) l)
    (ha : ¬a.IsFailure) (hcount : (policy.apply p a).recoverySuccesses ≤
      p.recoverySuccesses + a.isSuccess.toNat) : Closes policy p (a :: l) := by
  obtain ⟨after, rest, rfl, hnone, hle, hclosed⟩ := h
  refine ⟨a :: after, rest, rfl, forall_mem_cons.mpr ⟨ha, hnone⟩, ?_, hclosed⟩
  rw [countP_cons]
  cases hsuccess : a.isSuccess <;> simp only [hsuccess, Bool.toNat_true, Bool.toNat_false] at hcount ⊢
  · simp only [Bool.false_eq_true, if_false]
    omega
  · simp only [if_true]
    omega

theorem not_isFailure_of_failsAt (h : a.failsAt p = none) : ¬a.IsFailure := by
  cases a with
  | failure => cases h
  | success => exact id
  | permission => exact id

theorem recovers_or_closes (l : List Signal) (p : PolicyState)
    (hclosed : (policy.run p l).health = .closed) :
    (p.health = .opened → p.recoverySuccesses = 0 → Recovers policy p l) ∧
      (p.health = .halfOpen → Closes policy p l ∨ Recovers policy p l) := by
  induction l generalizing p with
  | nil => exact ⟨fun h => absurd (hclosed.symm.trans h) (by decide),
      fun h => absurd (hclosed.symm.trans h) (by decide)⟩
  | cons a l ih =>
    obtain ⟨hopened, hhalf⟩ := ih _ hclosed
    have heffect := effect policy p a
    -- what follows is said of the state after the signal
    generalize hq : policy.apply p a = q at hopened hhalf heffect
    have hcons : Recovers policy q l → Recovers policy p (a :: l) := fun h => (hq ▸ h).cons
    have hcloses : Closes policy q l → ¬a.IsFailure →
        q.recoverySuccesses ≤ p.recoverySuccesses + a.isSuccess.toNat → Closes policy p (a :: l) := by
      subst hq
      exact Closes.cons
    constructor
    · intro hopen hzero
      cases heffect with
      | nothing => exact hcons (hopened hopen hzero)
      | success =>
        rw [recordSinkSuccess_opened hopen] at hopened hcons
        exact hcons (hopened hopen hzero)
      | fails batchAge =>
        exact hcons (hopened (recordSinkFailure_opens (by rw [hopen]; decide) ..)
          (recordSinkFailure_recovery ..))
      | @probed now due ha _ hdue hle =>
        rcases hhalf rfl with ⟨after, rest, rfl, hnone, hcount, hend⟩ | hrecovers
        · subst ha
          refine ⟨[], now, after, rest, rfl, hopen, ⟨due, hdue, hle⟩, hnone, ?_, ?_⟩
          · change _ ≤ p.recoverySuccesses + _ at hcount
            omega
          · rw [nil_append, run_cons, hq]
            exact hend
        · exact hcons hrecovers
    · intro hhealth
      cases heffect with
      | nothing _ hfails =>
        exact (hhalf hhealth).imp
          (fun h => hcloses h (not_isFailure_of_failsAt hfails) (Nat.le_add_right ..)) hcons
      | success ha =>
        subst ha
        by_cases hlast : policy.recoverySuccessThreshold ≤ increment p.recoverySuccesses
        · refine .inl ⟨[.success], l, rfl, by simp [Signal.IsFailure], ?_, ?_⟩
          · exact hlast.trans (min_le_left _ _)
          · change (policy.recordSinkSuccess p).health = _
            rw [recordSinkSuccess_last hhealth hlast]
        · have hnext := recordSinkSuccess_more hhealth hlast
          refine (hhalf (by rw [hnext]; exact hhealth)).imp (fun h => hcloses h id ?_) hcons
          rw [hnext]
          exact min_le_left _ _
      | fails batchAge =>
        exact .inr (hcons (hopened (recordSinkFailure_opens (by rw [hhealth]; decide) ..)
          (recordSinkFailure_recovery ..)))
      | probed _ hopen => exact absurd (hhealth.symm.trans hopen) (by decide)

/-- An open breaker that is closed later has recovered in between. -/
theorem recloses (l l' : List Signal) (hopen : (policy.run {} l).health = .opened)
    (hclosed : (policy.run {} (l ++ l')).health = .closed) : Recovers policy (policy.run {} l) l' := by
  rw [run_append] at hclosed
  have hsound : Sound (policy.run {} l) := Sound.run (fun h => by cases h) l
  exact (recovers_or_closes l' _ hclosed).1 hopen (hsound hopen)

/-! ## Openings -/

/-- The openings of a longer list. -/
theorem openings_append (l : List Signal) (a : Signal) : policy.openings (l ++ [a]) =
      if (policy.run {} (l ++ [a])).health = .closed then 0
      else if (a.failsAt (policy.run {} l)).isSome then policy.openings l + 1
      else policy.openings l := by
  have hfst : ∀ (l : List Signal) (s : PolicyState × Nat), (l.foldl (fun s a =>
      let p := policy.apply s.1 a
      (p, if p.health = .closed then 0 else if (a.failsAt s.1).isSome then s.2 + 1 else s.2)) s).1 =
      policy.run s.1 l := by
    intro l
    induction l with
    | nil => exact fun _ => rfl
    | cons a l ih => exact fun s => ih _
  unfold openings
  rw [foldl_append, foldl_cons, foldl_nil]
  rw [hfst, run_append]
  rfl

theorem openings_closed (h : (policy.run {} l).health = .closed) : policy.openings l = 0 := by
  cases l using reverseRecOn with
  | nil => rfl
  | append_singleton l a => rw [openings_append, if_pos h]

/-- The exponent counts the openings. -/
theorem probeExponent_eq (policy : DeliveryPolicy) (l : List Signal) :
    (policy.run {} l).probeExponent = min (policy.openings l) (2 ^ 32 - 1) := by
  induction l using reverseRecOn with
  | nil => rfl
  | append_singleton l a ih =>
    have hzero : (policy.run {} l).health = .closed → policy.openings l = 0 := openings_closed
    rw [openings_append, run_append, run_cons, run_nil]
    generalize policy.run {} l = p at ih hzero ⊢
    have heffect := effect policy p a
    generalize policy.apply p a = q at heffect ⊢
    cases heffect with
    | nothing _ hfails =>
      rw [hfails, ih]
      by_cases hclosed : p.health = .closed
      · rw [if_pos hclosed, hzero hclosed]
      · rw [if_neg hclosed]
        rfl
    | success ha =>
      subst ha
      cases hhealth : p.health with
      | closed =>
        rw [recordSinkSuccess_closed hhealth, if_pos hhealth, ← hzero hhealth]
        exact ih
      | opened =>
        rw [recordSinkSuccess_opened hhealth, if_neg (by rw [hhealth]; decide)]
        exact ih
      | halfOpen =>
        by_cases hlast : policy.recoverySuccessThreshold ≤ increment p.recoverySuccesses
        · rw [recordSinkSuccess_last hhealth hlast]
          rfl
        · rw [recordSinkSuccess_more hhealth hlast, if_neg (by rw [hhealth]; decide)]
          exact ih
    | fails batchAge _ hfails =>
      rcases recordSinkFailure_cases policy p batchAge _ with hopen | ⟨hclosed, hstays, hsame⟩
      · rw [(recordSinkFailure_opened hopen).1, hopen, hfails, if_neg (by decide), ih]
        change increment _ = min (_ + 1) _
        unfold increment
        omega
      · rw [hsame, hstays, if_pos rfl, ih, hzero hclosed]
    | probed ha =>
      subst ha
      exact ih

/-- The delay before the probe, after `k` openings since the breaker was closed and one more. -/
theorem nextProbeAt_of_opening (l : List Signal) (hfails : a.failsAt (policy.run {} l) = some now)
    (hopen : (policy.run {} (l ++ [a])).health = .opened) :
    (policy.run {} (l ++ [a])).nextProbeAt = now.checkedAdd (min policy.probeMaxDelay.nanos.toNat
        (policy.probeInitialDelay.nanos.toNat * 2 ^ min (policy.openings l) 10)) := by
  have hexponent := probeExponent_eq policy l
  rw [run_append, run_cons, run_nil] at hopen ⊢
  generalize policy.run {} l = p at hfails hopen hexponent ⊢
  have heffect := effect policy p a
  generalize policy.apply p a = q at heffect hopen ⊢
  cases heffect with
  | nothing _ hnone => rw [hnone] at hfails; cases hfails
  | success ha => rw [ha] at hfails; cases hfails
  | fails batchAge _ hnow =>
    cases hnow.symm.trans hfails
    have hmin : min p.probeExponent 10 = min (policy.openings l) 10 := by omega
    rw [(recordSinkFailure_opened hopen).2, hmin]
  | probed ha => rw [ha] at hfails; cases hfails

end DeliveryPolicy

/-! ## Turns -/

/-- Where the turn that holds the lock is. -/
inductive TurnPhase
  | idle
  | attempting (index : Nat)
  | writing (index : Nat)
  | waiting (index : Nat)

/-- The next write needs no other permission. -/
def TurnPhase.isPermitted : TurnPhase → Bool
  | .attempting _ | .waiting _ => true
  | .idle | .writing _ => false

inductive HandoffOutcome
  | retained
  | transferred
  | unconfirmed

/-- What a write returns, with what its settlement, its checkpoint and its handoff return. -/
inductive AttemptOutcome
  | complete (settled : Bool)
  /-- A permanent error, a conflict of identities or an outcome that is none. -/
  | rejected
  | retryable (checkpointed : Bool) (age : Nat) (now : Instant) (handoff : HandoffOutcome)

inductive TurnEvent
  | deliver (now : Instant) (probe : ProbeOutcome)
  /-- The deadline has passed, or the batch cannot be written. -/
  | refuse
  | write
  | answer (outcome : AttemptOutcome)
  | waited (inTime : Bool)
  | abandon

structure Turns where
  breaker : PolicyState := {}
  phase : TurnPhase := .idle
  /-- The health at each write, the last first. -/
  writes : List SinkHealth := []

namespace Turns

variable (policy : DeliveryPolicy) (s : Turns)

/-- `deliver`, up to its first attempt. -/
def deliver (now : Instant) (probe : ProbeOutcome) : Turns :=
  let r := policy.acquireSinkPermission s.breaker now probe
  { s with
    breaker := r.2
    phase := if r.1 ∧ 0 < policy.maxAttemptsPerTurn then .attempting 0 else .idle }

/-- `retry_failed_write`. -/
def retryFailedWrite (index age : Nat) (now : Instant) (handoff : HandoffOutcome) : Turns :=
  let breaker := policy.recordSinkFailure s.breaker age now
  let retry := if index + 1 < policy.maxAttemptsPerTurn ∧ breaker.health ≠ .opened then
    TurnPhase.waiting index else .idle
  let phase :=
    if policy.fallbackAge.nanos.toNat ≤ age then
      match handoff with
      | .transferred | .unconfirmed => .idle
      | .retained => retry
    else retry
  { s with breaker := breaker, phase := phase }

/-- `apply_attempt_outcome`. -/
def applyAttemptOutcome (index : Nat) : AttemptOutcome → Turns
  | .complete settled =>
    { s with
      breaker := if settled then policy.recordSinkSuccess s.breaker else s.breaker
      phase := .idle }
  | .rejected => { s with phase := .idle }
  | .retryable checkpointed age now handoff =>
    if checkpointed then s.retryFailedWrite policy index age now handoff
    else { s with phase := .idle }

def step : TurnEvent → Option Turns
  | .deliver now probe =>
    match s.phase with
    | .idle => some (s.deliver policy now probe)
    | _ => none
  | .refuse =>
    match s.phase with
    | .attempting _ => some { s with phase := .idle }
    | _ => none
  | .write =>
    match s.phase with
    | .attempting index =>
      some { s with phase := .writing index, writes := s.breaker.health :: s.writes }
    | _ => none
  | .answer outcome =>
    match s.phase with
    | .writing index => some (s.applyAttemptOutcome policy index outcome)
    | _ => none
  | .waited inTime =>
    match s.phase with
    | .waiting index => some { s with phase := if inTime then .attempting (index + 1) else .idle }
    | _ => none
  | .abandon => some { s with phase := .idle }

/-- A turn that is about to write, now or after its wait, has a breaker that is not open. -/
structure Inv : Prop where
  phase : s.phase.isPermitted = true → s.breaker.health ≠ .opened
  writes : ∀ health ∈ s.writes, health ≠ .opened
  signals : ∃ signals, s.breaker = policy.run {} signals

variable {policy} {s} {s' : Turns}

theorem granted_not_open {p : PolicyState} {probe : ProbeOutcome}
    (h : (policy.acquireSinkPermission p now probe).1 = true) :
    (policy.acquireSinkPermission p now probe).2.health ≠ .opened := by
  unfold DeliveryPolicy.acquireSinkPermission at h ⊢
  cases hhealth : p.health with
  | closed => dsimp only; rw [hhealth]; decide
  | halfOpen => dsimp only; rw [hhealth]; decide
  | opened =>
    rw [hhealth] at h
    dsimp only at h ⊢
    split at h
    · rename_i hdue
      rw [if_pos hdue]
      cases probe with
      | passed => simp
      | failed later => cases h
    · cases h

theorem Inv.idle (h : Inv policy s) {breaker : PolicyState}
    (hsignals : ∃ signals, breaker = policy.run {} signals) :
    Inv policy { s with breaker := breaker, phase := .idle } :=
  ⟨fun hphase => (by cases hphase), h.writes, hsignals⟩

/-- One more signal. -/
theorem Inv.signal (h : Inv policy s) (a : Signal) :
    ∃ signals, policy.apply s.breaker a = policy.run {} signals := by
  obtain ⟨signals, heq⟩ := h.signals
  exact ⟨signals ++ [a], by rw [DeliveryPolicy.run_append, ← heq]; rfl⟩

theorem Inv.retry (h : Inv policy s) (index age : Nat) (now : Instant) (handoff : HandoffOutcome) :
    Inv policy (s.retryFailedWrite policy index age now handoff) := by
  have hsignals := h.signal (.failure age now)
  have hretry : Inv policy { s with
      breaker := policy.recordSinkFailure s.breaker age now
      phase := if index + 1 < policy.maxAttemptsPerTurn ∧
          (policy.recordSinkFailure s.breaker age now).health ≠ .opened then
        TurnPhase.waiting index else .idle } := by
    split
    · rename_i hmore
      exact ⟨fun _ => hmore.2, h.writes, hsignals⟩
    · exact h.idle hsignals
  unfold retryFailedWrite
  split
  · cases handoff with
    | retained => exact hretry
    | transferred => exact h.idle hsignals
    | unconfirmed => exact h.idle hsignals
  · exact hretry

theorem Inv.step (h : Inv policy s) {e : TurnEvent} (hst : s.step policy e = some s') :
    Inv policy s' := by
  unfold Turns.step at hst
  cases e with
  | deliver now probe =>
    dsimp only at hst
    split at hst
    · cases hst
      have hsignals := h.signal (.permission now probe)
      unfold deliver
      dsimp only
      split
      · rename_i hgranted
        exact ⟨fun _ => granted_not_open hgranted.1, h.writes, hsignals⟩
      · exact h.idle hsignals
    · cases hst
  | refuse =>
    dsimp only at hst
    split at hst
    · cases hst
      exact h.idle h.signals
    · cases hst
  | write =>
    dsimp only at hst
    split at hst
    · rename_i index hphase
      cases hst
      refine ⟨fun hp => (by cases hp), ?_, h.signals⟩
      exact forall_mem_cons.mpr ⟨h.phase (by rw [hphase]; rfl), h.writes⟩
    · cases hst
  | answer outcome =>
    dsimp only at hst
    split at hst
    · rename_i index hphase
      cases hst
      cases outcome with
      | complete settled =>
        refine h.idle ?_
        cases settled with
        | true => exact h.signal .success
        | false => exact h.signals
      | rejected => exact h.idle h.signals
      | retryable checkpointed age now handoff =>
        cases checkpointed with
        | true => exact h.retry index age now handoff
        | false => exact h.idle h.signals
    · cases hst
  | waited inTime =>
    dsimp only at hst
    split at hst
    · rename_i index hphase
      cases hst
      cases inTime with
      | true => exact ⟨fun _ => h.phase (by rw [hphase]; rfl), h.writes, h.signals⟩
      | false => exact h.idle h.signals
    · cases hst
  | abandon =>
    cases hst
    exact h.idle h.signals

theorem Inv.new : Inv policy {} :=
  ⟨fun h => (by cases h), fun _ h => (by cases h), ⟨[], rfl⟩⟩

end Turns

/-- An open breaker recovers before it is closed, a failure opens one that is not closed, the delay
before a probe doubles with each of the openings since it was closed, up to the tenth and to the
greatest delay, and no turn writes while it is open. -/
theorem breaker_sound (policy : DeliveryPolicy) :
    (∀ l l', (policy.run {} l).health = .opened → (policy.run {} (l ++ l')).health = .closed →
      policy.Recovers (policy.run {} l) l') ∧
    (∀ l a now, (policy.run {} l).health ≠ .closed → a.failsAt (policy.run {} l) = some now →
      (policy.run {} (l ++ [a])).health = .opened) ∧
    (∀ l a now, a.failsAt (policy.run {} l) = some now →
      (policy.run {} (l ++ [a])).health = .opened →
      (policy.run {} (l ++ [a])).nextProbeAt = now.checkedAdd
        (min policy.probeMaxDelay.nanos.toNat
          (policy.probeInitialDelay.nanos.toNat * 2 ^ min (policy.openings l) 10))) ∧
    ∀ s : Turns, Run (fun s e s' => s.step policy e = some s') (fun _ _ => True) {} s →
      (∃ signals, s.breaker = policy.run {} signals) ∧ ∀ health ∈ s.writes, health ≠ .opened := by
  refine ⟨DeliveryPolicy.recloses, fun l a now hopen hfails => ?_,
    fun l _ _ => DeliveryPolicy.nextProbeAt_of_opening l, fun s h => ?_⟩
  · rw [DeliveryPolicy.run_append]
    exact DeliveryPolicy.failure_opens hopen hfails
  · have hi : Turns.Inv policy s := h.invariant (fun _ _ _ hi _ hst => hi.step hst) .new
    exact ⟨hi.signals, hi.writes⟩

namespace Sample

/-- One failure opens and one success closes. -/
def breakerPolicy : DeliveryPolicy where
  maxAttemptsPerTurn := 3
  failureThreshold := 1
  fallbackAge := .fromMillis 1000
  probeInitialDelay := .fromMillis 10
  probeMaxDelay := .fromMillis 1000
  recoverySuccessThreshold := 1

/-- The breaker opens, is probed ten milliseconds later and closes. -/
theorem breaker_sound_recovery :
    (breakerPolicy.run {} [.failure 0 ⟨0⟩]).health = .opened ∧
      breakerPolicy.Recovers (breakerPolicy.run {} [.failure 0 ⟨0⟩])
        [.permission ⟨10 ^ 7⟩ .passed, .success] :=
  ⟨by decide, (breaker_sound breakerPolicy).1 _ _ (by decide) (by decide)⟩

end Sample

end AuxCommon.BufferedWrites
