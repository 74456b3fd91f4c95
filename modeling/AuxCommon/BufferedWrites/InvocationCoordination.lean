import AuxCommon.BufferedWrites.Deadline
import AuxCommon.Lib.System
import Mathlib.Data.List.Chain

/-!
# Authority over a Lambda invocation

Model of `InvocationCoordination` (`buffered-writes/src/lambda_lifecycle/coordination.rs`). The host
begins a phase for each invocation, the runtime binds one attempt to it and gets a session, and
under the session it may write and record the report that ends the phase. Each critical section is
one step (`Turn`); the loops of `bind` and `completed` take one each time they are woken. `Trace` has
beside the state the number of the phase, the sessions that were granted and the reports that were
recorded.

`authority_fenced` is what holds in every run in which the sessions that are issued are new. A
binding is remembered until another attempt has been bound in a later phase, and a report until the
session of its phase completes again: `authority_not_fenced` has both.

`ρ` is the report and `σ` the session. The poisoning of the lock is left out, as are the
notifications: a waiting call may look at the state at any time.
-/

namespace AuxCommon.BufferedWrites.Lambda

open List

/-- The errors of this file (`LifecycleError`). -/
inductive LifecycleError where
  | driverAlreadyStarted
  | invalidConfiguration (reason : String)
  | ipcProtocolViolation (reason : String)
  | shutdownFailed (reason : String)
  deriving DecidableEq

def invalidInvocation : LifecycleError :=
  .ipcProtocolViolation "Lambda invocation identity or lifecycle state is invalid"

def lambdaMaxInvocationIdBytes : Nat := 128

/-- The bytes of an identifier are graphic ASCII characters. -/
def validateId (id : String) : Except LifecycleError Unit :=
  if id.isEmpty || lambdaMaxInvocationIdBytes < id.utf8ByteSize ||
      !id.toList.all (fun c => '!' ≤ c && c ≤ '~') then .error invalidInvocation
  else .ok ()

structure Binding (σ ρ : Type) where
  attemptId : String
  session : σ
  report : Option ρ

structure Phase (σ ρ : Type) where
  eventId : String
  requestId : String
  deadline : Deadline
  binding : Option (Binding σ ρ)
  expired : Bool

inductive InvocationState (σ ρ : Type) where
  | idle
  | phase (phase : Phase σ ρ)
  | stopped

inductive InvocationPermission (ρ : Type) where
  | active (deadline : Deadline)
  | completed (report : ρ)

variable {now : Instant} {requestId attemptId : String} {deadline : Deadline}

namespace Phase

variable {σ ρ : Type} [DecidableEq σ] (p : Phase σ ρ)

def isTerminal : Bool := p.expired || p.binding.any (·.report.isSome)

/-- A session is issued; `session` is the new identifier. -/
def issueSession (requestId attemptId : String) (session : σ) (now : Instant) :
    Except LifecycleError (Option σ × Phase σ ρ) :=
  if p.requestId ≠ requestId || p.binding.isSome || p.deadline.isExpiredAt now then
    .error invalidInvocation
  else
    .ok (some session, { p with binding := some ⟨attemptId, session, none⟩ })

def bind (requestId attemptId : String) (previous : Bool) (session : σ) (now : Instant) :
    Except LifecycleError (Option σ × Phase σ ρ) :=
  match p.binding.filter (·.attemptId = attemptId) with
  | some binding =>
    if p.requestId ≠ requestId || p.expired then .error invalidInvocation
    else .ok (some binding.session, p)
  | none =>
    if previous then .error invalidInvocation
    else if p.isTerminal then .ok (none, p)
    else p.issueSession requestId attemptId session now

def permission (session : σ) (now : Instant) :
    Except LifecycleError (InvocationPermission ρ) :=
  match p.binding with
  | none => .error invalidInvocation
  | some binding =>
    if p.expired || binding.session ≠ session then .error invalidInvocation
    else match binding.report with
      | some report => .ok (.completed report)
      | none =>
        if p.deadline.isExpiredAt now then .error invalidInvocation
        else .ok (.active p.deadline)

omit [DecidableEq σ] in
/-- A bind waits, returns the session of its attempt, or is issued the session of the phase. -/
theorem bind_cases {previous : Bool} {session : σ}
    {r : Option σ × Phase σ ρ} (h : p.bind requestId attemptId previous session now = .ok r) :
    r = (none, p) ∨
    (∃ b, p.binding = some b ∧ b.attemptId = attemptId ∧ r = (some b.session, p)) ∨
    (p.binding = none ∧ previous = false ∧ p.expired = false ∧
      r = (some session, { p with binding := some ⟨attemptId, session, none⟩ })) := by
  unfold Phase.bind at h
  split at h
  · rename_i b hb
    obtain ⟨hb, hattempt⟩ := Option.filter_eq_some_iff.mp hb
    split at h
    · cases h
    · cases h
      exact .inr (.inl ⟨b, hb, of_decide_eq_true hattempt, rfl⟩)
  · split at h
    · cases h
    · rename_i hprevious
      split at h
      · cases h
        exact .inl rfl
      · rename_i hterminal
        unfold Phase.issueSession at h
        split at h
        · cases h
        · rename_i hok
          cases h
          refine .inr (.inr ⟨?_, ?_, ?_, rfl⟩)
          · cases hb : p.binding with
            | none => rfl
            | some b => simp [hb] at hok
          · exact Bool.eq_false_of_not_eq_true hprevious
          · cases he : p.expired with
            | false => rfl
            | true => exact absurd (by rw [isTerminal, he]; rfl) hterminal

/-- A permission is for the session of the phase, while it has not expired. -/
theorem permission_ok {session : σ} {r : InvocationPermission ρ}
    (h : p.permission session now = .ok r) :
    p.expired = false ∧ ∃ b, p.binding = some b ∧ b.session = session := by
  unfold Phase.permission at h
  split at h
  · cases h
  · rename_i b hb
    split at h
    · cases h
    · rename_i hok
      simp only [Bool.or_eq_true, decide_eq_true_eq, not_or, ne_eq, not_not, Bool.not_eq_true] at hok
      exact ⟨hok.1, b, hb, hok.2⟩

theorem permission_completed {b : Binding σ ρ} {report : ρ} (hb : p.binding = some b)
    (hreport : b.report = some report) (hexpired : p.expired = false) (now : Instant) :
    p.permission b.session now = .ok (.completed report) := by
  unfold Phase.permission
  rw [hb]
  dsimp only
  rw [hexpired, hreport]
  simp

end Phase

structure CoordinationState (σ ρ : Type) where
  invocation : InvocationState σ ρ
  previousAttempt : Option String
  serviceActive : Bool

namespace CoordinationState

variable {σ ρ : Type}

/-- `CoordinationState::default`. -/
def new : CoordinationState σ ρ where
  invocation := .idle
  previousAttempt := none
  serviceActive := false

variable [DecidableEq σ] (s : CoordinationState σ ρ) {s' : CoordinationState σ ρ} {session : σ}

def claimService : Except LifecycleError (CoordinationState σ ρ) :=
  match s.invocation with
  | .stopped => .error (.shutdownFailed "Lambda extension is already shut down")
  | .idle | .phase _ =>
    if s.serviceActive then .error .driverAlreadyStarted
    else .ok { s with serviceActive := true }

/-- The drop of `ServiceGuard`. -/
def releaseService : CoordinationState σ ρ := { s with serviceActive := false }

/-- The new phase of `begin`. -/
def enter (eventId requestId : String) (deadline : Deadline) (previousAttempt : Option String) :
    CoordinationState σ ρ :=
  { s with
    invocation := .phase
      { eventId, requestId, deadline, binding := none, expired := false }
    previousAttempt }

/-- `begin`, with the two readings of the clock in its check of the deadline. -/
def begin (eventId requestId : String) (deadline : Deadline) (now now' : Instant) :
    Except LifecycleError (CoordinationState σ ρ) :=
  match validateId eventId, validateId requestId with
  | .ok (), .ok () =>
    if (now.checkedAdd (deadline.remainingAt now')).isNone then
      .error (.invalidConfiguration "Lambda invocation requires a finite monotonic deadline")
    else match s.invocation with
      | .stopped => .error invalidInvocation
      | .phase phase =>
        if phase.eventId = eventId || !phase.isTerminal then .error invalidInvocation
        else
          .ok (s.enter eventId requestId deadline
            ((phase.binding.map (·.attemptId)).or s.previousAttempt))
      | .idle => .ok (s.enter eventId requestId deadline s.previousAttempt)
  | .error error, _ | .ok (), .error error => .error error

/-- One round of `bind`: the session, or nothing while it has to wait. -/
def bind (requestId attemptId : String) (session : σ) (now : Instant) :
    Except LifecycleError (Option σ × CoordinationState σ ρ) :=
  match validateId requestId, validateId attemptId with
  | .ok (), .ok () =>
    match s.invocation with
    | .stopped => .error invalidInvocation
    | .idle => .ok (none, s)
    | .phase phase =>
      (phase.bind requestId attemptId (s.previousAttempt = some attemptId) session now).map
        fun r => (r.1, { s with invocation := .phase r.2 })
  | .error error, _ | .ok (), .error error => .error error

def permission (session : σ) (now : Instant) :
    Except LifecycleError (InvocationPermission ρ) :=
  match s.invocation with
  | .phase phase => phase.permission session now
  | .idle | .stopped => .error invalidInvocation

def complete (session : σ) (report : ρ) (now : Instant) :
    Except LifecycleError (CoordinationState σ ρ) :=
  match s.invocation with
  | .idle | .stopped => .error invalidInvocation
  | .phase phase =>
    match phase.permission session now, phase.binding with
    | .error error, _ => .error error
    | .ok _, none => .error invalidInvocation
    | .ok _, some binding =>
      let binding := { binding with report := some report }
      .ok { s with invocation := .phase { phase with binding := some binding } }

/-- One round of `completed`: the report, or the deadline until which it waits. -/
def completed (eventId : String) : Except LifecycleError (ρ ⊕ Deadline) :=
  match s.invocation with
  | .idle | .stopped => .error invalidInvocation
  | .phase phase =>
    if phase.eventId ≠ eventId || phase.expired then .error invalidInvocation
    else match phase.binding.bind (·.report) with
      | some report => .ok (.inl report)
      | none => .ok (.inr phase.deadline)

def expire (eventId : String) : CoordinationState σ ρ :=
  match s.invocation with
  | .idle | .stopped => s
  | .phase phase =>
    if phase.eventId = eventId && !phase.isTerminal then
      { s with invocation := .phase { phase with expired := true } }
    else s

def stop : CoordinationState σ ρ := { s with invocation := .stopped }

omit [DecidableEq σ] in
/-- A phase begins at first, or when the phase before it has ended. -/
theorem begin_cases {eventId requestId : String} {now now' : Instant}
    (h : s.begin eventId requestId deadline now now' = .ok s') :
    ∃ previous, s' = s.enter eventId requestId deadline previous ∧
      (s.invocation = .idle ∨ ∃ p, s.invocation = .phase p ∧
        previous = (p.binding.map (·.attemptId)).or s.previousAttempt) := by
  unfold CoordinationState.begin at h
  split at h
  · split at h
    · cases h
    · split at h
      · cases h
      · rename_i p hp
        split at h
        · cases h
        · cases h
          exact ⟨_, rfl, .inr ⟨p, hp, rfl⟩⟩
      · rename_i hidle
        cases h
        exact ⟨_, rfl, .inl hidle⟩
  · cases h
  · cases h

omit [DecidableEq σ] in
theorem bind_cases {r : Option σ × CoordinationState σ ρ}
    (h : s.bind requestId attemptId session now = .ok r) :
    r = (none, s) ∨ ∃ p r', s.invocation = .phase p ∧
      p.bind requestId attemptId (s.previousAttempt = some attemptId) session now = .ok r' ∧
      r = (r'.1, { s with invocation := .phase r'.2 }) := by
  unfold CoordinationState.bind at h
  split at h
  · split at h
    · cases h
    · cases h
      exact .inl rfl
    · rename_i p hp
      cases hb : p.bind requestId attemptId (s.previousAttempt = some attemptId) session now with
      | error e => rw [hb] at h; cases h
      | ok r' =>
        rw [hb] at h
        cases h
        exact .inr ⟨p, r', hp, hb, rfl⟩
  · cases h
  · cases h

theorem permission_ok {r : InvocationPermission ρ} (h : s.permission session now = .ok r) :
    ∃ p, s.invocation = .phase p ∧ p.expired = false ∧
      ∃ b, p.binding = some b ∧ b.session = session := by
  unfold CoordinationState.permission at h
  split at h
  · rename_i p hp
    exact ⟨p, hp, p.permission_ok h⟩
  · cases h
  · cases h

theorem complete_ok {report : ρ} (h : s.complete session report now = .ok s') :
    ∃ p b, s.invocation = .phase p ∧ p.expired = false ∧ p.binding = some b ∧ b.session = session ∧
      s' = { s with
        invocation := .phase { p with binding := some { b with report := some report } } } := by
  unfold CoordinationState.complete at h
  split at h
  · cases h
  · cases h
  · rename_i p hp
    split at h
    · cases h
    · cases h
    · rename_i b hpermission hb
      cases h
      obtain ⟨hexpired, b', hb', hsession⟩ := p.permission_ok hpermission
      obtain rfl := Option.some.inj (hb.symm.trans hb')
      exact ⟨p, b, hp, hexpired, hb, hsession, rfl⟩

omit [DecidableEq σ] in
/-- An expiry ends a phase that is running. -/
theorem expire_cases (eventId : String) :
    s.expire eventId = s ∨ ∃ p, s.invocation = .phase p ∧ p.isTerminal = false ∧
      s.expire eventId = { s with invocation := .phase { p with expired := true } } := by
  unfold CoordinationState.expire
  split
  · exact .inl rfl
  · exact .inl rfl
  · rename_i p hp
    split
    · rename_i hok
      simp only [Bool.and_eq_true, Bool.not_eq_true'] at hok
      exact .inr ⟨p, hp, hok.2, rfl⟩
    · exact .inl rfl

end CoordinationState

/-! ## Runs -/

/-- A bind that returned a session, in the phase with this number. -/
structure Grant (σ : Type) where
  phase : Nat
  attempt : String
  session : σ
  deriving DecidableEq

structure Trace (σ ρ : Type) where
  state : CoordinationState σ ρ
  /-- The number of phases that have begun. -/
  phases : Nat
  grants : List (Grant σ)
  /-- The reports that have been recorded, the last one first, with the number of the phase. -/
  reports : List (Nat × ρ)

inductive Turn (σ ρ : Type) where
  | claimService
  | releaseService
  | begin (eventId requestId : String) (deadline : Deadline) (now now' : Instant)
  | bind (requestId attemptId : String) (session : σ) (now : Instant)
  | permission (session : σ) (now : Instant)
  | complete (session : σ) (report : ρ) (now : Instant)
  | completed (eventId : String)
  | expire (eventId : String)
  | stop

namespace Trace

variable {σ ρ : Type} [DecidableEq σ] (s : Trace σ ρ)

def new : Trace σ ρ where
  state := .new
  phases := 0
  grants := []
  reports := []

/-- The state after a bind, which is granted when it returned a session. -/
def granted (attemptId : String) : Option σ × CoordinationState σ ρ → Trace σ ρ
  | (some session, state) =>
    { s with state, grants := ⟨s.phases, attemptId, session⟩ :: s.grants }
  | (none, state) => { s with state }

/-- A call that fails changes nothing. -/
def step : Turn σ ρ → Trace σ ρ
  | .claimService => (s.state.claimService).toOption.elim s fun state => { s with state }
  | .releaseService => { s with state := s.state.releaseService }
  | .begin eventId requestId deadline now now' =>
    (s.state.begin eventId requestId deadline now now').toOption.elim s fun state =>
      { s with state, phases := s.phases + 1 }
  | .bind requestId attemptId session now =>
    (s.state.bind requestId attemptId session now).toOption.elim s (s.granted attemptId)
  | .permission _ _ | .completed _ => s
  | .complete session report now =>
    (s.state.complete session report now).toOption.elim s fun state =>
      { s with state, reports := (s.phases, report) :: s.reports }
  | .expire eventId => { s with state := s.state.expire eventId }
  | .stop => { s with state := s.state.stop }

/-- A session that may be issued is new. -/
def Fresh : Turn σ ρ → Prop
  | .bind _ _ session _ => ∀ g ∈ s.grants, g.session ≠ session
  | _ => True

/-- The runs from the start. -/
abbrev Reaches (s : Trace σ ρ) : Prop := Run (fun s a s' => s' = s.step a) Fresh .new s

/-- The report of a phase that was recorded last. -/
def report? (phase : Nat) : Option ρ := (s.reports.find? (·.1 = phase)).map (·.2)

/-- What is remembered of the phase that is running. -/
def PhaseOk (p : Phase σ ρ) : Prop :=
  match p.binding with
  | none => (∀ g ∈ s.grants, g.phase < s.phases) ∧ s.report? s.phases = none ∧
      ∀ g ∈ s.grants.head?, s.state.previousAttempt = some g.attempt
  | some b => s.grants.head? = some ⟨s.phases, b.attemptId, b.session⟩ ∧
      s.report? s.phases = b.report ∧ (b.report.isSome → p.expired = false)

structure Inv : Prop where
  phases : ∀ g ∈ s.grants, g.phase ≤ s.phases
  reports : ∀ r ∈ s.reports, r.1 ≤ s.phases
  idle : s.state.invocation = .idle → s.grants = []
  phase : ∀ p, s.state.invocation = .phase p → s.PhaseOk p
  -- one session for each phase, and one phase for each session
  same : ∀ g ∈ s.grants, ∀ g' ∈ s.grants, g.phase = g'.phase ∨ g.session = g'.session → g = g'
  attempts : s.grants.IsChain fun g g' => g.phase ≠ g'.phase → g.attempt ≠ g'.attempt

variable {s} {p : Phase σ ρ} {b : Binding σ ρ}

section

omit [DecidableEq σ]

theorem inv_new : (new : Trace σ ρ).Inv where
  phases _ h := by cases h
  reports _ h := by cases h
  idle _ := rfl
  phase _ h := by cases h
  same _ h := by cases h
  attempts := .nil

/-- What a step on the state leaves, when it grants and records nothing. -/
theorem Inv.state (hi : s.Inv) {state : CoordinationState σ ρ}
    (hidle : state.invocation = .idle → s.state.invocation = .idle)
    (hphase : ∀ p, state.invocation = .phase p → ({ s with state }).PhaseOk p) :
    ({ s with state }).Inv :=
  ⟨hi.phases, hi.reports, fun h => hi.idle (hidle h), hphase, hi.same, hi.attempts⟩

theorem Inv.service (hi : s.Inv) (serviceActive : Bool) :
    ({ s with state := { s.state with serviceActive } }).Inv :=
  hi.state id hi.phase

theorem Inv.report?_eq_none (hi : s.Inv) {phase : Nat} (h : s.phases < phase) :
    s.report? phase = none := by
  rw [report?, find?_eq_none.mpr]
  · rfl
  · intro r hr
    have := hi.reports r hr
    simp only [decide_eq_true_eq]
    omega

theorem Inv.begin (hi : s.Inv) {eventId requestId : String}
    {now now' : Instant} {state : CoordinationState σ ρ}
    (h : s.state.begin eventId requestId deadline now now' = .ok state) :
    ({ s with state, phases := s.phases + 1 }).Inv := by
  obtain ⟨previous, rfl, hprevious⟩ := s.state.begin_cases h
  refine ⟨fun g hg => (hi.phases g hg).trans (Nat.le_succ _),
    fun r hr => (hi.reports r hr).trans (Nat.le_succ _), nofun, fun p hp => ?_, hi.same,
    hi.attempts⟩
  cases hp
  refine ⟨fun g hg => Nat.lt_succ_of_le (hi.phases g hg), hi.report?_eq_none (Nat.lt_succ_self _),
    fun g hg => ?_⟩
  obtain hidle | ⟨p, hp, rfl⟩ := hprevious
  · rw [hi.idle hidle] at hg
    cases hg
  · -- the attempt of the last binding, whether it was in the phase that ends or before it
    have hok := hi.phase p hp
    unfold PhaseOk at hok
    cases hb : p.binding with
    | none =>
      rw [hb] at hok
      exact hok.2.2 g hg
    | some b =>
      rw [hb] at hok
      rw [hok.1] at hg
      cases hg
      rfl

/-- The session of the phase is granted again. -/
theorem Inv.regrant (hi : s.Inv) (hp : s.state.invocation = .phase p) (hb : p.binding = some b) :
    ({ s with grants := ⟨s.phases, b.attemptId, b.session⟩ :: s.grants }).Inv := by
  have hok := hi.phase p hp
  simp only [PhaseOk, hb] at hok
  have hhead : ⟨s.phases, b.attemptId, b.session⟩ ∈ s.grants := mem_of_mem_head? hok.1
  have hmem : ∀ g ∈ ⟨s.phases, b.attemptId, b.session⟩ :: s.grants, g ∈ s.grants := by
    intro g hg
    obtain rfl | hg := mem_cons.mp hg
    · exact hhead
    · exact hg
  refine ⟨fun g hg => hi.phases g (hmem g hg), hi.reports, fun h => ?_, fun p' hp' => ?_,
    fun g hg g' hg' => hi.same g (hmem g hg) g' (hmem g' hg'), ?_⟩
  · rw [hp] at h
    cases h
  · obtain rfl : p = p' := by
      rw [show s.state.invocation = .phase p' from hp'] at hp
      cases hp
      rfl
    simp only [PhaseOk, hb]
    exact ⟨rfl, hok.2⟩
  · refine hi.attempts.cons fun g hg hne => ?_
    rw [hok.1] at hg
    cases hg
    exact absurd rfl hne

/-- The session of the phase is issued. -/
theorem Inv.issue (hi : s.Inv) {attempt : String} {session : σ}
    (hp : s.state.invocation = .phase p) (hb : p.binding = none) (hexpired : p.expired = false)
    (hprevious : s.state.previousAttempt ≠ some attempt)
    (hfresh : ∀ g ∈ s.grants, g.session ≠ session) :
    ({ s with
      state := { s.state with
        invocation := .phase { p with binding := some ⟨attempt, session, none⟩ } }
      grants := ⟨s.phases, attempt, session⟩ :: s.grants }).Inv := by
  have hok := hi.phase p hp
  simp only [PhaseOk, hb] at hok
  obtain ⟨hold, hreport, hhead⟩ := hok
  -- the new grant shares nothing with the old ones
  have hnew : ∀ g ∈ s.grants, ¬ (s.phases = g.phase ∨ session = g.session) := by
    rintro g hg (h | h)
    · exact absurd h.symm (hold g hg).ne
    · exact hfresh g hg h.symm
  refine ⟨fun g hg => ?_, hi.reports, nofun, fun p' hp' => ?_, fun g hg g' hg' h => ?_, ?_⟩
  · obtain rfl | hg := mem_cons.mp hg
    · exact Nat.le_refl _
    · exact hi.phases g hg
  · cases hp'
    exact ⟨rfl, hreport, fun _ => hexpired⟩
  · obtain rfl | hg := mem_cons.mp hg
    · obtain rfl | hg' := mem_cons.mp hg'
      · rfl
      · exact absurd h (hnew g' hg')
    · obtain rfl | hg' := mem_cons.mp hg'
      · exact absurd (h.imp Eq.symm Eq.symm) (hnew g hg)
      · exact hi.same g hg g' hg' h
  · refine hi.attempts.cons fun g hg _ heq => ?_
    exact hprevious ((hhead g hg).trans (congrArg some heq.symm))

theorem Inv.bind (hi : s.Inv) {session : σ} {r : Option σ × CoordinationState σ ρ}
    (h : s.state.bind requestId attemptId session now = .ok r)
    (hfresh : ∀ g ∈ s.grants, g.session ≠ session) : (s.granted attemptId r).Inv := by
  obtain rfl | ⟨p, r', hp, hbind, rfl⟩ := s.state.bind_cases h
  · exact hi
  have hsame : ({ s.state with invocation := .phase p } : CoordinationState σ ρ) = s.state := by
    rw [← hp]
  obtain rfl | ⟨b, hb, rfl, rfl⟩ | ⟨hb, hprevious, hexpired, rfl⟩ := p.bind_cases hbind
  · rw [granted, hsame]
    exact hi
  · rw [granted, hsame]
    exact hi.regrant hp hb
  · exact hi.issue hp hb hexpired (of_decide_eq_false hprevious) hfresh

end

theorem Inv.complete (hi : s.Inv) {session : σ} {report : ρ}
    {state : CoordinationState σ ρ} (h : s.state.complete session report now = .ok state) :
    ({ s with state, reports := (s.phases, report) :: s.reports }).Inv := by
  obtain ⟨p, b, hp, hexpired, hb, -, rfl⟩ := s.state.complete_ok h
  have hok := hi.phase p hp
  simp only [PhaseOk, hb] at hok
  refine ⟨hi.phases, fun r hr => ?_, nofun, fun p' hp' => ?_, hi.same, hi.attempts⟩
  · obtain rfl | hr := mem_cons.mp hr
    · exact Nat.le_refl _
    · exact hi.reports r hr
  · cases hp'
    refine ⟨hok.1, ?_, fun _ => hexpired⟩
    rw [report?, find?_cons_of_pos (by simp)]
    rfl

omit [DecidableEq σ] in
theorem Inv.expire (hi : s.Inv) (eventId : String) :
    ({ s with state := s.state.expire eventId }).Inv := by
  obtain heq | ⟨p, hp, hterminal, heq⟩ := s.state.expire_cases eventId
  · rw [heq]
    exact hi
  rw [heq]
  refine hi.state nofun fun p' hp' => ?_
  cases hp'
  have hok := hi.phase p hp
  unfold PhaseOk at hok ⊢
  cases hb : p.binding with
  | none =>
    rw [hb] at hok
    exact hok
  | some b =>
    rw [hb] at hok
    refine ⟨hok.1, hok.2.1, fun hsome => ?_⟩
    rw [Phase.isTerminal, hb, Option.any_some, hsome, Bool.or_true] at hterminal
    cases hterminal

theorem Inv.step (hi : s.Inv) (a : Turn σ ρ) (ha : s.Fresh a) : (s.step a).Inv := by
  cases a with
  | claimService =>
    dsimp only [Trace.step]
    cases h : s.state.claimService with
    | error => exact hi
    | ok state =>
      unfold CoordinationState.claimService at h
      split at h
      · cases h
      all_goals
        split at h
        · cases h
        · cases h
          exact hi.service true
  | releaseService => exact hi.service false
  | begin eventId requestId deadline now now' =>
    dsimp only [Trace.step]
    cases h : s.state.begin eventId requestId deadline now now' with
    | error => exact hi
    | ok state => exact hi.begin h
  | bind requestId attemptId session now =>
    dsimp only [Trace.step]
    cases h : s.state.bind requestId attemptId session now with
    | error => exact hi
    | ok r => exact hi.bind h ha
  | permission | completed => exact hi
  | complete session report now =>
    dsimp only [Trace.step]
    cases h : s.state.complete session report now with
    | error => exact hi
    | ok state => exact hi.complete h
  | expire eventId => exact hi.expire eventId
  | stop => exact hi.state nofun nofun

theorem Inv.of_reaches (h : s.Reaches) : s.Inv :=
  h.invariant (fun s a s' hi ha hstep => (show s' = s.step a from hstep) ▸ hi.step a ha) inv_new

/-! ## The authority of a session -/

/-- The session is that of the phase that is running, which has not expired, and of no other. -/
def Authorised (s : Trace σ ρ) (session : σ) : Prop :=
  (∃ p, s.state.invocation = .phase p ∧ p.expired = false) ∧
  (∃ g ∈ s.grants, g.phase = s.phases ∧ g.session = session) ∧
  ∀ g ∈ s.grants, g.session = session → g.phase = s.phases

omit [DecidableEq σ] in
theorem Inv.authorised (hi : s.Inv)
    (hp : s.state.invocation = .phase p) (hexpired : p.expired = false)
    (hb : p.binding = some b) : s.Authorised b.session := by
  have hok := hi.phase p hp
  simp only [PhaseOk, hb] at hok
  have hhead : ⟨s.phases, b.attemptId, b.session⟩ ∈ s.grants := mem_of_mem_head? hok.1
  refine ⟨⟨p, hp, hexpired⟩, ⟨_, hhead, rfl, rfl⟩, fun g hg hsession => ?_⟩
  rw [hi.same g hg _ hhead (.inr hsession)]

/-- The report of the phase that is running answers the calls on the phase. -/
theorem Inv.reported (hi : s.Inv) (hp : s.state.invocation = .phase p)
    {report : ρ} (hreport : s.report? s.phases = some report) :
    (∀ g ∈ s.grants, g.phase = s.phases → ∀ now,
      s.state.permission g.session now = .ok (.completed report)) ∧
    s.state.completed p.eventId = .ok (.inl report) := by
  have hok := hi.phase p hp
  cases hb : p.binding with
  | none =>
    simp only [PhaseOk, hb] at hok
    rw [hok.2.1] at hreport
    cases hreport
  | some b =>
    simp only [PhaseOk, hb] at hok
    obtain ⟨hhead, hb', hexpired⟩ := hok
    have hbreport : b.report = some report := hb'.symm.trans hreport
    have hexpired : p.expired = false := hexpired (by rw [hbreport]; rfl)
    refine ⟨fun g hg hphase now => ?_, ?_⟩
    · have heq := hi.same g hg _ (mem_of_mem_head? hhead) (.inl hphase)
      rw [CoordinationState.permission, hp, heq]
      exact p.permission_completed hb hbreport hexpired now
    · simp only [CoordinationState.completed, hp, hb, hexpired, hbreport, Option.bind_some]
      simp

end Trace

open Trace

/-- In every run in which the sessions that are issued are new: the binds of one phase return one
session; an attempt gets no session in a later phase before another attempt has got one; permission
and completion are for the session of the running phase, which has not expired; and while the phase
runs, its calls return the report that was recorded last. -/
theorem authority_fenced {σ ρ : Type} [DecidableEq σ] {s : Trace σ ρ} (h : s.Reaches) :
    (∀ g ∈ s.grants, ∀ g' ∈ s.grants, g.phase = g'.phase → g.session = g'.session) ∧
    s.grants.IsChain (fun g g' => g.phase ≠ g'.phase → g.attempt ≠ g'.attempt) ∧
    (∀ session now permission, s.state.permission session now = .ok permission →
      s.Authorised session) ∧
    (∀ session report now state, s.state.complete session report now = .ok state →
      s.Authorised session) ∧
    ∀ p report, s.state.invocation = .phase p → s.report? s.phases = some report →
      (∀ g ∈ s.grants, g.phase = s.phases → ∀ now,
        s.state.permission g.session now = .ok (.completed report)) ∧
      s.state.completed p.eventId = .ok (.inl report) := by
  have hi := Inv.of_reaches h
  refine ⟨fun g hg g' hg' hphase => ?_, hi.attempts, fun session now r hpermission => ?_,
    fun session report now state hc => ?_, fun p report hp => hi.reported hp⟩
  · rw [hi.same g hg g' hg' (.inl hphase)]
  · obtain ⟨p, hp, hexpired, b, hb, rfl⟩ := s.state.permission_ok hpermission
    exact hi.authorised hp hexpired hb
  · obtain ⟨p, b, hp, hexpired, hb, rfl, -⟩ := s.state.complete_ok hc
    exact hi.authorised hp hexpired hb

instance {σ ρ : Type} [DecidableEq σ] (s : Trace σ ρ) (a : Turn σ ρ) : Decidable (s.Fresh a) :=
  match a with
  | .bind _ _ session _ => inferInstanceAs (Decidable (∀ g ∈ s.grants, g.session ≠ session))
  | .claimService | .releaseService | .begin .. | .permission .. | .complete .. | .completed _
  | .expire _ | .stop => .isTrue trivial

/-- A phase is running. -/
def InvocationState.isPhase {σ ρ : Type} : InvocationState σ ρ → Bool
  | .idle | .stopped => false
  | .phase _ => true

/-- The report of a phase that has ended. -/
def InvocationPermission.report? {ρ : Type} : InvocationPermission ρ → Option ρ
  | .active _ => none
  | .completed report => some report

namespace Trial

def start : Instant := ⟨0⟩

/-- A phase from its beginning to its report. -/
def phase (event attempt : String) (session : Nat) (report : String) : List (Turn Nat String) :=
  [.begin event "request" (.fromAnchor start 1000) start start, .bind "request" attempt session start,
    .complete session report start]

/-- The first attempt binds again after the second one. -/
def threePhases : List (Turn Nat String) :=
  phase "event-1" "attempt-1" 1 "first" ++ phase "event-2" "attempt-2" 2 "second" ++
    phase "event-3" "attempt-1" 3 "third"

/-- Two completions under one session. -/
def completedTwice : List (Turn Nat String) :=
  phase "event-1" "attempt-1" 1 "first" ++ [.complete 1 "second" start]

end Trial

/-- An attempt of an earlier phase binds again once another attempt has been bound, and the session
of a phase that has ended records another report. -/
theorem authority_not_fenced :
    (∃ s : Trace Nat String, s.Reaches ∧ ⟨1, "attempt-1", 1⟩ ∈ s.grants ∧
      ⟨3, "attempt-1", 3⟩ ∈ s.grants) ∧
    ∃ s : Trace Nat String, s.Reaches ∧ s.phases = 1 ∧ s.reports = [(1, "second"), (1, "first")] ∧
      (s.state.permission 1 Trial.start).toOption.bind (·.report?) = some "second" := by
  have hthree : (Trial.threePhases.foldl Trace.step .new).Reaches := Run.ofList (by decide +kernel)
  have htwice : (Trial.completedTwice.foldl Trace.step .new).Reaches :=
    Run.ofList (by decide +kernel)
  exact ⟨⟨_, hthree, by decide +kernel⟩, ⟨_, htwice, by decide +kernel⟩⟩

theorem authority_fenced_three_phases :
    ∃ s : Trace Nat String, s.Reaches ∧ s.grants.map (·.phase) = [3, 2, 1] ∧
      ∀ now, s.state.permission 3 now = .ok (.completed "third") := by
  have hruns : (Trial.threePhases.foldl Trace.step .new).Reaches := Run.ofList (by decide +kernel)
  have hend : (Trial.threePhases.foldl Trace.step .new).phases = 3 ∧
      (Trial.threePhases.foldl Trace.step .new).grants =
        [⟨3, "attempt-1", 3⟩, ⟨2, "attempt-2", 2⟩, ⟨1, "attempt-1", 1⟩] ∧
      (Trial.threePhases.foldl Trace.step .new).report? 3 = some "third" ∧
      (Trial.threePhases.foldl Trace.step .new).state.invocation.isPhase = true := by
    decide +kernel
  generalize Trial.threePhases.foldl Trace.step .new = s at hruns hend
  obtain ⟨hphases, hgrants, hreport, hphase⟩ := hend
  cases hp : s.state.invocation with
  | idle | stopped =>
    rw [hp] at hphase
    cases hphase
  | phase p =>
    have hfenced := (authority_fenced hruns).2.2.2.2 p "third" hp (by rw [hphases]; exact hreport)
    refine ⟨s, hruns, by rw [hgrants]; rfl, fun now => ?_⟩
    exact hfenced.1 ⟨3, "attempt-1", 3⟩ (by rw [hgrants]; exact mem_cons_self) hphases.symm now

end AuxCommon.BufferedWrites.Lambda
