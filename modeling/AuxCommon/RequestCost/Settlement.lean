import AuxCommon.Lib.System
import AuxCommon.RequestCost.Collector

/-!
# The settled snapshot of a request

Model of `finish_request_cost_snapshot` (`metrics-facade/src/request_cost_finalization.rs`) with the
work that is reserved through `inherit_request_cost` and `RequestCostContext::scope`
(`request_cost_context.rs`). The work of many tasks, the database calls and the one who finishes run
at once; each critical section of the collector is one step, and so are the registration of the
finisher for a notification, its wake-up and its timeout.

Work that is reserved runs in the scope of the collector, and gives its reservation back when its
future has completed or has been dropped. The future is dropped in the scope, before the
reservation; a future that was never polled is dropped after it, and then what its destructor records
goes to the scope of the one who drops it. Work that is refused runs in the scope of the one who polls
it: this is the scope of the collector when it is polled by the request itself (`Owner.refused`).

`settled_snapshot_complete` is the result. It is for runs with fewer reservations and database calls
at once than a word can count. `refused_work_updates` is a run in which work that was refused updates
the collector.

The poisoning of the lock is left out.
-/

namespace AuxCommon.RequestCost

open Option Collector

/-- In whose scope an update is made: the request itself, reserved work, work that was refused and is
polled in the scope of the request, or a report by the identifier of the request. -/
inductive Owner (ω : Type) where
  | request
  | work (work : ω)
  | refused (work : ω)
  | report

inductive SettlementError where
  | deadlineExceeded
  deriving DecidableEq

/-- Where the finisher is. Once it is registered it has been notified or not. -/
inductive Finisher where
  | idle
  | prepared
  | registered (notified : Bool)
  | waiting (notified : Bool)
  | timedOut
  | returned (result : Except SettlementError Snapshot)

/-- `notify_waiters`. -/
def Finisher.notify : Finisher → Finisher
  | .registered _ => .registered true
  | .waiting _ => .waiting true
  | f => f

/-- `ω` names the pieces of work and `γ` the database calls. -/
structure State (ω γ : Type) where
  collector : Collector
  finisher : Finisher
  /-- The work whose reservation has not been given back. -/
  outstanding : List ω
  refused : List ω
  /-- The guards of database calls that have not been dropped. -/
  calls : List γ
  /-- The updates, the last one first. -/
  log : List (Owner ω × Update)

inductive Turn (ω γ : Type) where
  | scope (work : ω)
  | finish (work : ω)
  | update (owner : Owner ω) (update : Update)
  | beginCall (owner : Owner ω) (call : γ) (operation : String)
  | dropCall (call : γ)
  | prepare (wallMs : Float) (responseBytes : Option Nat)
  | register
  | check
  | wake
  | timeout
  | giveUp

variable {f : Finisher}

namespace State

variable {ω γ : Type}

def new (registrationId : Option Nat) (requestId : Option String) : State ω γ where
  collector := .new registrationId requestId
  finisher := .idle
  outstanding := []
  refused := []
  calls := []
  log := []

variable [DecidableEq ω] [DecidableEq γ] (s : State ω γ)

/-- The owner runs in the scope of the collector. -/
def inScope : Owner ω → Bool
  | .request | .report => true
  | .work w => w ∈ s.outstanding
  | .refused w => w ∈ s.refused

def update (owner : Owner ω) (u : Update) : State ω γ :=
  { s with collector := s.collector.record u, log := (owner, u) :: s.log }

/-- `RequestCostWork::reserve`. -/
def scope (w : ω) : State ω γ :=
  let r := s.collector.beginWork
  if r.1 then { s with collector := r.2, outstanding := w :: s.outstanding }
  else { s with collector := r.2, refused := w :: s.refused }

/-- The drop of `RequestCostWork`. -/
def finish (w : ω) : State ω γ :=
  { s with
    collector := s.collector.finishWork
    finisher := s.finisher.notify
    outstanding := s.outstanding.erase w }

def beginCall (owner : Owner ω) (call : γ) (operation : String) : State ω γ :=
  { s with
    collector := s.collector.beginDatabaseCall operation
    calls := call :: s.calls
    log := (owner, .databaseCall operation s.collector.activeDbCalls) :: s.log }

def dropCall (call : γ) : State ω γ :=
  { s with
    collector := s.collector.finishDatabaseCall
    finisher := s.finisher.notify
    calls := s.calls.erase call }

def takeSnapshot : State ω γ :=
  let r := s.collector.takeFinishedSnapshot
  { s with collector := r.2, finisher := .returned (.ok r.1) }

/-- The check of `wait_for_owned_work`, after the registration for a notification. -/
def check (notified : Bool) : State ω γ :=
  if s.collector.isWorkIdle then s.takeSnapshot else { s with finisher := .waiting notified }

/-- `finish_snapshot` after the timeout: the snapshot is thrown away. -/
def giveUp : State ω γ :=
  { s with
    collector := s.collector.takeFinishedSnapshot.2
    finisher := .returned (.error .deadlineExceeded) }

def step : Turn ω γ → Option (State ω γ)
  | .scope w => if w ∈ s.outstanding ∨ w ∈ s.refused then none else some (s.scope w)
  | .finish w => if w ∈ s.outstanding then some (s.finish w) else none
  | .update owner u => if s.inScope owner then some (s.update owner u) else none
  | .beginCall owner call operation =>
    if s.inScope owner ∧ call ∉ s.calls then some (s.beginCall owner call operation) else none
  | .dropCall call => if call ∈ s.calls then some (s.dropCall call) else none
  | .prepare wallMs responseBytes =>
    match s.finisher with
    | .idle =>
      some { s.update .request (.prepared wallMs responseBytes) with finisher := .prepared }
    | _ => none
  | .register =>
    match s.finisher with
    | .prepared => some { s with finisher := .registered false }
    | _ => none
  | .check =>
    match s.finisher with
    | .registered notified => some (s.check notified)
    | _ => none
  -- a notified finisher registers again before it looks
  | .wake =>
    match s.finisher with
    | .waiting true => some { s with finisher := .prepared }
    | _ => none
  | .timeout =>
    match s.finisher with
    | .waiting _ => some { s with finisher := .timedOut }
    | _ => none
  | .giveUp =>
    match s.finisher with
    | .timedOut => some s.giveUp
    | _ => none

/-- There are fewer reservations and database calls than a word can count. -/
def Fits : Turn ω γ → Prop
  | .scope _ => s.outstanding.length < wordMax
  | .beginCall _ _ _ => s.calls.length < wordMax
  | _ => True

abbrev Runs : State ω γ → State ω γ → Prop := Run (fun s a s' => s.step a = some s') Fits

/-! ## The invariant -/

/-- The counters after the updates of a log. -/
def counted (log : List (Owner ω × Update)) : Counters :=
  log.foldr (fun e c => c.record e.2) .new

structure Inv : Prop where
  work : s.collector.activeWork = s.outstanding.length
  calls : s.collector.activeDbCalls = s.calls.length
  counters : s.collector.counters = counted s.log
  -- what is idle, is idle for a finisher that waits only if it has been notified
  waiting : ∀ notified, s.finisher = .waiting notified → s.collector.isWorkIdle = true →
    notified = true

variable {s} {s' : State ω γ} {snapshot : Snapshot} {a : Turn ω γ}

section

omit [DecidableEq ω] [DecidableEq γ]

theorem inv_new (registrationId : Option Nat) (requestId : Option String) :
    (new registrationId requestId : State ω γ).Inv where
  work := rfl
  calls := rfl
  counters := rfl
  waiting _ h := by cases h

theorem Inv.isWorkIdle_iff (hi : s.Inv) :
    s.collector.isWorkIdle = true ↔ s.outstanding = [] ∧ s.calls = [] := by
  rw [isWorkIdle, hi.work, hi.calls]
  simp

theorem satAdd_length {α : Type} {l : List α} (a : α) (h : l.length < wordMax) :
    satAdd l.length 1 = (a :: l).length :=
  Nat.min_eq_left h

/-- Who is notified waits no longer than that. -/
theorem notify_waiting {notified : Bool} (h : f.notify = .waiting notified) : notified = true := by
  cases f <;> cases h
  rfl

theorem Inv.scope (hi : s.Inv) {w : ω} (hfits : s.outstanding.length < wordMax) :
    (s.scope w).Inv := by
  unfold State.scope beginWork
  cases hfinal : s.collector.finalized with
  | true => exact ⟨hi.work, hi.calls, hi.counters, hi.waiting⟩
  | false =>
    have hwork : satAdd s.collector.activeWork 1 = (w :: s.outstanding).length := by
      rw [hi.work]
      exact satAdd_length w hfits
    refine ⟨hwork, hi.calls, hi.counters, fun notified _ hidle => ?_⟩
    -- the collector is not idle
    simp [isWorkIdle, hwork] at hidle

theorem Inv.update (hi : s.Inv) (owner : Owner ω) (u : Update) : (s.update owner u).Inv where
  work := hi.work
  calls := hi.calls
  counters := by
    rw [State.update, record, hi.counters]
    rfl
  waiting := hi.waiting

theorem Inv.beginCall (hi : s.Inv) (owner : Owner ω) {call : γ} (operation : String)
    (hfits : s.calls.length < wordMax) : (s.beginCall owner call operation).Inv := by
  have hcalls : satAdd s.collector.activeDbCalls 1 = (call :: s.calls).length := by
    rw [hi.calls]
    exact satAdd_length call hfits
  refine ⟨hi.work, hcalls, ?_, fun notified _ hidle => ?_⟩
  · rw [State.beginCall, beginDatabaseCall, record, hi.counters]
    rfl
  · simp [isWorkIdle, State.beginCall, beginDatabaseCall, hcalls] at hidle

/-- A finisher that does not wait. -/
theorem Inv.goto (hi : s.Inv) (hf : ∀ notified, f ≠ .waiting notified) :
    ({ s with finisher := f }).Inv :=
  ⟨hi.work, hi.calls, hi.counters, fun notified h => absurd h (hf notified)⟩

theorem Inv.check (hi : s.Inv) (notified : Bool) : (s.check notified).Inv := by
  unfold State.check
  split
  · exact ⟨hi.work, hi.calls, hi.counters, nofun⟩
  · rename_i hbusy
    exact ⟨hi.work, hi.calls, hi.counters, fun _ _ hidle => absurd hidle hbusy⟩

end

omit [DecidableEq γ] in
theorem Inv.finish (hi : s.Inv) {w : ω} (hw : w ∈ s.outstanding) : (s.finish w).Inv where
  work := by
    rw [State.finish, List.length_erase_of_mem hw, ← hi.work]
    rfl
  calls := hi.calls
  counters := hi.counters
  waiting _ h _ := notify_waiting h

omit [DecidableEq ω] in
theorem Inv.dropCall (hi : s.Inv) {call : γ} (hc : call ∈ s.calls) : (s.dropCall call).Inv where
  work := hi.work
  calls := by
    rw [State.dropCall, List.length_erase_of_mem hc, ← hi.calls]
    rfl
  counters := hi.counters
  waiting _ h _ := notify_waiting h

/-- What a turn does, with the checks that let it. The steps that only move the finisher on are one
case. -/
inductive Next (s : State ω γ) : Turn ω γ → State ω γ → Prop
  | scope (w : ω) : Next s (.scope w) (s.scope w)
  | finish {w : ω} (h : w ∈ s.outstanding) : Next s (.finish w) (s.finish w)
  | update {owner : Owner ω} (u : Update) (h : s.inScope owner = true) :
      Next s (.update owner u) (s.update owner u)
  | beginCall {owner : Owner ω} {call : γ} (operation : String) (h : s.inScope owner = true) :
      Next s (.beginCall owner call operation) (s.beginCall owner call operation)
  | dropCall {call : γ} (h : call ∈ s.calls) : Next s (.dropCall call) (s.dropCall call)
  | prepare {wallMs : Float} {responseBytes : Option Nat} (h : s.finisher = .idle) :
      Next s (.prepare wallMs responseBytes)
        { s.update .request (.prepared wallMs responseBytes) with finisher := .prepared }
  | check {notified : Bool} (h : s.finisher = .registered notified) :
      Next s .check (s.check notified)
  | goto {a : Turn ω γ} {next : Finisher} (h : ∀ result, s.finisher ≠ .returned result)
      (hwaiting : ∀ notified, next ≠ .waiting notified)
      (hreturned : ∀ result, next ≠ .returned result) : Next s a { s with finisher := next }
  | giveUp (h : s.finisher = .timedOut) : Next s .giveUp s.giveUp

/-- The only case split of `step`. -/
theorem next_of_step (h : s.step a = some s') : s.Next a s' := by
  cases a <;> dsimp only [State.step] at h <;> split at h <;> cases h
  all_goals first
    | exact .scope _ | exact .finish ‹_› | exact .update _ ‹_› | exact .beginCall _ (And.left ‹_›)
    | exact .dropCall ‹_› | exact .prepare ‹_› | exact .check ‹_› | exact .giveUp ‹_›
    | exact .goto (by simp [*]) nofun nofun

theorem Inv.step (hi : s.Inv) (ha : s.Fits a) (h : s.step a = some s') : s'.Inv := by
  cases next_of_step h with
  | scope w => exact hi.scope ha
  | finish hw => exact hi.finish hw
  | update u => exact hi.update _ u
  | beginCall operation => exact hi.beginCall _ operation ha
  | dropCall hc => exact hi.dropCall hc
  | prepare => exact (hi.update .request _).goto nofun
  | check => exact hi.check _
  | goto _ hwaiting => exact hi.goto hwaiting
  | giveUp => exact ⟨hi.work, hi.calls, hi.counters, nofun⟩

/-! ## After the snapshot -/

/-- The finisher has its snapshot: nothing is reserved, and nothing will be. -/
structure Settled (s : State ω γ) (snapshot : Snapshot) : Prop where
  finisher : s.finisher = .returned (.ok snapshot)
  finalized : s.collector.finalized = true
  outstanding : s.outstanding = []

omit [DecidableEq ω] [DecidableEq γ] in
theorem Settled.scope (h : s.Settled snapshot) (w : ω) :
    (s.scope w).Settled snapshot ∧ (s.scope w).log = s.log := by
  unfold State.scope beginWork
  rw [h.finalized]
  exact ⟨⟨h.finisher, h.finalized, h.outstanding⟩, rfl⟩

/-- What follows a snapshot is recorded by no reserved work. -/
theorem Settled.step (hs : s.Settled snapshot) (h : s.step a = some s') :
    s'.Settled snapshot ∧ ∃ later, s'.log = later ++ s.log ∧ ∀ e ∈ later, ∀ w, e.1 ≠ .work w := by
  have hscope : ∀ owner, s.inScope owner = true → ∀ w, owner ≠ .work w := by
    rintro owner hin w rfl
    simp [inScope, hs.outstanding] at hin
  cases next_of_step h with
  | scope w =>
    obtain ⟨hsettled, hlog⟩ := hs.scope w
    exact ⟨hsettled, [], hlog, nofun⟩
  | finish hw =>
    rw [hs.outstanding] at hw
    cases hw
  | @update owner u hin =>
    refine ⟨⟨hs.finisher, hs.finalized, hs.outstanding⟩, [(owner, u)], rfl, fun e he => ?_⟩
    obtain rfl := List.mem_singleton.mp he
    exact hscope owner hin
  | @beginCall owner call operation hin =>
    refine ⟨⟨hs.finisher, hs.finalized, hs.outstanding⟩,
      [(owner, .databaseCall operation s.collector.activeDbCalls)], rfl, fun e he => ?_⟩
    obtain rfl := List.mem_singleton.mp he
    exact hscope owner hin
  | dropCall =>
    refine ⟨⟨?_, hs.finalized, hs.outstanding⟩, [], rfl, nofun⟩
    rw [State.dropCall, hs.finisher]
    rfl
  | prepare hf | check hf | giveUp hf =>
    rw [hs.finisher] at hf
    cases hf
  | goto hf => exact absurd hs.finisher (hf _)

theorem Settled.runs (hs : s.Settled snapshot) (h : Runs s s') :
    s'.Settled snapshot ∧ ∃ later, s'.log = later ++ s.log ∧ ∀ e ∈ later, ∀ w, e.1 ≠ .work w := by
  induction h with
  | refl => exact ⟨hs, [], rfl, nofun⟩
  | tail _ _ hstep ih =>
    obtain ⟨hmid, later, hlog, hlater⟩ := ih
    obtain ⟨hsettled, later', hlog', hlater'⟩ := hmid.step hstep
    refine ⟨hsettled, later' ++ later, by rw [hlog', hlog, List.append_assoc], fun e he => ?_⟩
    obtain he | he := List.mem_append.mp he
    · exact hlater' e he
    · exact hlater e he

theorem notify_returned {result : Except SettlementError Snapshot}
    (h : f.notify = .returned result) : f = .returned result := by
  cases f <;> cases h
  rfl

/-- Only a check of an idle collector returns a snapshot. -/
theorem returned_of_step (h : s.step a = some s') (hbefore : s.finisher ≠ .returned (.ok snapshot))
    (hafter : s'.finisher = .returned (.ok snapshot)) :
    s.collector.isWorkIdle = true ∧ snapshot = s.collector.snapshot ∧ s' = s.takeSnapshot := by
  cases next_of_step h with
  | scope w =>
    unfold State.scope at hafter
    dsimp only at hafter
    split at hafter <;> exact absurd hafter hbefore
  | finish | dropCall => exact absurd (notify_returned hafter) hbefore
  | update | beginCall => exact absurd hafter hbefore
  | check =>
    unfold State.check at hafter ⊢
    split at hafter
    · rename_i hidle
      rw [if_pos hidle]
      cases hafter
      exact ⟨hidle, rfl, rfl⟩
    · cases hafter
  | prepare | giveUp => cases hafter
  | goto _ _ hreturned => exact absurd hafter (hreturned _)

theorem Inv.runs {registrationId : Option Nat} {requestId : Option String}
    (h : Runs (.new registrationId requestId) s) : s.Inv :=
  h.invariant (fun _ _ _ hi ha hstep => hi.step ha hstep) (inv_new registrationId requestId)

end State

open State

/-- A finisher that waits without having been notified waits for work or for a database call. When
it returns a snapshot, no work and no database call was outstanding, all updates up to then are in
the snapshot, and no reserved work makes another one. -/
theorem settled_snapshot_complete {ω γ : Type} [DecidableEq ω] [DecidableEq γ]
    {registrationId : Option Nat} {requestId : Option String} {s : State ω γ}
    (h : Runs (.new registrationId requestId) s) :
    (s.finisher = .waiting false → ¬ (s.outstanding = [] ∧ s.calls = [])) ∧
    ∀ a s' s'' snapshot, s.step a = some s' → s.finisher ≠ .returned (.ok snapshot) →
      s'.finisher = .returned (.ok snapshot) → Runs s' s'' →
      s.outstanding = [] ∧ s.calls = [] ∧ snapshot.counters = counted s.log ∧
      ∃ later, s''.log = later ++ s.log ∧ ∀ e ∈ later, ∀ w, e.1 ≠ .work w := by
  have hi := Inv.runs h
  refine ⟨fun hwaiting hidle => ?_, fun a s' s'' snapshot hstep hbefore hafter h' => ?_⟩
  · cases hi.waiting false hwaiting (hi.isWorkIdle_iff.mpr hidle)
  · obtain ⟨hidle, rfl, rfl⟩ := returned_of_step hstep hbefore hafter
    obtain ⟨houtstanding, hcalls⟩ := hi.isWorkIdle_iff.mp hidle
    have hsettled : s.takeSnapshot.Settled s.collector.snapshot := ⟨rfl, rfl, houtstanding⟩
    exact ⟨houtstanding, hcalls, hi.counters, (hsettled.runs h').2⟩

instance {ω γ : Type} (s : State ω γ) (a : Turn ω γ) : Decidable (s.Fits a) :=
  match a with
  | .scope _ => inferInstanceAs (Decidable (s.outstanding.length < wordMax))
  | .beginCall .. => inferInstanceAs (Decidable (s.calls.length < wordMax))
  | .finish _ | .update .. | .dropCall _ | .prepare .. | .register | .check | .wake | .timeout
  | .giveUp => .isTrue trivial

def Finisher.snapshot? : Finisher → Option Snapshot
  | .returned (.ok snapshot) => some snapshot
  | _ => none

theorem Finisher.of_snapshot? {snapshot : Snapshot}
    (h : f.snapshot? = some snapshot) : f = .returned (.ok snapshot) := by
  unfold Finisher.snapshot? at h
  split at h
  · cases h
    rfl
  · cases h

namespace Sample

/-- A piece of work makes a database call and records bytes while the finisher waits. -/
def settling : List (Turn Nat Nat) :=
  [.scope 1, .prepare 1 none, .register, .check, .beginCall (.work 1) 7 "read",
    .update (.work 1) (.counter .httpRequestBytesTotal 5), .dropCall 7, .wake, .register,
    .finish 1]

/-- The finisher gets its snapshot. -/
def settled : List (Turn Nat Nat) := [.prepare 1 none, .register, .check]

/-- Work is refused, and polled by the request. -/
def late : List (Turn Nat Nat) :=
  [.scope 1, .update (.refused 1) (.counter .httpRequestBytesTotal 5)]

/-- The log grows by the update of the refused work. -/
def refusedAfter : List (Owner Nat × Update) → List (Owner Nat × Update) → Bool
  | [(.request, .prepared n none)],
      [(.refused i, .counter .httpRequestBytesTotal k), (.request, .prepared m none)] =>
    i = 1 ∧ k = 5 ∧ m = n
  | _, _ => false

end Sample

theorem settled_snapshot_complete_waiting :
    ∃ (s s' : State Nat Nat) (snapshot : Snapshot), Runs (.new none none) s ∧
      s.step .check = some s' ∧ s'.finisher = .returned (.ok snapshot) ∧
      snapshot.counters.requestBytes = 5 ∧ snapshot.counters.dbCalls = 1 ∧
      s.outstanding = [] ∧ s.calls = [] := by
  have hrun : (Run.script State.step Fits (.new none none) Sample.settling).any (fun s =>
      s.finisher.snapshot?.isNone && (s.step .check).any fun s' =>
        s'.finisher.snapshot?.any fun snapshot =>
          snapshot.counters.requestBytes = 5 ∧ snapshot.counters.dbCalls = 1) = true := by
    decide +kernel
  obtain ⟨s, hruns, hcheck⟩ := Run.ofScript hrun
  obtain ⟨hbefore, hcheck⟩ := Bool.and_eq_true_iff.mp hcheck
  obtain ⟨s', hstep, hafter⟩ := (any_eq_true _ _).mp hcheck
  obtain ⟨snapshot, hsnapshot, hcounters⟩ := (any_eq_true _ _).mp hafter
  obtain ⟨hbytes, hcalls⟩ := of_decide_eq_true hcounters
  have hne : s.finisher ≠ .returned (.ok snapshot) := fun h => by
    rw [h] at hbefore
    cases hbefore
  have hreturned := Finisher.of_snapshot? hsnapshot
  obtain ⟨hwork, hcall, -⟩ :=
    (settled_snapshot_complete hruns).2 .check s' s' snapshot hstep hne hreturned .refl
  exact ⟨s, s', snapshot, hruns, hstep, hreturned, hbytes, hcalls, hwork, hcall⟩

/-- Work that is refused after the snapshot updates the collector when the request polls it: the
entry of the log is the refused work's. -/
theorem refused_work_updates :
    ∃ (s s' : State Nat Nat) (snapshot : Snapshot), Runs (.new none none) s ∧
      s.finisher = .returned (.ok snapshot) ∧ s.outstanding = [] ∧ s.refused = [] ∧
      Runs s s' ∧ s'.refused = [1] ∧
      s'.log = (.refused 1, .counter .httpRequestBytesTotal 5) :: s.log ∧
      snapshot.counters.requestBytes = 0 ∧ s'.collector.counters.requestBytes = 5 := by
  have hrun : (Run.script State.step Fits (.new none none) Sample.settled).any (fun s =>
      decide (s.outstanding = [] ∧ s.refused = []) &&
      (s.finisher.snapshot?.any fun snapshot => snapshot.counters.requestBytes = 0) &&
      (Run.script State.step Fits s Sample.late).any fun s' =>
        decide (s'.refused = [1] ∧ s'.collector.counters.requestBytes = 5) &&
        Sample.refusedAfter s.log s'.log) = true := by
    decide +kernel
  obtain ⟨s, hs, hafter⟩ := Run.ofScript hrun
  obtain ⟨hbefore, hlate⟩ := Bool.and_eq_true_iff.mp hafter
  obtain ⟨hnone, hsnapshot⟩ := Bool.and_eq_true_iff.mp hbefore
  obtain ⟨houtstanding, hrefused⟩ := of_decide_eq_true hnone
  obtain ⟨snapshot, hreturned, hzero⟩ := (any_eq_true _ _).mp hsnapshot
  obtain ⟨s', hs', hend⟩ := Run.ofScript hlate
  obtain ⟨hend, hlogs⟩ := Bool.and_eq_true_iff.mp hend
  obtain ⟨hone, hfive⟩ := of_decide_eq_true hend
  have hlog : s'.log = (.refused 1, .counter .httpRequestBytesTotal 5) :: s.log := by
    unfold Sample.refusedAfter at hlogs
    split at hlogs
    · rename_i hbefore hafter
      obtain ⟨rfl, rfl, rfl⟩ := of_decide_eq_true hlogs
      rw [hbefore, hafter]
    · cases hlogs
  exact ⟨s, s', snapshot, hs, Finisher.of_snapshot? hreturned, houtstanding, hrefused, hs', hone,
    hlog, of_decide_eq_true hzero, hfive⟩

end AuxCommon.RequestCost
