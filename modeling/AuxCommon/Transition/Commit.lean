import AuxCommon.Lib.Interference
import AuxCommon.Transition.Wake

/-!
# Committing a transition

`transition/commit.rs`: a commit of unknown outcome is judged by one probe key, and a refused one
is tried once more with a fresh wake bound when only its wake check can have failed it.

`commitTransition_ends` says what a transition that returns has reached, among any other writers: the
store holds the value that the transaction puts under the probe key, or held it when it applied.
-/

namespace AuxCommon

/-- `TransitionConflict`. -/
inductive TransitionConflict
  | leaseConflict | leaseLost
  deriving DecidableEq

def TransitionConflict.error : TransitionConflict → JobSystemError
  | .leaseConflict => .leaseConflict
  | .leaseLost => .leaseLost

/-- `UnknownTransition`. -/
inductive UnknownTransition
  | reached | retry | unresolved
  deriving DecidableEq

/-- `TransitionProbe`. -/
structure TransitionProbe where
  key : StoreKey
  expectedOld : Option StoreValue
  expectedNew : Option StoreValue
  deriving DecidableEq

/-- What the probe key says about a commit of unknown outcome. -/
def TransitionProbe.resolve (probe : TransitionProbe) (visible : Option StoreValue)
    (retryAllowed : Bool) : UnknownTransition :=
  if visible = probe.expectedNew then .reached
  else if visible = probe.expectedOld ∧ retryAllowed = true then .retry
  else .unresolved

/-- `reconcile_unknown`. -/
def reconcileUnknown (probe : TransitionProbe) (retryAllowed : Bool) :
    JobProg UnknownTransition := do
  let visible ← storeGet probe.key
  return probe.resolve visible retryAllowed

/-- The loop of `commit_reconciled`, with the attempts that are left. -/
def commitAttempts (t : StoreTransaction) (probe : TransitionProbe) :
    (left attempt : Nat) → JobProg Bool
  | 0, _ => throw .unknownCommit
  | left + 1, attempt => do
    match ← commitOnce t with
    | .committed => return true
    | .conflict => return false
    | .unknown =>
      match ← reconcileUnknown probe (attempt = 0) with
      | .reached => return true
      | .retry => commitAttempts t probe left (attempt + 1)
      | .unresolved => throw (if attempt = 1 then .unknownCommit else .leaseLost)

/-- `commit_reconciled`. -/
def commitReconciled (t : StoreTransaction) (probe : TransitionProbe) : JobProg Bool :=
  commitAttempts t probe 2 0

/-- `commit_transition`. -/
def commitTransition (sys : JobSystem) (refreshId : Option CommitOperationId) (t : StoreTransaction)
    (probe : TransitionProbe) (conflict : TransitionConflict) : JobProg Unit := do
  if ← commitReconciled t probe then return
  if let some refreshed ← refreshConflictedWake sys refreshId t then
    if ← commitReconciled refreshed probe then return
  throw conflict.error

/-- `commit_record`. -/
def commitRecord (sys : JobSystem) (refreshId : Option CommitOperationId) (t : StoreTransaction)
    (jobId : JobId) (old new : EncodedJob) : JobProg Unit :=
  commitTransition sys refreshId t ⟨.job jobId, some (.job old), some (.job new)⟩ .leaseLost

/-! ## What a transition has reached -/

/-- The transaction writes each key once, and puts a value under this one. -/
structure Puts (t : StoreTransaction) (key : StoreKey) (value : StoreValue) : Prop where
  keys : (t.mutations.map Mutation.key).Nodup
  mem : .put key value ∈ t.mutations

section Ends

open Prog

variable {w w' : JobWorld} {t : StoreTransaction} {key : StoreKey}
  {value : StoreValue} {refreshId : Option CommitOperationId} {old : Option StoreValue} {sys : JobSystem}

/-- A value that was read is the one in the store. -/
theorem storeGet_ends {visible : Option StoreValue}
    (h : Ends (storeGet key) w (.ok visible) w') : w'.contents[key]? = visible := by
  cases h with
  | read hanswers h =>
    obtain ⟨answer, _, hanswer, hnil, rfl⟩ := List.forall₂_cons_left_iff.mp hanswers
    cases List.forall₂_nil_left_iff.mp hnil
    rcases hanswer with rfl | rfl <;> cases h
    rfl

/-- A commit that was decided is an answer of the store. -/
theorem commitOnce_ends {outcome : CommitOutcome} (h : Ends (commitOnce t) w (.ok outcome) w') :
    ∃ seen, t.Answered { w with contents := seen } (.ok outcome) w' := by
  cases h with
  | @commit _ _ _ _ _ seen answer _ hanswer hret =>
    cases answer <;> cases hret
    exact ⟨seen, hanswer⟩

/-- A commit that counts as done has left its value under the probe key, at the last answer or, when
that tells of an earlier attempt, when the attempt applied. -/
theorem commitAttempts_ends (ht : Puts t key value) (left attempt : Nat)
    (h : Ends (commitAttempts t ⟨key, old, some value⟩ left attempt) w (.ok true) w') :
    ∃ contents, w'.Reached contents ∧ contents[key]? = some value := by
  induction left generalizing attempt w with
  | zero => cases h
  | succ left ih =>
    obtain ⟨outcome, sent, hcommit, h⟩ := Ends.of_bind_ok h
    cases outcome with
    | committed =>
      cases h
      obtain ⟨_, hanswer⟩ := commitOnce_ends hcommit
      cases hanswer with
      | committed _ => exact ⟨_, .inl rfl, Transaction.get_apply_of_mem ht.keys ht.mem _⟩
      | replayed happlied =>
        exact ⟨_, .inr ⟨_, happlied, rfl⟩, Transaction.get_apply_of_mem ht.keys ht.mem _⟩
      | refused hanswer => exact absurd rfl hanswer
      | inDoubt hanswer _ => rcases hanswer with h | h <;> cases h
    | conflict => cases h
    | unknown =>
      obtain ⟨resolved, seen, hprobe, h⟩ := Ends.of_bind_ok h
      obtain ⟨visible, _, hget, hresolve⟩ := Ends.of_bind_ok hprobe
      cases hresolve
      unfold TransitionProbe.resolve at h
      split at h
      · -- the probe shows the new value
        rename_i hreached
        split at hreached
        · cases h
          rename_i hnew
          exact ⟨_, .inl rfl, (storeGet_ends hget).trans hnew⟩
        · split at hreached <;> cases hreached
      · exact ih _ h
      · cases h

/-- A refreshed transaction still puts what is not a wake bound. -/
theorem refreshConflictedWake_ends
    {refreshed : StoreTransaction} (ht : Puts t key value) (hkey : key.isWake = false)
    (h : Ends (refreshConflictedWake sys refreshId t) w (.ok (some refreshed)) w') :
    Puts refreshed key value := by
  unfold refreshConflictedWake at h
  split at h
  · cases h
  · rename_i check hcheck
    have hwake : check.key.isWake = true := by
      have := List.find?_some hcheck
      simp only [Bool.and_eq_true] at this
      exact this.1
    obtain ⟨current, _, -, h⟩ := Ends.of_bind_ok h
    split at h
    · cases h
    · obtain ⟨next, _, -, h⟩ := Ends.of_bind_ok h
      obtain ⟨fresh, _, -, h⟩ := Ends.of_bind_ok h
      obtain ⟨id, _, -, h⟩ := Ends.of_bind_ok h
      obtain ⟨transaction, _, hbuilt, h⟩ := Ends.of_bind_ok h
      cases h
      obtain ⟨rfl, hkeys⟩ := JobSystem.checkedTransaction_eq_ok (Ends.of_ret hbuilt).1
      refine ⟨hkeys, List.mem_append_left _ (List.mem_filter.mpr ⟨ht.mem, ?_⟩)⟩
      refine decide_eq_true fun heq => ?_
      rw [← heq] at hwake
      exact Bool.false_ne_true (hkey.symm.trans hwake)

/-- A transition that returns has left its value under the probe key. -/
theorem commitTransition_ends {conflict : TransitionConflict} (ht : Puts t key value)
    (hkey : key.isWake = false)
    (h : Ends (commitTransition sys refreshId t ⟨key, old, some value⟩ conflict) w (.ok ()) w') :
    ∃ contents, w'.Reached contents ∧ contents[key]? = some value := by
  obtain ⟨done, _, hfirst, h⟩ := Ends.of_bind_ok h
  cases done with
  | true =>
    cases h
    exact commitAttempts_ends ht 2 0 hfirst
  | false =>
    obtain ⟨refreshed, _, hrefresh, h⟩ := Ends.of_bind_ok h
    cases refreshed with
    | none => cases h
    | some refreshed =>
      obtain ⟨again, _, hsecond, h⟩ := Ends.of_bind_ok h
      cases again with
      | true =>
        cases h
        exact commitAttempts_ends (refreshConflictedWake_ends ht hkey hrefresh) 2 0 hsecond
      | false => cases h

end Ends

end AuxCommon
