import AuxCommon.BufferedWrites.Writers

/-!
# Leases of the admission gate

`engine/admission_gate.rs`: every submission holds a lease of the gate, and the append that it sends is
dispatched on the lease. Several leases may dispatch one operation id; they share one entry of
`dispatches`. An append whose lease is dropped before it is finished has no known outcome, and the entry
stays until the admission is confirmed with the fingerprint of the append, or another append of the id
is finished as confirmed.

The lease remembers one dispatch only. `admissions_accounted` says that the entries are those of the
appends that are dispatched or have no known outcome, in every run in which no lease dispatches again
before it has finished, as `append_once` does; `dispatched_twice` is a run where one does.
-/

namespace AuxCommon.BufferedWrites

open Std List OrdMap AdmissionGate Nat

/-! ## The gate and its leases -/

/-- The errors of `AdmissionGate::begin`. -/
inductive BeginError
  | closed
  | full

/-- The arguments of a dispatch. -/
structure Append where
  id : OperationId
  bytes : Nat
  fingerprint : Digest
  deriving DecidableEq

/-- What has become known of the appends, the last first. -/
inductive AppendEvent
  | ended (append : Append)
  | settled (id : OperationId)
  | confirmed (id : OperationId) (fingerprint : Digest)
  deriving DecidableEq

/-- `AdmissionGate` with the leases that live. A lease has the append that is dispatched on it, of which
the code keeps the id. -/
structure GateState where
  closed : Bool := false
  activeMutations : Nat := 0
  submissions : Nat := 0
  dispatches : AdmissionGate := ∅
  leases : OrdMap Nat (Option Append) := ∅
  nextLease : Nat := 0
  log : List AppendEvent := []

inductive GateCall
  | begin_ (limit : Nat)
  | dispatch (lease : Nat) (append : Append) (limit : Nat)
  | finish (lease : Nat) (confirmed : Bool)
  | confirm (id : OperationId) (fingerprint : Digest)
  | dropLease (lease : Nat)
  | dropPermit
  | close

variable (id : OperationId)

namespace GateState

variable (s : GateState)

/-- `AdmissionGate::begin`. -/
def begin_ (limit : Nat) : Except BeginError GateState :=
  if s.closed then .error .closed
  else if limit ≤ s.submissions then .error .full
  else .ok { s with
    submissions := s.submissions + 1
    activeMutations := s.activeMutations + 1
    leases := s.leases.insert s.nextLease none
    nextLease := s.nextLease + 1 }

/-- `AdmissionLease::dispatch`. -/
def dispatch (lease : Nat) (append : Append) (limit : Nat) : GateState :=
  match s.dispatches.dispatch append.id append.bytes limit append.fingerprint with
  | .ok dispatches => { s with dispatches, leases := s.leases.insert lease (some append) }
  | .error _ => s

/-- `AdmissionLease::finish`. -/
def finish (lease : Nat) (confirmed : Bool) : Option Append → GateState
  | none => s
  | some append => { s with
    dispatches := s.dispatches.finish append.id confirmed
    leases := s.leases.insert lease none
    log := if confirmed then .settled append.id :: s.log else s.log }

/-- The drop of an `AdmissionLease`. -/
def dropLease (lease : Nat) : Option Append → GateState
  | none => { s with activeMutations := s.activeMutations - 1, leases := s.leases.erase lease }
  | some append => { s with
    activeMutations := s.activeMutations - 1
    dispatches := s.dispatches.drop append.id
    leases := s.leases.erase lease
    log := .ended append :: s.log }

/-- A call on the gate or on a lease that lives. -/
def step : GateCall → Option GateState
  | .begin_ limit => some ((s.begin_ limit).toOption.getD s)
  | .dispatch lease append limit => s.leases[lease]?.map fun _ => s.dispatch lease append limit
  | .finish lease confirmed => s.leases[lease]?.map (s.finish lease confirmed)
  | .confirm id fingerprint => some { s with
      dispatches := s.dispatches.confirm id fingerprint
      log := .confirmed id fingerprint :: s.log }
  | .dropLease lease => s.leases[lease]?.map (s.dropLease lease)
  | .dropPermit => some { s with submissions := s.submissions - 1 }
  | .close => some { s with closed := true }

/-- The append ended without a known outcome, and neither a confirmation with its fingerprint nor a
confirmed finish of its id came after. -/
def Unresolved (log : List AppendEvent) (append : Append) : Prop :=
  ∃ newer older, log = newer ++ .ended append :: older ∧ .settled append.id ∉ newer ∧
    .confirmed append.id append.fingerprint ∉ newer

/-- A live lease has the id dispatched, or an append of it has no known outcome. -/
def Accounted : Prop :=
  ∃ append : Append, append.id = id ∧
    ((∃ lease : Nat, s.leases[lease]? = some (some append)) ∨ Unresolved s.log append)

/-- The bytes that are counted for an id. -/
def charge : Nat := s.dispatches[id]?.elim 0 (·.bytes)

/-- No lease dispatches again before it has finished. -/
def Single : GateCall → Prop
  | .dispatch lease _ _ => s.leases[lease]? = some none
  | _ => True

end GateState

/-! ## One entry -/

namespace AdmissionGate

variable {g g' : AdmissionGate} {id : OperationId} {fingerprint : Digest}

/-- What a confirmation does to the entry. -/
def confirmEntry (fingerprint : Digest) (d : DispatchState) : Option DispatchState :=
  if d.fingerprint ≠ fingerprint then some d
  else if d.active = 0 then none
  else some { d with unknown := false }

theorem get_confirm (k : OperationId) : (g.confirm id fingerprint)[k]? =
      if k = id then g[id]?.bind (confirmEntry fingerprint) else g[k]? := by
  unfold confirm confirmEntry
  cases h : g[id]? with
  | none => by_cases hk : k = id <;> simp [hk, h]
  | some d =>
    dsimp only [Option.bind_some]
    split_ifs <;> simp_all [get_erase, get_insert]

/-- What a finish does to the entry. -/
def finishEntry (confirmed : Bool) (d : DispatchState) : Option DispatchState :=
  if d.active - 1 = 0 ∧ (d.unknown && !confirmed) = false then none
  else some { d with active := d.active - 1, unknown := d.unknown && !confirmed }

theorem get_finish {confirmed : Bool} (k : OperationId) : (g.finish id confirmed)[k]? =
      if k = id then g[id]?.bind (finishEntry confirmed) else g[k]? := by
  unfold finish finishEntry
  cases h : g[id]? with
  | none => by_cases hk : k = id <;> simp [hk, h]
  | some d =>
    dsimp only [Option.bind_some]
    split_ifs <;> simp_all [get_erase, get_insert]

theorem get_drop (k : OperationId) : (g.drop id)[k]? = if k = id then
      g[id]?.map fun d => { d with active := d.active - 1, unknown := true } else g[k]? := by
  unfold drop
  cases h : g[id]? with
  | none => by_cases hk : k = id <;> simp [hk, h]
  | some d => simp [get_insert]

theorem dispatch_eq_ok {bytes limit : Nat} (h : g.dispatch id bytes limit fingerprint = .ok g') :
    ∃ d, g[id]?.getD ⟨0, false, bytes, fingerprint⟩ = d ∧ d.fingerprint = fingerprint ∧
      g' = g.insert id { d with active := d.active + 1, bytes := max d.bytes bytes } := by
  unfold dispatch at h
  split at h
  · cases h
  · dsimp only at h
    split at h
    · cases h
    · rename_i hsame
      cases h
      exact ⟨_, rfl, not_not.mp hsame, rfl⟩

end AdmissionGate

namespace GateState

theorem unresolved_cons {e : AppendEvent} {log : List AppendEvent} {a : Append} :
    Unresolved (e :: log) a ↔ e = .ended a ∨
      Unresolved log a ∧ e ≠ .settled a.id ∧ e ≠ .confirmed a.id a.fingerprint := by
  constructor
  · rintro ⟨newer, older, heq, hsettled, hconfirmed⟩
    cases newer with
    | nil => exact .inl (cons.inj heq).1
    | cons e' newer =>
      obtain ⟨rfl, rfl⟩ := cons.inj heq
      rw [mem_cons, not_or] at hsettled hconfirmed
      exact .inr ⟨⟨newer, older, rfl, hsettled.2, hconfirmed.2⟩, Ne.symm hsettled.1,
        Ne.symm hconfirmed.1⟩
  · rintro (rfl | ⟨⟨newer, older, rfl, hsettled, hconfirmed⟩, hs, hc⟩)
    · exact ⟨[], log, rfl, not_mem_nil, not_mem_nil⟩
    · refine ⟨e :: newer, older, rfl, ?_, ?_⟩
      · exact not_mem_cons_of_ne_of_not_mem (Ne.symm hs) hsettled
      · exact not_mem_cons_of_ne_of_not_mem (Ne.symm hc) hconfirmed

/-- One for a lease that has the id dispatched. -/
def holds (_ : Nat) (l : Option Append) : Nat := (l.any (·.id = id)).toNat

/-- The number of live leases that have the id dispatched. -/
def holders (leases : OrdMap Nat (Option Append)) (id : OperationId) : Nat :=
  OrdMap.total (holds id) leases

/-- The entry without one that nothing holds. -/
def keep (d : DispatchState) : Option DispatchState :=
  if d.active = 0 ∧ d.unknown = false then none else some d

/-- What the entry of an id, or that there is none, says of its appends. -/
structure Entry (leases : OrdMap Nat (Option Append)) (log : List AppendEvent) (id : OperationId)
    (entry : Option DispatchState) : Prop where
  active : entry.elim 0 (·.active) = holders leases id
  unknown : entry.elim false (·.unknown) = true ↔ ∃ a : Append, a.id = id ∧ Unresolved log a
  needed : ∀ d, entry = some d → 0 < d.active ∨ d.unknown = true
  same : ∀ d, entry = some d → ∀ a : Append, a.id = id →
    (∃ lease : Nat, leases[lease]? = some (some a)) ∨ Unresolved log a → a.fingerprint = d.fingerprint

namespace Entry

variable {leases leases' : OrdMap Nat (Option Append)} {log log' : List AppendEvent}
  {id : OperationId} {entry : Option DispatchState}

theorem kept {d : DispatchState} (hactive : d.active = holders leases id)
    (hunknown : d.unknown = true ↔ ∃ a : Append, a.id = id ∧ Unresolved log a)
    (hsame : ∀ a : Append, a.id = id → (∃ lease : Nat, leases[lease]? = some (some a)) ∨
      Unresolved log a → a.fingerprint = d.fingerprint) :
    Entry leases log id (keep d) := by
  unfold GateState.keep
  split
  · rename_i hnone
    refine ⟨hnone.1.symm.trans hactive, ?_, fun _ h => (by cases h), fun _ h => (by cases h)⟩
    rw [← hunknown, hnone.2]
    rfl
  · rename_i hsome
    refine ⟨hactive, hunknown, fun d' h => ?_, fun d' h => Option.some.inj h ▸ hsame⟩
    cases h
    by_contra hnot
    rw [not_or, pos_iff_ne_zero, not_not, Bool.not_eq_true] at hnot
    exact hsome hnot

/-- Nothing changes for the id. -/
theorem frame (h : Entry leases log id entry) (hholders : holders leases' id = holders leases id)
    (hleases : ∀ (lease : Nat) (a : Append), a.id = id → leases'[lease]? = some (some a) →
      leases[lease]? = some (some a))
    (hlog : ∀ a : Append, a.id = id → (Unresolved log' a ↔ Unresolved log a)) :
    Entry leases' log' id entry where
  active := h.active.trans hholders.symm
  unknown := h.unknown.trans
    ⟨fun ⟨a, ha, hu⟩ => ⟨a, ha, (hlog a ha).mpr hu⟩, fun ⟨a, ha, hu⟩ => ⟨a, ha, (hlog a ha).mp hu⟩⟩
  needed := h.needed
  same d hd a ha hopen := h.same d hd a ha
    (hopen.imp (fun ⟨lease, hl⟩ => ⟨lease, hleases lease a ha hl⟩) (hlog a ha).mp)

end Entry

/-! ## Leases that come and go -/

section Leases

variable {leases leases' : OrdMap Nat (Option Append)} {lease : Nat} {a : Append}

/-- The leases without the dispatch of one of them. -/
structure Released (leases leases' : OrdMap Nat (Option Append)) (a : Append) : Prop where
  holders : ∀ id, GateState.holders leases' id + (decide (a.id = id)).toNat =
    GateState.holders leases id
  sub : ∀ (lease : Nat) (b : Append), leases'[lease]? = some (some b) → leases[lease]? = some (some b)

theorem released_erase (h : leases[lease]? = some (some a)) :
    Released leases (leases.erase lease) a := by
  refine ⟨fun id => ?_, fun lease' b hb => ?_⟩
  · have htotal := total_erase (m := leases) (k := lease) (f := holds id)
    rw [h] at htotal
    exact htotal
  · rw [get_erase] at hb
    split at hb
    · cases hb
    · exact hb

theorem holders_insert (leases : OrdMap Nat (Option Append)) (lease : Nat) (l : Option Append)
    (id : OperationId) :
    holders (leases.insert lease l) id + leases[lease]?.elim 0 (holds id lease) =
      holders leases id + holds id lease l := total_insert

theorem get_insert_none {lease' : Nat} {b : Append}
    (h : (leases.insert lease none)[lease']? = some (some b)) : leases[lease']? = some (some b) := by
  rw [get_insert] at h
  split at h
  · cases h
  · exact h

theorem released_insert (h : leases[lease]? = some (some a)) :
    Released leases (leases.insert lease none) a := by
  refine ⟨fun id => ?_, fun lease' b hb => get_insert_none hb⟩
  have htotal := holders_insert leases lease none id
  rw [h] at htotal
  exact htotal

theorem holders_pos (h : leases[lease]? = some (some a)) : 0 < holders leases a.id := by
  have hle := le_total (f := holds a.id) h
  simp only [holds, Option.any_some, decide_true, Bool.toNat_true] at hle
  exact hle

/-- An append that is dispatched or has no known outcome has an entry. -/
theorem Entry.exists_of_open {log : List AppendEvent} {entry : Option DispatchState}
    (h : Entry leases log a.id entry)
    (hopen : (∃ lease : Nat, leases[lease]? = some (some a)) ∨ Unresolved log a) :
    ∃ d, entry = some d := by
  cases entry with
  | some d => exact ⟨d, rfl⟩
  | none =>
    rcases hopen with ⟨lease, hl⟩ | hu
    · exact absurd h.active (holders_pos hl).ne
    · exact absurd (h.unknown.mpr ⟨a, rfl, hu⟩) Bool.false_ne_true

/-- Another id does not see the release. -/
theorem Entry.other {log log' : List AppendEvent} {id : OperationId} {entry : Option DispatchState}
    (h : Entry leases log id entry) (hr : Released leases leases' a) (hne : id ≠ a.id)
    (hlog : ∀ b : Append, b.id = id → (Unresolved log' b ↔ Unresolved log b)) :
    Entry leases' log' id entry := by
  refine h.frame ?_ (fun lease b _ hb => hr.sub lease b hb) hlog
  have hholders := hr.holders id
  rwa [decide_eq_false (Ne.symm hne), Bool.toNat_false] at hholders

/-- The entry after an append has ended, with what is known then. -/
theorem Entry.release {log log' : List AppendEvent} {d : DispatchState} {unknown : Bool}
    (h : Entry leases log a.id (some d)) (hr : Released leases leases' a)
    (hunknown : unknown = true ↔ ∃ b : Append, b.id = a.id ∧ Unresolved log' b)
    (hlog : ∀ b : Append, b.id = a.id → Unresolved log' b → b = a ∨ Unresolved log b)
    (hheld : ∃ lease : Nat, leases[lease]? = some (some a)) :
    Entry leases' log' a.id (keep { d with active := d.active - 1, unknown := unknown }) := by
  refine .kept ?_ hunknown fun b hb hopen => h.same d rfl b hb ?_
  · have hholders := hr.holders a.id
    have hactive : d.active = holders leases a.id := h.active
    rw [decide_eq_true rfl, Bool.toNat_true] at hholders
    change d.active - 1 = _
    omega
  · rcases hopen with ⟨lease, hl⟩ | hu
    · exact .inl ⟨lease, hr.sub lease b hl⟩
    · rcases hlog b hb hu with rfl | hu
      · exact .inl hheld
      · exact .inr hu

end Leases

/-! ## Runs -/

structure Inv (s : GateState) : Prop where
  fresh : ∀ lease, s.nextLease ≤ lease → s.leases[lease]? = none
  mutations : s.activeMutations = s.leases.toList.length
  entry : ∀ id, Entry s.leases s.log id s.dispatches[id]?

theorem length_insert (leases : OrdMap Nat (Option Append)) (lease : Nat) (l : Option Append) :
    (leases.insert lease l).toList.length + leases[lease]?.elim 0 (fun _ => 1) =
      leases.toList.length + 1 := by
  have htotal := total_insert (m := leases) (k := lease) (v := l) (f := fun _ _ => 1)
  simpa [total] using htotal

variable {l : Option Append}

theorem length_erase {leases : OrdMap Nat (Option Append)} {lease : Nat}
    (h : leases[lease]? = some l) : (leases.erase lease).toList.length + 1 = leases.toList.length := by
  have htotal := total_erase (m := leases) (k := lease) (f := fun _ _ => 1)
  rw [h] at htotal
  simpa [total] using htotal

namespace Inv

variable {s s' : GateState} {lease : Nat} {a : Append}

theorem new : Inv {} where
  fresh _ _ := by simp
  mutations := by simp
  entry id := by
    have hnone : ¬ ∃ a : Append, a.id = id ∧ Unresolved [] a := by
      rintro ⟨a, -, newer, older, heq, -⟩
      simp at heq
    refine ⟨by simp [holders], by simpa using hnone, ?_, ?_⟩ <;> intro d hd <;> simp at hd

/-- A change of nothing but the dispatches, the log and one lease that lives. -/
theorem update (hi : s.Inv) {dispatches : AdmissionGate} {l l' : Option Append}
    {log : List AppendEvent} (hl : s.leases[lease]? = some l)
    (hentry : ∀ id, Entry (s.leases.insert lease l') log id dispatches[id]?) :
    Inv { s with dispatches := dispatches, leases := s.leases.insert lease l', log := log } where
  fresh lease' h := by
    have hne : lease' ≠ lease := by
      rintro rfl
      rw [hi.fresh lease' h] at hl
      cases hl
    rw [get_insert, if_neg hne]
    exact hi.fresh lease' h
  mutations := by
    have hlength := length_insert s.leases lease l'
    rw [hl] at hlength
    exact hi.mutations.trans (succ.inj hlength).symm
  entry := hentry

theorem begin_ (hi : s.Inv) {limit : Nat} (h : s.begin_ limit = .ok s') : s'.Inv := by
  unfold GateState.begin_ at h
  split at h
  · cases h
  · split at h
    · cases h
    · cases h
      have hnone := hi.fresh s.nextLease le_rfl
      refine ⟨fun lease hle => ?_, ?_, fun id => (hi.entry id).frame ?_ ?_ fun _ _ => Iff.rfl⟩
      · rw [get_insert, if_neg (ne_of_gt hle)]
        exact hi.fresh lease (le_of_succ_le hle)
      · have hlength := length_insert s.leases s.nextLease none
        rw [hnone] at hlength
        exact (congrArg (· + 1) hi.mutations).trans hlength.symm
      · have hholders := holders_insert s.leases s.nextLease none id
        rw [hnone] at hholders
        exact hholders
      · exact fun lease a _ => get_insert_none

theorem dispatch (hi : s.Inv) (hfree : s.leases[lease]? = some none) (limit : Nat) :
    (s.dispatch lease a limit).Inv := by
  unfold GateState.dispatch
  split
  · rename_i g hg
    obtain ⟨d, hd, hfingerprint, rfl⟩ := dispatch_eq_ok hg
    refine hi.update hfree fun id => ?_
    have hholders := holders_insert s.leases lease (some a) id
    rw [hfree] at hholders
    have hentry := hi.entry id
    have hold : ∀ (lease' : Nat) (b : Append),
        (s.leases.insert lease (some a))[lease']? = some (some b) →
          b = a ∨ s.leases[lease']? = some (some b) := by
      intro lease' b hb
      rw [get_insert] at hb
      split at hb
      · exact .inl (Option.some.inj (Option.some.inj hb)).symm
      · exact .inr hb
    rw [get_insert]
    by_cases hid : id = a.id
    · subst hid
      rw [if_pos rfl]
      have hactive : d.active = s.dispatches[a.id]?.elim 0 (·.active) := by
        rw [← hd]
        cases s.dispatches[a.id]? <;> rfl
      have hunknown : d.unknown = s.dispatches[a.id]?.elim false (·.unknown) := by
        rw [← hd]
        cases s.dispatches[a.id]? <;> rfl
      have hone : holds a.id lease (some a) = 1 := by simp [holds]
      -- an entry with a lease is kept
      have hkeep : keep { d with active := d.active + 1, bytes := max d.bytes a.bytes } =
          some { d with active := d.active + 1, bytes := max d.bytes a.bytes } := if_neg (by simp)
      rw [← hkeep]
      refine .kept ?_ (by rw [hunknown]; exact hentry.unknown) fun b hb hopen => ?_
      · change d.active + 1 = _
        rw [hactive, hentry.active, ← hone]
        exact hholders.symm
      · have hcases : b = a ∨ (∃ lease : Nat, s.leases[lease]? = some (some b)) ∨
            Unresolved s.log b := by
          rcases hopen with ⟨lease', hl⟩ | hu
          · exact (hold lease' b hl).imp id fun h => .inl ⟨lease', h⟩
          · exact .inr (.inr hu)
        rcases hcases with rfl | hcases
        · exact hfingerprint.symm
        · rw [← hb] at hentry hd
          obtain ⟨d', hd'⟩ := hentry.exists_of_open hcases
          rw [hd', Option.getD_some] at hd
          subst hd
          exact hentry.same d' hd' b rfl hcases
    · rw [if_neg hid]
      have hzero : holds id lease (some a) = 0 := by simp [holds, Ne.symm hid]
      rw [hzero] at hholders
      refine hentry.frame hholders (fun lease' b hb hl => ?_) fun _ _ => Iff.rfl
      exact (hold lease' b hl).resolve_left fun heq => hid (hb ▸ heq ▸ rfl)
  · exact hi

theorem finish (hi : s.Inv) (hl : s.leases[lease]? = some l) (confirmed : Bool) :
    (s.finish lease confirmed l).Inv := by
  cases l with
  | none => exact hi
  | some a =>
    have hr := released_insert hl
    refine hi.update hl fun id => ?_
    have hentry := hi.entry id
    rw [get_finish]
    by_cases hid : id = a.id
    · subst hid
      rw [if_pos rfl]
      obtain ⟨d, hd⟩ := hentry.exists_of_open (.inl ⟨lease, hl⟩)
      rw [hd] at hentry ⊢
      change Entry _ _ _ (keep { d with
        active := d.active - 1, unknown := d.unknown && !confirmed })
      refine hentry.release hr ?_ (fun b hb hu => .inr ?_) ⟨lease, hl⟩
      · cases confirmed with
        | false => simpa using hentry.unknown
        | true =>
          rw [Bool.not_true, Bool.and_false, if_pos rfl]
          refine ⟨fun h => (by cases h), ?_⟩
          rintro ⟨b, hb, hu⟩
          rw [unresolved_cons, hb] at hu
          simp at hu
      · cases confirmed with
        | false => exact hu
        | true => exact ((unresolved_cons.mp hu).resolve_left (by simp)).1
    · rw [if_neg hid]
      refine hentry.other hr hid fun b hb => ?_
      cases confirmed with
      | false => exact Iff.rfl
      | true =>
        rw [if_pos rfl, unresolved_cons, hb]
        simp [Ne.symm hid]

theorem confirm (hi : s.Inv) (id : OperationId) (fingerprint : Digest) : Inv { s with
      dispatches := s.dispatches.confirm id fingerprint
      log := .confirmed id fingerprint :: s.log } where
  fresh := hi.fresh
  mutations := hi.mutations
  entry k := by
    have hentry := hi.entry k
    rw [get_confirm]
    by_cases hk : k = id
    · subst hk
      rw [if_pos rfl]
      cases hd : s.dispatches[k]? with
      | none =>
        rw [hd] at hentry
        refine ⟨hentry.active, ?_, fun _ h => (by cases h), fun _ h => (by cases h)⟩
        refine hentry.unknown.trans ⟨fun ⟨b, hb, hu⟩ => ?_, fun ⟨b, hb, hu⟩ => ?_⟩
        · subst hb
          obtain ⟨d, hd⟩ := hentry.exists_of_open (.inr hu)
          cases hd
        · exact ⟨b, hb, ((unresolved_cons.mp hu).resolve_left (by simp)).1⟩
      | some d =>
        rw [hd] at hentry
        have hsame := hentry.same d rfl
        rw [Option.bind_some, confirmEntry]
        by_cases hmatch : d.fingerprint = fingerprint
        · subst hmatch
          -- every append without a known outcome has this fingerprint
          have hnone : ∀ b : Append, b.id = k →
              ¬Unresolved (.confirmed k d.fingerprint :: s.log) b := by
            intro b hb hu
            obtain ⟨hu, -, hne⟩ := (unresolved_cons.mp hu).resolve_left (by simp)
            rw [hb, hsame b hb (.inr hu)] at hne
            exact hne rfl
          have hkeep : (if d.fingerprint ≠ d.fingerprint then some d
              else if d.active = 0 then none else some { d with unknown := false }) =
              keep { d with unknown := false } := by
            rw [if_neg (not_not.mpr rfl)]
            simp [keep]
          rw [hkeep]
          refine .kept hentry.active ⟨fun h => (by cases h), fun ⟨b, hb, hu⟩ => ?_⟩
            fun b hb hopen => ?_
          · exact absurd hu (hnone b hb)
          · exact hsame b hb (.inl (hopen.resolve_right (hnone b hb)))
        · rw [if_pos hmatch]
          refine ⟨hentry.active, hentry.unknown.trans ?_, hentry.needed, fun d' hd' b hb hopen => ?_⟩
          · refine exists_congr fun b => and_congr_right fun hb => ?_
            rw [unresolved_cons, hb]
            refine ⟨fun hu => .inr ⟨hu, by simp, fun heq => ?_⟩, fun hu => (hu.resolve_left (by simp)).1⟩
            rw [AppendEvent.confirmed.injEq, hsame b hb (.inr hu)] at heq
            exact hmatch heq.2.symm
          · cases hd'
            exact hsame b hb
              (hopen.imp id fun hu => ((unresolved_cons.mp hu).resolve_left (by simp)).1)
    · rw [if_neg hk]
      refine hentry.frame rfl (fun _ _ _ h => h) fun b hb => ?_
      rw [unresolved_cons, hb]
      simp [Ne.symm hk]

theorem dropLease (hi : s.Inv) (hl : s.leases[lease]? = some l) : (s.dropLease lease l).Inv := by
  have hfresh : ∀ lease', s.nextLease ≤ lease' → (s.leases.erase lease)[lease']? = none := by
    intro lease' hle
    rw [get_erase, hi.fresh lease' hle, ite_self]
  have hmutations : s.activeMutations - 1 = (s.leases.erase lease).toList.length := by
    have hlength := length_erase hl
    have := hi.mutations
    omega
  cases l with
  | none =>
    refine ⟨hfresh, hmutations, fun id => (hi.entry id).frame ?_ (fun lease' b _ hb => ?_)
      fun _ _ => Iff.rfl⟩
    · have htotal := total_erase (m := s.leases) (k := lease) (f := holds id)
      rw [hl] at htotal
      exact htotal
    · change (s.leases.erase lease)[lease']? = _ at hb
      rw [get_erase] at hb
      split at hb
      · cases hb
      · exact hb
  | some a =>
    have hr := released_erase hl
    refine ⟨hfresh, hmutations, fun id => ?_⟩
    have hentry := hi.entry id
    change Entry (s.leases.erase lease) (.ended a :: s.log) id (s.dispatches.drop a.id)[id]?
    rw [get_drop]
    by_cases hid : id = a.id
    · subst hid
      obtain ⟨d, hd⟩ := hentry.exists_of_open (.inl ⟨lease, hl⟩)
      rw [if_pos rfl, hd, Option.map_some]
      rw [hd] at hentry
      have hkeep : keep { d with active := d.active - 1, unknown := true } =
          some { d with active := d.active - 1, unknown := true } := if_neg (by simp)
      rw [← hkeep]
      refine hentry.release hr ⟨fun _ => ⟨a, rfl, unresolved_cons.mpr (.inl rfl)⟩, fun _ => rfl⟩
        (fun b _ hu => ?_) ⟨lease, hl⟩
      exact (unresolved_cons.mp hu).imp (fun h => (AppendEvent.ended.inj h).symm) (·.1)
    · rw [if_neg hid]
      refine hentry.other hr hid fun b hb => ?_
      rw [unresolved_cons]
      have hne : a ≠ b := fun heq => hid (hb ▸ heq ▸ rfl)
      simp [hne]

theorem step (hi : s.Inv) {c : GateCall} (hok : s.Single c) (h : s.step c = some s') : s'.Inv := by
  cases c with
  | begin_ limit =>
    cases h
    cases hb : s.begin_ limit with
    | ok s₁ => exact hi.begin_ hb
    | error e => exact hi
  | dispatch lease a limit =>
    obtain ⟨l, hl, rfl⟩ := Option.map_eq_some_iff.mp h
    exact hi.dispatch hok limit
  | finish lease confirmed =>
    obtain ⟨l, hl, rfl⟩ := Option.map_eq_some_iff.mp h
    exact hi.finish hl confirmed
  | confirm id fingerprint =>
    cases h
    exact hi.confirm id fingerprint
  | dropLease lease =>
    obtain ⟨l, hl, rfl⟩ := Option.map_eq_some_iff.mp h
    exact hi.dropLease hl
  | dropPermit =>
    cases h
    exact ⟨hi.fresh, hi.mutations, hi.entry⟩
  | close =>
    cases h
    exact ⟨hi.fresh, hi.mutations, hi.entry⟩

theorem contains_iff (hi : s.Inv) (id : OperationId) : s.dispatches.contains id ↔ s.Accounted id := by
  have hentry := hi.entry id
  rw [ExtTreeMap.contains_eq_isSome_getElem?, Option.isSome_iff_exists]
  constructor
  · rintro ⟨d, hd⟩
    rw [hd] at hentry
    rcases hentry.needed d rfl with hpos | hunknown
    · have hholders : holders s.leases id ≠ 0 := hentry.active ▸ hpos.ne'
      rw [holders, ne_eq, total_eq_zero] at hholders
      push Not at hholders
      obtain ⟨lease, l, hl, hone⟩ := hholders
      cases l with
      | none => exact absurd rfl hone
      | some a =>
        refine ⟨a, ?_, .inl ⟨lease, hl⟩⟩
        by_contra hne
        exact hone (by simp [holds, hne])
    · obtain ⟨a, ha, hu⟩ := hentry.unknown.mp hunknown
      exact ⟨a, ha, .inr hu⟩
  · rintro ⟨a, rfl, hopen⟩
    exact hentry.exists_of_open hopen

end Inv

/-! ## Charges -/

theorem foldl_pair (l : List (OperationId × DispatchState)) (x y : Nat) :
    l.foldl (fun sum e => (satAdd sum.1 1, satAdd sum.2 e.2.bytes)) (x, y) =
      ((l.map fun _ => 1).foldl satAdd x, (l.map (·.2.bytes)).foldl satAdd y) := by
  induction l generalizing x y with
  | nil => rfl
  | cons e l ih => exact ih ..

/-- `pending_capacity` counts every id once. -/
theorem pendingCapacity_eq (s : GateState) (exclude : Option OperationId) :
    ∃ ids : List OperationId, ids.Nodup ∧
      (∀ id, id ∈ ids ↔ s.dispatches.contains id ∧ some id ≠ exclude) ∧
      s.dispatches.pendingCapacity exclude =
        (min ids.length wordMax, min (ids.map s.charge).sum wordMax) := by
  refine ⟨(s.dispatches.toList.filter fun e => some e.1 ≠ exclude).map (·.1), ?_, fun id => ?_, ?_⟩
  · exact nodup_keys.sublist (filter_sublist.map _)
  · rw [ExtTreeMap.contains_eq_isSome_getElem?, Option.isSome_iff_exists, mem_map]
    constructor
    · rintro ⟨e, he, rfl⟩
      obtain ⟨he, hne⟩ := mem_filter.mp he
      exact ⟨⟨e.2, mem_toList.mp he⟩, of_decide_eq_true hne⟩
    · rintro ⟨⟨d, hd⟩, hne⟩
      exact ⟨(id, d), mem_filter.mpr ⟨mem_toList.mpr hd, decide_eq_true hne⟩, rfl⟩
  · have hcharge : ∀ e ∈ s.dispatches.toList.filter fun e => some e.1 ≠ exclude,
        s.charge e.1 = e.2.bytes := by
      intro e he
      rw [charge, mem_toList.mp (mem_filter.mp he).1]
      rfl
    have hmap : ((s.dispatches.toList.filter fun e => some e.1 ≠ exclude).map (·.1)).map s.charge =
        (s.dispatches.toList.filter fun e => some e.1 ≠ exclude).map (·.2.bytes) := by
      rw [map_map]
      exact map_congr_left hcharge
    rw [pendingCapacity, foldl_pair, foldl_satAdd _ _ (zero_le _), foldl_satAdd _ _ (zero_le _),
      zero_add, zero_add, length_map, hmap, map_const', sum_replicate_nat, mul_one]

/-- No entry that stays has fewer bytes. -/
def Grows (g g' : AdmissionGate) : Prop :=
  ∀ (id : OperationId) d d', g[id]? = some d → g'[id]? = some d' → d.bytes ≤ d'.bytes

variable (g : AdmissionGate)

theorem Grows.refl : Grows g g := by
  intro id d d' hd hd'
  cases hd.symm.trans hd'
  exact le_rfl

/-- A change of one entry that keeps its bytes. -/
theorem Grows.of_bind {g g' : AdmissionGate} {id : OperationId}
    {f : DispatchState → Option DispatchState} (hf : ∀ d d', f d = some d' → d.bytes ≤ d'.bytes)
    (h : ∀ k, g'[k]? = if k = id then g[id]?.bind f else g[k]?) : Grows g g' := by
  intro k d d' hd hd'
  rw [h] at hd'
  split at hd'
  · rename_i hk
    subst hk
    rw [hd] at hd'
    exact hf d d' hd'
  · exact Grows.refl g k d d' hd hd'

theorem grows_confirm (id : OperationId) (fingerprint : Digest) :
    Grows g (g.confirm id fingerprint) := by
  refine .of_bind (fun d d' h => ?_) get_confirm
  unfold confirmEntry at h
  split_ifs at h <;> cases h <;> exact le_rfl

theorem grows_finish (id : OperationId) (confirmed : Bool) : Grows g (g.finish id confirmed) := by
  refine .of_bind (fun d d' h => ?_) get_finish
  unfold finishEntry at h
  split_ifs at h
  cases h
  exact le_rfl

theorem grows_drop (id : OperationId) : Grows g (g.drop id) := by
  refine .of_bind (f := fun d => some { d with active := d.active - 1, unknown := true })
    (fun d d' h => ?_) fun k => (get_drop k).trans (by rw [Option.map_eq_bind]; rfl)
  cases h
  exact le_rfl

theorem dispatch_bytes {g g' : AdmissionGate} {a : Append} {limit : Nat}
    (h : g.dispatch a.id a.bytes limit a.fingerprint = .ok g') :
    Grows g g' ∧ ∃ d, g'[a.id]? = some d ∧ a.bytes ≤ d.bytes := by
  obtain ⟨d₀, hd₀, -, rfl⟩ := dispatch_eq_ok h
  refine ⟨fun k d d' hd hd' => ?_, _, get_insert_self, le_max_right _ _⟩
  rw [get_insert] at hd'
  split at hd'
  · rename_i hk
    subst hk
    rw [hd, Option.getD_some] at hd₀
    subst hd₀
    cases hd'
    exact le_max_left _ _
  · exact Grows.refl g k d d' hd hd'

theorem step_grows {s s' : GateState} {c : GateCall} (h : s.step c = some s') :
    Grows s.dispatches s'.dispatches := by
  cases c with
  | begin_ limit =>
    cases h
    unfold GateState.begin_
    split
    · exact .refl _
    · split <;> exact .refl _
  | dispatch lease a limit =>
    obtain ⟨l, hl, rfl⟩ := Option.map_eq_some_iff.mp h
    unfold GateState.dispatch
    split
    · rename_i g hg
      exact (dispatch_bytes hg).1
    · exact .refl _
  | finish lease confirmed =>
    obtain ⟨l, hl, rfl⟩ := Option.map_eq_some_iff.mp h
    cases l with
    | none => exact .refl _
    | some a => exact grows_finish _ _ _
  | confirm id fingerprint =>
    cases h
    exact grows_confirm _ _ _
  | dropLease lease =>
    obtain ⟨l, hl, rfl⟩ := Option.map_eq_some_iff.mp h
    cases l with
    | none => exact .refl _
    | some a => exact grows_drop _ _
  | dropPermit => cases h; exact .refl _
  | close => cases h; exact .refl _

/-- As long as the id of a dispatch stays in the gate, the bytes of the dispatch are counted. -/
theorem charge_of_dispatch {s s₁ s' : GateState} {lease limit : Nat} {a : Append}
    (hfree : s.leases[lease]? = some none) (h : s.step (.dispatch lease a limit) = some s₁)
    (hsent : s₁.leases[lease]? = some (some a))
    (hrun : Run (fun s c s' => s.step c = some s') (fun t _ => t.dispatches.contains a.id) s₁ s')
    (hstays : s'.dispatches.contains a.id) : a.bytes ≤ s'.charge a.id := by
  have hfirst : ∃ d, s₁.dispatches[a.id]? = some d ∧ a.bytes ≤ d.bytes := by
    obtain ⟨l, hl, rfl⟩ := Option.map_eq_some_iff.mp h
    unfold GateState.dispatch at hsent ⊢
    split at hsent
    · rename_i g hg
      exact (dispatch_bytes hg).2
    · rw [hfree] at hsent
      cases hsent
  have hall : ∀ d, s'.dispatches[a.id]? = some d → a.bytes ≤ d.bytes := by
    refine hrun.invariant (I := fun t => ∀ d, t.dispatches[a.id]? = some d → a.bytes ≤ d.bytes)
      (fun t c t' ih hin hst d' hd' => ?_) fun d hd => ?_
    · rw [ExtTreeMap.contains_eq_isSome_getElem?, Option.isSome_iff_exists] at hin
      obtain ⟨d, hd⟩ := hin
      exact (ih d hd).trans (step_grows hst _ d d' hd hd')
    · obtain ⟨d', hd', hle⟩ := hfirst
      cases hd.symm.trans hd'
      exact hle
  rw [ExtTreeMap.contains_eq_isSome_getElem?, Option.isSome_iff_exists] at hstays
  obtain ⟨d, hd⟩ := hstays
  rw [charge, hd]
  exact hall d hd

/-- In every run in which no lease dispatches again before it has finished, the entries are those of
the ids that are accounted for, each counted once and with the bytes of its dispatches, and the active
mutations are the leases that live. -/
theorem admissions_accounted {s : GateState}
    (h : Run (fun s c s' => s.step c = some s') Single {} s) :
    (∀ id, s.dispatches.contains id ↔ s.Accounted id) ∧
    (∀ exclude, ∃ ids : List OperationId, ids.Nodup ∧
      (∀ id, id ∈ ids ↔ s.Accounted id ∧ some id ≠ exclude) ∧
      s.dispatches.pendingCapacity exclude =
        (min ids.length wordMax, min (ids.map s.charge).sum wordMax)) ∧
    (∀ lease a limit s₁ s', s.Single (.dispatch lease a limit) →
      s.step (.dispatch lease a limit) = some s₁ → s₁.leases[lease]? = some (some a) →
      Run (fun s c s' => s.step c = some s') (fun t _ => t.dispatches.contains a.id) s₁ s' →
      s'.dispatches.contains a.id → a.bytes ≤ s'.charge a.id) ∧
    s.activeMutations = s.leases.toList.length := by
  have hi : s.Inv := h.invariant (fun _ _ _ hi hok hst => hi.step hok hst) .new
  refine ⟨hi.contains_iff, fun exclude => ?_, fun _ _ _ _ _ => charge_of_dispatch, hi.mutations⟩
  obtain ⟨ids, hnodup, hmem, heq⟩ := s.pendingCapacity_eq exclude
  exact ⟨ids, hnodup, fun id => by rw [hmem, hi.contains_iff], heq⟩

instance (s : GateState) : ∀ c, Decidable (s.Single c)
  | .dispatch lease _ _ => inferInstanceAs (Decidable (s.leases[lease]? = some none))
  | .begin_ _ | .finish _ _ | .confirm _ _ | .dropLease _ | .dropPermit | .close =>
    inferInstanceAs (Decidable True)

namespace Sample

open BufferedWrites.Sample

def append (bytes : Nat) : Append := ⟨operation 0, bytes, .replicate 32 0⟩

/-- Two leases dispatch one id, and one of them is dropped. -/
def shared : List GateCall :=
  [.begin_ 4, .begin_ 4, .dispatch 0 (append 5) 4, .dispatch 1 (append 3) 4, .dropLease 0]

/-- One lease dispatches twice, and the append is confirmed after the lease. -/
def twice : List GateCall :=
  [.begin_ 4, .dispatch 0 (append 5) 4, .dispatch 0 (append 5) 4, .dropLease 0,
    .confirm (operation 0) (.replicate 32 0)]

/-- The id is gone before it is dispatched again with fewer bytes. -/
def again : List GateCall := [.finish 0 true, .dispatch 0 (append 3) 4]

end Sample

open BufferedWrites.Sample in
theorem admissions_accounted_shared : ∃ s : GateState, s.Accounted (operation 0) ∧
    (∃ ids : List OperationId, operation 0 ∈ ids ∧ ids.Nodup ∧ s.dispatches.pendingCapacity none =
      (min ids.length wordMax, min (ids.map s.charge).sum wordMax)) ∧
    s.activeMutations = s.leases.toList.length ∧ s.activeMutations = 1 := by
  have h : (Run.script step Single {} Sample.shared).any (fun s =>
      s.dispatches.contains (operation 0) && s.activeMutations == 1) = true := by decide +kernel
  obtain ⟨s, hs, h⟩ := Run.ofScript h
  obtain ⟨hin, hone⟩ := Bool.and_eq_true_iff.mp h
  obtain ⟨hiff, hpending, -, hlive⟩ := admissions_accounted hs
  have haccounted := (hiff _).mp hin
  obtain ⟨ids, hnodup, hmem, heq⟩ := hpending none
  exact ⟨s, haccounted, ⟨ids, (hmem _).mpr ⟨haccounted, by simp⟩, hnodup, heq⟩, hlive,
    beq_iff_eq.mp hone⟩

open BufferedWrites.Sample in
/-- A lease that dispatches twice leaves an entry that nothing accounts for. An id that was gone in
between is counted with the bytes of its last dispatch. -/
theorem dispatched_twice :
    (∃ s : GateState, Run (fun s c s' => s.step c = some s') (fun _ _ => True) {} s ∧
      s.dispatches.contains (operation 0) ∧ ¬s.Accounted (operation 0)) ∧
    ∃ s s' : GateState, Run (fun s c s' => s.step c = some s') Single {} s ∧
      Run (fun s c s' => s.step c = some s') Single s s' ∧ s.charge (operation 0) = 5 ∧
      s'.dispatches.contains (operation 0) ∧ s'.charge (operation 0) = 3 := by
  constructor
  · have h : (Run.script step (fun _ _ => True) {} Sample.twice).any (fun s =>
        s.dispatches.contains (operation 0) && s.leases.isEmpty &&
          s.log = [.confirmed (operation 0) (.replicate 32 0), .ended (Sample.append 5)]) = true := by
      decide +kernel
    obtain ⟨s, hs, h⟩ := Run.ofScript h
    simp only [Bool.and_eq_true, decide_eq_true_eq] at h
    obtain ⟨⟨hin, hempty⟩, hlog⟩ := h
    refine ⟨s, hs, hin, ?_⟩
    rintro ⟨a, -, ⟨lease, hl⟩ | hu⟩
    · rw [ExtTreeMap.isEmpty_iff.mp hempty] at hl
      simp at hl
    · rw [hlog, unresolved_cons, unresolved_cons] at hu
      obtain ⟨hu, -, hne⟩ := hu.resolve_left (by simp)
      rcases hu with heq | ⟨⟨newer, older, hnil, -⟩, -⟩
      · cases heq
        exact hne rfl
      · simp at hnil
  · have h : (Run.script step Single {} [.begin_ 4, .dispatch 0 (Sample.append 5) 4]).any
        (fun s => s.charge (operation 0) == 5 && (Run.script step Single s Sample.again).any
          fun s' => s'.dispatches.contains (operation 0) && s'.charge (operation 0) == 3) = true := by
      decide +kernel
    obtain ⟨s, hs, h⟩ := Run.ofScript h
    obtain ⟨hfive, h⟩ := Bool.and_eq_true_iff.mp h
    obtain ⟨s', hs', h⟩ := Run.ofScript h
    obtain ⟨hin, hthree⟩ := Bool.and_eq_true_iff.mp h
    exact ⟨s, s', hs, hs', beq_iff_eq.mp hfive, hin, beq_iff_eq.mp hthree⟩

end GateState

end AuxCommon.BufferedWrites
