import AuxCommon.Cache.Loader
import AuxCommon.Cache.Publication
import AuxCommon.Lib.System
import Mathlib.Data.Fintype.Basic

/-!
# Reads after a change

`no_stale_read`: a read that begins after a change of its key returns nothing that was fetched
before the change, in every run in which no key is changed while a flight of the key has a fetched
value for its outcome and is still on the table. `stale_read_from_landed_flight` is a run without
this condition: the flight of an old value is joined after the removal.

A change cancels the lease of the load of its key, so a fetch that began before it can neither store
nor return its value: `Inv` has for each fetch that its value is newer than the changes as long as
its load is current. What `Inv` cannot have without the condition is that the outcome of a flight
that has landed stays newer than the changes for as long as it can be joined.

`Move` is what a step of one task leaves as it is for the others, and `Inv.move` reduces every step
to the task that takes it.
-/

namespace AuxCommon.Cache

open List Option Function Nat LinkedMap

/-! ## The property and its condition -/

/-- The outcome that a leader has, with its channel. -/
def Phase.outcome? {K V E : Type} : Phase K V E → Option (Nat × Outcome V E)
  | .leading _ channel (.landed _ outcome) | .leading _ channel (.sending outcome)
  | .leading _ channel (.sent outcome) => some (channel, outcome)
  | _ => none

/-- No change of the list is later than the beginning of the fetch. -/
def Source.After (changes : List Nat) : Source → Prop
  | .caller => True
  | .fetch began => ∀ change ∈ changes, change < began

def OutcomeAfter {V E : Type} (changes : List Nat) : Outcome V E → Prop
  | .ok (_, source) => source.After changes
  | .error _ => True

/-- The outcome is a value, or an absence, that was fetched. -/
def fetchedOutcome {V E : Type} : Outcome V E → Bool
  | .ok (_, .fetch _) => true
  | .ok (_, .caller) | .error _ => false

theorem OutcomeAfter.of_not_fetched {V E : Type} {changes : List Nat} {outcome : Outcome V E}
    (h : ¬ fetchedOutcome outcome = true) : OutcomeAfter changes outcome := by
  unfold fetchedOutcome at h
  split at h
  · exact absurd rfl h
  · trivial
  · trivial

namespace State

variable {τ K V E : Type}

/-- The changes of a key that had returned when the task made its call. -/
def changesBefore (s : State τ K V E) (t : τ) (key : K) : List Nat :=
  (s.changes key).filter (· < s.began t)

/-- No call has returned what was fetched before a change that its call came after. -/
def Consistent (s : State τ K V E) : Prop :=
  ∀ t key outcome, s.phase t = .returned key outcome →
    OutcomeAfter (s.changesBefore t key) outcome

/-- The flight of a channel has a fetched outcome. -/
def Landed (s : State τ K V E) (channel : Nat) : Prop :=
  (∃ t, (s.phase t).outcome?.any (fun r => r.1 = channel && fetchedOutcome r.2) = true) ∨
    ((s.channels[channel]?).bind (·.outcome)).any fetchedOutcome = true

/-- A key is changed only while no flight of it that has a fetched outcome is on the table. -/
def Orderly [DecidableEq K] (s : State τ K V E) : Turn τ K V E → Prop
  | .insert key .. | .remove key => ∀ channel ∈ s.flights.get? key, ¬ s.Landed channel
  | _ => True

/-! ## The invariant -/

/-- The flight of a channel has this outcome. -/
def Settled (s : State τ K V E) (channel : Nat) (outcome : Outcome V E) : Prop :=
  (∃ t, (s.phase t).outcome? = some (channel, outcome)) ∨
    ∃ flight, s.channels[channel]? = some flight ∧ flight.outcome = some outcome

theorem Settled.landed {s : State τ K V E} {channel : Nat} {outcome : Outcome V E}
    (h : s.Settled channel outcome) (hfetched : fetchedOutcome outcome = true) :
    s.Landed channel := by
  obtain ⟨t, ht⟩ | ⟨flight, hf, ho⟩ := h
  · exact .inl ⟨t, by simp [ht, hfetched]⟩
  · exact .inr (by simp [hf, ho, hfetched])

/-- The channel is of a flight of the key. -/
def Keyed (s : State τ K V E) (channel : Nat) (key : K) : Prop :=
  ∃ flight, s.channels[channel]? = some flight ∧ flight.key = key

theorem Keyed.eq {s : State τ K V E} {channel : Nat} {key key' : K} (h : s.Keyed channel key)
    (h' : s.Keyed channel key') : key = key' := by
  obtain ⟨_, hf, rfl⟩ := h
  obtain ⟨_, hf', rfl⟩ := h'
  rw [some.inj (hf.symm.trans hf')]

variable [DecidableEq K]

/-- A load of the key, whose lease is one of those given out. -/
structure LoadOk (nextLease : Nat) (key : K) (load : CacheLoad K (V × Source)) : Prop where
  key : load.key = key
  lease : load.lease < nextLease

/-- While the load of a fetch is current, the fetch is newer than the changes. -/
def StageOk (s : State τ K V E) (t : τ) (key : K) : Stage K V E → Prop
  | .preparing _ | .aborting _ | .aborted => True
  | .prepared load => LoadOk s.inner.nextLease key load
  | .fetching load began | .fetched load _ began => LoadOk s.inner.nextLease key load ∧
    (s.inner.isCurrentLoad key load.lease = true → (Source.fetch began).After (s.changes key))
  | .landed _ outcome | .sending outcome | .sent outcome =>
    OutcomeAfter (s.changesBefore t key) outcome

def PhaseOk (s : State τ K V E) (t : τ) : Phase K V E → Prop
  | .idle | .inspecting _ | .admitting _ _ | .direct _ => True
  | .fetchingDirectly _ began => s.began t ≤ began
  | .leading key channel stage => s.Keyed channel key ∧ s.StageOk t key stage
  | .waiting key channel => s.Keyed channel key ∧
    ∀ outcome, s.Settled channel outcome → OutcomeAfter (s.changesBefore t key) outcome
  | .returned key outcome => OutcomeAfter (s.changesBefore t key) outcome

structure Inv (s : State τ K V E) : Prop where
  entries : ∀ key e, s.inner.entries.get? key = some e → e.value.2.After (s.changes key)
  changes : ∀ key, ∀ change ∈ s.changes key, change < s.time
  began : ∀ t, s.began t ≤ s.time
  flights : ∀ key channel, s.flights.get? key = some channel → s.Keyed channel key ∧
    ∀ outcome, s.Settled channel outcome → OutcomeAfter (s.changes key) outcome
  tasks : ∀ t, s.PhaseOk t (s.phase t)

end State

/-! ## What a step leaves to the others -/

theorem Source.After.subset {l l' : List Nat} {source : Source} (h : source.After l)
    (hl : l' ⊆ l) : source.After l' := by
  cases source with
  | caller => trivial
  | fetch began => exact fun c hc => h c (hl hc)

theorem OutcomeAfter.subset {V E : Type} {l l' : List Nat} {outcome : Outcome V E}
    (h : OutcomeAfter l outcome) (hl : l' ⊆ l) : OutcomeAfter l' outcome := by
  cases outcome with
  | ok r => exact Source.After.subset h hl
  | error _ => trivial

/-- What is newer than all changes is newer than those before a call. -/
theorem OutcomeAfter.before {τ K V E : Type} {s : State τ K V E} {key : K}
    {outcome : Outcome V E} (h : OutcomeAfter (s.changes key) outcome) (t : τ) :
    OutcomeAfter (s.changesBefore t key) outcome :=
  h.subset (filter_subset_self _)

namespace CacheInner

variable {K V : Type} [DecidableEq K] (s : CacheInner K V) (key : K)

theorem inspectEntry_fresh (c : CacheConfig) (now : Instant) (e : CacheEntry V)
    (h : (s.inspectEntry c key now).1 = .fresh e) : s.entries.get? key = some e := by
  unfold inspectEntry at h
  split at h
  · cases h
  · split at h
    · cases h
    · rename_i entry he
      split at h
      · cases h
      · cases h
        exact he

theorem prepareLoad_cached (intent : LoadIntent V) (now : Instant) (value : V)
    (h : (s.prepareLoad key intent now).1 = .cached value) :
    ∃ e, s.entries.get? key = some e ∧ e.value = value := by
  unfold prepareLoad at h
  cases intent with
  | cold =>
    dsimp only at h
    split at h
    · rename_i entry he
      cases h
      rw [get?_toBack] at he
      exact ⟨entry, (filter_eq_some_iff.mp he).1, rfl⟩
    · cases h
  | refresh expected =>
    dsimp only at h
    split at h <;> cases h

theorem publishLoad_current (c : CacheConfig) (load : CacheLoad K V) (value : Option V)
    (now : Instant) (h : (s.publishLoad c load value now).1 ≠ .cancelled) :
    s.isCurrentLoad load.key load.lease = true := by
  unfold publishLoad at h
  split at h
  · exact absurd rfl h
  · rename_i hc
    exact Bool.eq_true_of_not_eq_false hc

end CacheInner

/-- What a step of a task may do to the cache. -/
structure Tame {K V : Type} [DecidableEq K] (changes : K → List Nat)
    (s s' : CacheInner K (V × Source)) : Prop where
  entries : ∀ key e, s'.entries.get? key = some e →
    s.entries.get? key = some e ∨ e.value.2.After (changes key)
  current : ∀ key lease, lease < s.nextLease → s'.isCurrentLoad key lease = true →
    s.isCurrentLoad key lease = true
  nextLease : s.nextLease ≤ s'.nextLease

namespace Tame

variable {K V : Type} [DecidableEq K] {changes : K → List Nat} {s s' : CacheInner K (V × Source)}

theorem of_quieter (h : s.Quieter s') : Tame changes s s' where
  entries key e he := .inl (h.entries key e he)
  current _ _ _ hc := h.current hc
  nextLease := le_of_eq h.nextLease.symm

theorem refl : Tame changes s s := of_quieter (.refl s)

theorem of_writes {key : K} {value : Option (V × Source)} (h : s.Writes key value s')
    (hv : ∀ v, some v = value → v.2.After (changes key)) : Tame changes s s' where
  entries k e he := by
    by_cases hk : k = key
    · subst hk
      exact .inr (hv e.value (h.written e he))
    · exact .inl (h.others k e hk he)
  current k l _ hc := (h.current k l hc).2
  nextLease := le_of_eq h.nextLease.symm

theorem of_startLoad {s₁ : CacheInner K (V × Source)} (h : s.Quieter s₁) (key : K)
    (intent : LoadIntent (V × Source)) : Tame changes s (s₁.startLoad key intent).2 where
  entries k e he := .inl (h.entries k e he)
  current k l hl hc := by
    refine h.current ?_
    rw [← h.nextLease] at hl
    simp only [CacheInner.isCurrentLoad, CacheInner.startLoad, get?_insert] at hc ⊢
    split at hc
    · simp only [any_some, Bool.and_eq_true, decide_eq_true_eq] at hc
      omega
    · exact hc
  nextLease := le_of_lt (lt_succ_of_le (le_of_eq h.nextLease.symm))

end Tame

namespace State

variable {τ K V E : Type} [DecidableEq K] {load : CacheLoad K (V × Source)} {p : Phase K V E}
  {stage : Stage K V E}

/-- What a step of task `t` leaves as it is for the others. -/
structure Move (t : τ) (s s' : State τ K V E) : Prop where
  changes : s'.changes = s.changes
  time : s.time ≤ s'.time
  began : ∀ u, u ≠ t → s'.began u = s.began u
  phase : ∀ u, u ≠ t → s'.phase u = s.phase u
  inner : Tame s.changes s.inner s'.inner
  keyed : ∀ channel key, s.Keyed channel key → s'.Keyed channel key
  settled : ∀ channel outcome, s'.Settled channel outcome → s.Settled channel outcome ∨
    ∃ key, s'.Keyed channel key ∧ OutcomeAfter (s.changes key) outcome
  flights : ∀ key channel, s'.flights.get? key = some channel →
    s.flights.get? key = some channel ∨
      s'.Keyed channel key ∧ ∀ outcome, ¬ s'.Settled channel outcome

namespace Move

variable {t : τ} {s s' : State τ K V E}

/-- A new outcome is newer than the changes of the key of its channel. -/
theorem settled_after (h : s.Move t s') {channel : Nat} {key : K} {outcome : Outcome V E}
    (hk : s.Keyed channel key) (ho : s'.Settled channel outcome) :
    s.Settled channel outcome ∨ OutcomeAfter (s.changes key) outcome := by
  obtain ho | ⟨key', hk', ha⟩ := h.settled channel outcome ho
  · exact .inl ho
  · exact .inr ((h.keyed _ _ hk).eq hk' ▸ ha)

theorem loadOk (h : s.Move t s') {key : K}
    (hl : LoadOk s.inner.nextLease key load) : LoadOk s'.inner.nextLease key load :=
  ⟨hl.key, lt_of_lt_of_le hl.lease h.inner.nextLease⟩

theorem stageOk (h : s.Move t s') {u : τ} (hu : u ≠ t) {key : K}
    (hs : s.StageOk u key stage) : s'.StageOk u key stage := by
  unfold StageOk changesBefore at *
  rw [h.changes, h.began u hu]
  cases stage with
  | preparing | aborting | aborted => trivial
  | prepared load => exact h.loadOk hs
  | fetching load began =>
    exact ⟨h.loadOk hs.1, fun hc => hs.2 (h.inner.current _ _ hs.1.lease hc)⟩
  | fetched load value began =>
    exact ⟨h.loadOk hs.1, fun hc => hs.2 (h.inner.current _ _ hs.1.lease hc)⟩
  | landed | sending | sent => exact hs

theorem phaseOk (h : s.Move t s') {u : τ} (hu : u ≠ t) (hp : s.PhaseOk u p) : s'.PhaseOk u p := by
  have hbefore : ∀ key, s'.changesBefore u key = s.changesBefore u key := fun key => by
    rw [changesBefore, changesBefore, h.changes, h.began u hu]
  cases p with
  | idle | inspecting | admitting | direct => trivial
  | fetchingDirectly key began =>
    rw [PhaseOk, h.began u hu]
    exact hp
  | leading key channel stage => exact ⟨h.keyed _ _ hp.1, h.stageOk hu hp.2⟩
  | waiting key channel =>
    refine ⟨h.keyed _ _ hp.1, fun outcome ho => ?_⟩
    rw [hbefore]
    obtain ho | ha := h.settled_after hp.1 ho
    · exact hp.2 outcome ho
    · exact ha.before u
  | returned key outcome =>
    rw [PhaseOk, hbefore]
    exact hp

end Move

/-- A step of a task keeps the invariant when it keeps it for the task. -/
theorem Inv.move {t : τ} {s s' : State τ K V E} (hi : s.Inv) (h : s.Move t s')
    (hbegan : s'.began t ≤ s'.time) (hp : s'.PhaseOk t (s'.phase t)) : s'.Inv where
  entries key e he := by
    rw [h.changes]
    exact (h.inner.entries key e he).elim (hi.entries key e) id
  changes key c hc := lt_of_lt_of_le (hi.changes key c (h.changes ▸ hc)) h.time
  began u := by
    by_cases hu : u = t
    · exact hu ▸ hbegan
    · exact h.began u hu ▸ le_trans (hi.began u) h.time
  flights key channel hf := by
    rw [h.changes]
    obtain hf | ⟨hk, hno⟩ := h.flights key channel hf
    · obtain ⟨hk, ha⟩ := hi.flights key channel hf
      exact ⟨h.keyed _ _ hk, fun outcome ho => (h.settled_after hk ho).elim (ha outcome) id⟩
    · exact ⟨hk, fun outcome ho => absurd ho (hno outcome)⟩
  tasks u := by
    by_cases hu : u = t
    · exact hu ▸ hp
    · exact h.phase u hu ▸ h.phaseOk hu (hi.tasks u)

/-! ## The steps -/

variable (L : Loader E)

section Steps

variable [DecidableEq τ] {s : State τ K V E} {t : τ} {key : K} {channel : Nat}
  {inner : CacheInner K (V × Source)} {s' : State τ K V E} {outcome : Outcome V E}

omit [DecidableEq K] in
theorem goto_phase_self (p : Phase K V E) : (s.goto t p).phase t = p := update_self ..

omit [DecidableEq K] in
theorem goto_phase_ne {u : τ} (hu : u ≠ t) (p : Phase K V E) :
    (s.goto t p).phase u = s.phase u := update_of_ne hu ..

omit [DecidableEq K] in
theorem Settled.of_goto (h : (s.goto t p).Settled channel outcome) :
    p.outcome? = some (channel, outcome) ∨ s.Settled channel outcome := by
  obtain ⟨u, hu⟩ | h := h
  · by_cases hut : u = t
    · rw [hut, goto_phase_self] at hu
      exact .inl hu
    · rw [goto_phase_ne hut] at hu
      exact .inr (.inl ⟨u, hu⟩)
  · exact .inr (.inr h)

/-- A step that changes the phase of a task and, tamely, the cache. -/
theorem Inv.goto (hi : s.Inv) (hin : Tame s.changes s.inner inner) (waiters : Nat) (p : Phase K V E)
    (hout : ∀ channel outcome, p.outcome? = some (channel, outcome) → s.Settled channel outcome ∨
        ∃ key, s.Keyed channel key ∧ OutcomeAfter (s.changes key) outcome)
    (hp : PhaseOk { s with inner := inner, waiters := waiters, time := s.time + 1 } t p) :
    Inv { { s with inner := inner, waiters := waiters }.goto t p with time := s.time + 1 } := by
  let s₁ : State τ K V E := { s with inner := inner, waiters := waiters, time := s.time + 1 }
  have hsettled : ∀ channel outcome, (s₁.goto t p).Settled channel outcome →
      s.Settled channel outcome ∨
        ∃ key, s.Keyed channel key ∧ OutcomeAfter (s.changes key) outcome :=
    fun channel outcome h => h.of_goto.elim (hout channel outcome) .inl
  have hmove : s.Move t (s₁.goto t p) := ⟨rfl, le_succ _, fun _ _ => rfl,
    fun u hu => goto_phase_ne hu p, hin, fun _ _ h => h, hsettled, fun _ _ h => .inl h⟩
  refine hi.move hmove (le_succ_of_le (hi.began t)) ?_
  rw [goto_phase_self]
  cases p with
  | idle | inspecting | admitting | direct | fetchingDirectly | leading | returned => exact hp
  | waiting key channel => exact ⟨hp.1, fun o ho => hp.2 o (ho.of_goto.elim nofun id)⟩

/-- The same when the leader gets no new outcome. -/
theorem Inv.goto_silent (hi : s.Inv)
    (hin : Tame s.changes s.inner inner) (waiters : Nat) (p : Phase K V E)
    (hout : p.outcome? = none)
    (hp : PhaseOk { s with inner := inner, waiters := waiters, time := s.time + 1 } t p) :
    Inv { { s with inner := inner, waiters := waiters }.goto t p with time := s.time + 1 } :=
  hi.goto hin waiters p (fun _ _ h => by rw [hout] at h; cases h) hp

/-- The same when the leader gets an outcome that is newer than the changes. -/
theorem Inv.goto_landed (hi : s.Inv) (hin : Tame s.changes s.inner inner) (hk : s.Keyed channel key)
    (hout : (Phase.leading key channel stage).outcome? = some (channel, outcome))
    (ha : OutcomeAfter (s.changes key) outcome)
    (hp : OutcomeAfter (s.changesBefore t key) outcome →
      StageOk { s with inner := inner, time := s.time + 1 } t key stage) :
    Inv { { s with inner := inner }.goto t (.leading key channel stage) with
      time := s.time + 1 } := by
  refine hi.goto hin s.waiters _ (fun ch o h => ?_) ⟨hk, hp (ha.before t)⟩
  rw [hout] at h
  cases h
  exact .inr ⟨key, hk, ha⟩

theorem Inv.inspect (hi : s.Inv) (now : Instant) :
    Inv { s.inspect L t key now with time := s.time + 1 } := by
  have hq := s.inner.quieter_inspectEntry key L.config now
  have hfresh : ∀ e, (s.inner.inspectEntry L.config key now).1 = .fresh e →
      s.inner.entries.get? key = some e := s.inner.inspectEntry_fresh key L.config now
  refine hi.goto_silent (.of_quieter hq) s.waiters _ ?_ ?_
  · unfold Loader.inspected
    split
    · rfl
    all_goals split <;> rfl
  · unfold Loader.inspected
    split
    · rename_i e he
      have ha : OutcomeAfter (s.changes key)
          (.ok (some e.value.1, e.value.2) : Outcome V E) := hi.entries key e (hfresh e he)
      exact ha.before t
    all_goals split <;> trivial

theorem Inv.full (hi : s.Inv) :
    Inv { s.goto t (.returned key (.error (L.unavailable .full))) with time := s.time + 1 } :=
  hi.goto_silent .refl s.waiters _ rfl trivial

/-- A new flight has no outcome, since its channel is new. -/
theorem Inv.register (hi : s.Inv) (intent : LoadIntent (V × Source)) :
    Inv { { s with
      flights := s.flights.insert key s.channels.length
      channels := s.channels ++ [Flight.new key] }.goto t
        (.leading key s.channels.length (.preparing intent)) with time := s.time + 1 } := by
  have hnew : (s.channels ++ [Flight.new key])[s.channels.length]? =
      some (Flight.new key : Flight K V E) := List.getElem?_concat_length
  let s₁ : State τ K V E := { s with
    flights := s.flights.insert key s.channels.length
    channels := s.channels ++ [Flight.new key]
    time := s.time + 1 }
  have hkeyed : ∀ ch k, s.Keyed ch k → s₁.Keyed ch k := by
    rintro ch k ⟨f, hf, hk⟩
    exact ⟨f, (List.getElem?_append_left (List.getElem?_eq_some_iff.mp hf).1).trans hf, hk⟩
  have hsettled : ∀ ch o, s₁.Settled ch o → s.Settled ch o := by
    rintro ch o (h | ⟨f, hf, ho⟩)
    · exact .inl h
    · by_cases hlt : ch < s.channels.length
      · exact .inr ⟨f, (List.getElem?_append_left hlt).symm.trans hf, ho⟩
      · rw [show s₁.channels = s.channels ++ [Flight.new key] from rfl,
          List.getElem?_append_right (Nat.le_of_not_lt hlt)] at hf
        obtain rfl := List.mem_singleton.mp (List.mem_of_getElem? hf)
        cases ho
  -- a leader with an outcome has a channel that exists
  have hfresh : ∀ o, ¬ s.Settled s.channels.length o := by
    rintro o (⟨u, hu⟩ | ⟨f, hf, -⟩)
    · have hp := hi.tasks u
      obtain ⟨f, hf⟩ : ∃ f, s.channels[s.channels.length]? = some f := by
        unfold Phase.outcome? at hu
        split at hu
        case h_4 => cases hu
        all_goals
          rename_i heq
          rw [heq] at hp
          cases hu
          obtain ⟨⟨f, hf, -⟩, -⟩ := hp
          exact ⟨f, hf⟩
      simp at hf
    · simp at hf
  have hmove : s.Move t (s₁.goto t (.leading key s.channels.length (.preparing intent))) := by
    refine ⟨rfl, Nat.le_succ _, fun _ _ => rfl, fun u hu => goto_phase_ne hu _, .refl, hkeyed,
      fun ch o h => ?_, fun k ch hf => ?_⟩
    · exact .inl (hsettled ch o (h.of_goto.elim (fun h => by cases h) id))
    · rw [show (s₁.goto t _).flights = s.flights.insert key s.channels.length from rfl,
        get?_insert] at hf
      split at hf
      · rename_i hk
        cases hf
        exact .inr ⟨⟨_, hnew, hk.symm⟩,
          fun o h => hfresh o (hsettled _ o (h.of_goto.elim (fun h => by cases h) id))⟩
      · exact .inl hf
  refine hi.move hmove (Nat.le_succ_of_le (hi.began t)) ?_
  rw [goto_phase_self]
  exact ⟨⟨_, hnew, rfl⟩, trivial⟩

theorem Inv.admitLoad (hi : s.Inv) (intent : LoadIntent (V × Source)) :
    Inv { s.admitLoad L t key intent with time := s.time + 1 } := by
  unfold State.admitLoad
  split
  · rename_i channel hf
    obtain ⟨hk, ha⟩ := hi.flights key channel hf
    split
    · exact hi.goto_silent .refl _ _ rfl ⟨hk, fun o ho => (ha o ho).before t⟩
    · exact hi.full L
  · split
    · exact hi.full L
    · exact hi.register intent

theorem Inv.receive (hi : s.Inv) (hp : s.phase t = .waiting key channel)
    (h : s.receive L t key channel = some s') : Inv { s' with time := s.time + 1 } := by
  obtain ⟨flight, hf, h⟩ := bind_eq_some_iff.mp h
  have hw := hi.tasks t
  rw [hp] at hw
  split at h
  · rename_i outcome ho
    cases h
    exact hi.goto_silent .refl _ _ rfl (hw.2 outcome (.inr ⟨flight, hf, ho⟩))
  · split at h
    · cases h
      exact hi.goto_silent .refl _ _ rfl trivial
    · cases h

theorem Inv.prepare (hi : s.Inv) (hk : s.Keyed channel key) (intent : LoadIntent (V × Source))
    (now : Instant) : Inv { s.prepare L t key channel intent now with time := s.time + 1 } := by
  have hcached := s.inner.prepareLoad_cached key intent now
  unfold State.prepare
  dsimp only
  obtain ⟨⟨p, hp, hno⟩, hq⟩ | ⟨⟨s₁, hq, heq⟩, -⟩ := s.inner.prepareLoad_cases key intent now
  · rw [hp]
    cases p with
    | fetch load => exact absurd rfl (hno load)
    | cached value =>
      obtain ⟨e, he, rfl⟩ := hcached value hp
      exact hi.goto_landed (.of_quieter hq) hk rfl (hi.entries key e he) id
    | cancelled => exact hi.goto_landed (.of_quieter hq) hk rfl trivial id
  · rw [heq]
    exact hi.goto_silent (.of_startLoad hq key intent) s.waiters _ rfl ⟨hk, rfl, lt_succ_self _⟩

theorem Inv.select (hi : s.Inv) {began : Nat}
    (hp : s.phase t = .leading key channel (.fetching load began))
    {source : Option (Except E (Option V))}
    (h : s.select L t key channel load began source = some s') :
    Inv { s' with time := s.time + 1 } := by
  have hw := hi.tasks t
  rw [hp] at hw
  unfold State.select at h
  split at h
  · cases h
    exact hi.goto_silent .refl s.waiters _ rfl hw
  · cases h
    exact hi.goto_landed .refl hw.1 rfl trivial id
  · split at h
    · cases h
      exact hi.goto_landed .refl hw.1 rfl trivial id
    · cases h

/-- What a load publishes is newer than the changes, since it is current. -/
theorem Inv.publish (hi : s.Inv) {value : Option V} {began : Nat}
    (hp : s.phase t = .leading key channel (.fetched load value began)) (now : Instant) :
    Inv { s.publish L t key channel load value began now with time := s.time + 1 } := by
  have hw := hi.tasks t
  rw [hp] at hw
  obtain ⟨hk, ⟨hkey, -⟩, hcurrent⟩ := hw
  rw [← hkey] at hcurrent
  have hin : Tame s.changes s.inner
      (s.inner.publishLoad L.config load (value.map (·, .fetch began)) now).2 := by
    obtain heq | ⟨hc, hwrites, -⟩ :=
      s.inner.publishLoad_cases L.config load (value.map (·, .fetch began)) now
    · rw [heq]
      exact .refl
    · refine .of_writes hwrites fun v hv => ?_
      obtain ⟨v', -, rfl⟩ := map_eq_some_iff.mp hv.symm
      exact hcurrent hc
  refine hi.goto_landed hin hk rfl ?_ id
  cases hpub : (s.inner.publishLoad L.config load (value.map (·, .fetch began)) now).1 with
  | cancelled => trivial
  | stored =>
    exact hkey ▸ hcurrent (s.inner.publishLoad_current _ _ _ _ (by rw [hpub]; nofun))
  | notRetained =>
    exact hkey ▸ hcurrent (s.inner.publishLoad_current _ _ _ _ (by rw [hpub]; nofun))

theorem Inv.finish (hi : s.Inv) (hk : s.Keyed channel key) (load : CacheLoad K (V × Source))
    (hout : ∀ ch o, (Phase.leading key channel stage).outcome? = some (ch, o) → s.Settled ch o)
    (hp : StageOk { s with inner := s.inner.finishLoad load, time := s.time + 1 } t key stage) :
    Inv { s.finish t key channel load stage with time := s.time + 1 } :=
  hi.goto (.of_quieter (s.inner.quieter_finishLoad load)) s.waiters _
    (fun ch o h => .inl (hout ch o h)) ⟨hk, hp⟩

omit [DecidableEq K] [DecidableEq τ] in
/-- A change of a channel that leaves it its key. -/
theorem Keyed.modify {ch : Nat} {k : K} (h : s.Keyed ch k) (channel : Nat)
    (f : Flight K V E → Flight K V E) (hf : ∀ flight, (f flight).key = flight.key) :
    ∃ flight, (s.channels.modify channel f)[ch]? = some flight ∧ flight.key = k := by
  obtain ⟨flight, hg, hk⟩ := h
  refine ⟨if channel = ch then f flight else flight, ?_, ?_⟩
  · rw [getElem?_modify, hg]
    rfl
  · split
    · exact (hf flight).trans hk
    · exact hk

omit [DecidableEq K] [DecidableEq τ] in
/-- Outcomes that a change of one channel does not bring in were there before. -/
theorem Settled.of_modify {f : Flight K V E → Flight K V E} {ch : Nat}
    {o : Outcome V E} (h : s'.Settled ch o) (hphase : s'.phase = s.phase)
    (hchannels : s'.channels = s.channels.modify channel f)
    (hf : ∀ flight o, (f flight).outcome = some o →
      flight.outcome = some o ∨ s.Settled channel o) : s.Settled ch o := by
  rcases h with ⟨u, hu⟩ | ⟨flight, hflight, ho⟩
  · exact .inl ⟨u, hphase ▸ hu⟩
  · rw [hchannels, getElem?_modify] at hflight
    obtain ⟨g, hg, rfl⟩ := map_eq_some_iff.mp hflight
    split at ho
    · rename_i hch
      subst hch
      exact (hf g o ho).elim (fun h => .inr ⟨g, hg, h⟩) id
    · exact .inr ⟨g, hg, ho⟩

theorem Inv.send (hi : s.Inv) (hp : s.phase t = .leading key channel (.sending outcome)) :
    Inv { s.send t key channel outcome with time := s.time + 1 } := by
  have hw := hi.tasks t
  rw [hp] at hw
  have hself : s.Settled channel outcome := .inl ⟨t, by rw [hp]; rfl⟩
  let s₁ : State τ K V E := { s with
    channels := s.channels.modify channel ({ · with outcome := some outcome })
    time := s.time + 1 }
  have hsettled : ∀ ch o, s₁.Settled ch o → s.Settled ch o := by
    intro ch o h
    refine h.of_modify (f := ({ · with outcome := some outcome })) rfl rfl
      fun flight o' ho => .inr ?_
    cases ho
    exact hself
  have hkeyed : ∀ ch k, s.Keyed ch k → s₁.Keyed ch k := fun ch k h =>
    h.modify channel ({ · with outcome := some outcome }) fun _ => rfl
  have hmove : s.Move t (s₁.goto t (.leading key channel (.sent outcome))) := by
    refine ⟨rfl, le_succ _, fun _ _ => rfl, fun u hu => goto_phase_ne hu _, .refl,
      hkeyed, fun ch o h => ?_, fun _ _ h => .inl h⟩
    obtain h | h := h.of_goto
    · cases h
      exact .inl hself
    · exact .inl (hsettled ch o h)
  have hgoal := hi.move hmove (le_succ_of_le (hi.began t))
    (by rw [goto_phase_self]; exact ⟨hkeyed _ _ hw.1, hw.2⟩)
  exact hgoal

theorem Inv.unregister (hi : s.Inv) (hout : p.outcome? = none)
    (hp : ∀ s' : State τ K V E, s'.changes = s.changes → s'.began = s.began → s'.PhaseOk t p) :
    Inv { s.unregister t key channel p with time := s.time + 1 } := by
  let s₁ : State τ K V E := { s with
    flights := s.flights.erase key
    channels := s.channels.modify channel ({ · with closed := true })
    time := s.time + 1 }
  have hsettled : ∀ ch o, s₁.Settled ch o → s.Settled ch o := fun ch o h =>
    h.of_modify (f := ({ · with closed := true })) rfl rfl fun _ _ ho => .inl ho
  have hkeyed : ∀ ch k, s.Keyed ch k → s₁.Keyed ch k := fun ch k h =>
    h.modify channel ({ · with closed := true }) fun _ => rfl
  have hmove : s.Move t (s₁.goto t p) := by
    refine ⟨rfl, le_succ _, fun _ _ => rfl, fun u hu => goto_phase_ne hu _, .refl,
      hkeyed, fun ch o h => ?_, fun k ch hf => ?_⟩
    · refine .inl (hsettled ch o (h.of_goto.elim (fun h => ?_) id))
      rw [hout] at h
      cases h
    · rw [show (s₁.goto t p).flights = s.flights.erase key from rfl, get?_erase] at hf
      split at hf
      · cases hf
      · exact .inl hf
  have hgoal := hi.move hmove (le_succ_of_le (hi.began t))
    (by rw [goto_phase_self]; exact hp _ rfl rfl)
  exact hgoal

theorem Inv.advance (hi : s.Inv) {i : Input V E} (h : s.advance L t i = some s') :
    Inv { s' with time := s.time + 1 } := by
  have hw := hi.tasks t
  unfold State.advance at h
  cases hp : s.phase t with
  | idle | returned => rw [hp] at h; cases h
  | inspecting key =>
    rw [hp] at h
    cases h
    exact hi.inspect L i.now
  | admitting key intent =>
    rw [hp] at h
    cases h
    exact hi.admitLoad L intent
  | direct key =>
    rw [hp] at h
    cases h
    exact hi.goto_silent .refl s.waiters _ rfl (hi.began t)
  | fetchingDirectly key began =>
    rw [hp] at h hw
    obtain ⟨result, -, rfl⟩ := map_eq_some_iff.mp h
    refine hi.goto_silent .refl s.waiters _ rfl ?_
    cases result with
    | error error => trivial
    | ok value =>
      intro change hc
      have hlt := of_decide_eq_true (mem_filter.mp hc).2
      exact lt_of_lt_of_le hlt hw
  | waiting key channel =>
    rw [hp] at h
    exact hi.receive L hp h
  | leading key channel stage =>
    rw [hp] at h hw
    cases stage with
    | preparing intent =>
      cases h
      exact hi.prepare L hw.1 intent i.now
    | prepared load =>
      cases h
      exact hi.goto_silent .refl s.waiters _ rfl ⟨hw.1, hw.2, fun _ => hi.changes key⟩
    | fetching load began => exact hi.select L hp h
    | fetched load value began =>
      cases h
      exact hi.publish L hp i.now
    | landed load outcome =>
      cases h
      refine hi.finish hw.1 load (fun ch o h => ?_) hw.2
      cases h
      exact .inl ⟨t, by rw [hp]; rfl⟩
    | sending outcome =>
      cases h
      exact hi.send hp
    | sent outcome =>
      cases h
      refine hi.unregister rfl fun s' hc hb => ?_
      rw [PhaseOk, changesBefore, hc, hb]
      exact hw.2
    | aborting load =>
      cases h
      exact hi.finish hw.1 load nofun trivial
    | aborted =>
      cases h
      exact hi.unregister rfl fun _ _ _ => trivial

theorem Inv.abandon (hi : s.Inv) (h : s.abandon t = some s') :
    Inv { s' with time := s.time + 1 } := by
  have hw := hi.tasks t
  unfold State.abandon at h
  split at h
  · cases h
    exact hi.goto_silent .refl s.waiters _ rfl trivial
  · cases h
    exact hi.goto_silent .refl _ _ rfl trivial
  · rename_i hp
    rw [hp] at hw
    cases h
    exact hi.goto_silent .refl s.waiters _ rfl ⟨hw.1, trivial⟩
  · cases h

theorem Inv.call (hi : s.Inv) (h : s.call t p = some s')
    (hout : p.outcome? = none) (hp : ∀ s' : State τ K V E, s'.PhaseOk t p) :
    Inv { s' with time := s.time + 1 } := by
  let s₁ : State τ K V E :=
    { s with began := update s.began t s.time, time := s.time + 1 }
  have hmove : s.Move t (s₁.goto t p) := by
    refine ⟨rfl, le_succ _, fun u hu => update_of_ne hu _ _,
      fun u hu => goto_phase_ne hu _, .refl, fun _ _ h => h, fun ch o h => ?_, fun _ _ h => .inl h⟩
    refine .inl (h.of_goto.elim (fun h => ?_) id)
    rw [hout] at h
    cases h
  have hbegan : (s₁.goto t p).began t ≤ s.time + 1 := by
    rw [show (s₁.goto t p).began t = s.time from update_self ..]
    exact le_succ _
  have hgoal := hi.move hmove hbegan (by rw [goto_phase_self]; exact hp _)
  unfold State.call at h
  split at h
  · cases h
    exact hgoal
  · cases h
    exact hgoal
  · cases h

omit [DecidableEq τ] in
/-- A change of a key leaves no load of the key current, and is later than every call. -/
theorem Inv.change (hi : s.Inv) {value : Option (V × Source)}
    (hw : s.inner.Writes key value inner) (hv : ∀ v, some v = value → v.2 = .caller)
    (hok : ∀ channel ∈ s.flights.get? key, ¬ s.Landed channel) :
    Inv { s.change key inner with time := s.time + 1 } := by
  let s₁ : State τ K V E := { s.change key inner with time := s.time + 1 }
  have hsame : ∀ k, k ≠ key → s₁.changes k = s.changes k := fun k hk =>
    update_of_ne hk ..
  have hself : s₁.changes key = s.time :: s.changes key := update_self ..
  have hbefore : ∀ u k, s₁.changesBefore u k = s.changesBefore u k := by
    intro u k
    unfold changesBefore
    by_cases hk : k = key
    · rw [hk, hself, filter_cons_of_neg]
      · rfl
      · rw [decide_eq_true_eq]
        exact Nat.not_lt_of_le (hi.began u)
    · rw [hsame k hk]
      rfl
  have hcurrent : ∀ k lease began, s₁.inner.isCurrentLoad k lease = true →
      (s.inner.isCurrentLoad k lease = true → (Source.fetch began).After (s.changes k)) →
      (Source.fetch began).After (s₁.changes k) := by
    intro k lease began hc h
    obtain ⟨hne, hc⟩ := hw.current k lease hc
    rw [hsame k hne]
    exact h hc
  suffices hgoal : s₁.Inv from hgoal
  refine ⟨fun k e he => ?_, fun k c hc => ?_, fun u => Nat.le_succ_of_le (hi.began u),
    fun k ch hf => ?_, fun u => ?_⟩
  · by_cases hk : k = key
    · subst hk
      rw [hv e.value (hw.written e he)]
      trivial
    · rw [hsame k hk]
      exact hi.entries k e (hw.others k e hk he)
  · by_cases hk : k = key
    · rw [hk, hself] at hc
      obtain rfl | hc := mem_cons.mp hc
      · exact Nat.lt_succ_self _
      · exact Nat.lt_succ_of_lt (hi.changes key c hc)
    · rw [hsame k hk] at hc
      exact Nat.lt_succ_of_lt (hi.changes k c hc)
  · obtain ⟨hkeyed, ha⟩ := hi.flights k ch hf
    refine ⟨hkeyed, fun o (ho : s.Settled ch o) => ?_⟩
    by_cases hk : k = key
    · exact .of_not_fetched fun hfetched => hok ch (hk ▸ hf) (ho.landed hfetched)
    · rw [hsame k hk]
      exact ha o ho
  · have hp : s.PhaseOk u (s.phase u) := hi.tasks u
    show s₁.PhaseOk u (s.phase u)
    cases hph : s.phase u with
    | idle | inspecting | admitting | direct => trivial
    | fetchingDirectly => rw [hph] at hp; exact hp
    | returned => rw [hph] at hp; rw [PhaseOk, hbefore]; exact hp
    | waiting k ch =>
      rw [hph] at hp
      rw [PhaseOk, hbefore]
      exact hp
    | leading k ch stage =>
      rw [hph] at hp
      refine ⟨hp.1, ?_⟩
      have hs := hp.2
      cases stage with
      | preparing | aborting | aborted => trivial
      | prepared load => exact ⟨hs.key, hw.nextLease ▸ hs.lease⟩
      | fetching load began =>
        exact ⟨⟨hs.1.key, hw.nextLease ▸ hs.1.lease⟩, fun hc => hcurrent _ _ _ hc hs.2⟩
      | fetched load value began =>
        exact ⟨⟨hs.1.key, hw.nextLease ▸ hs.1.lease⟩, fun hc => hcurrent _ _ _ hc hs.2⟩
      | landed | sending | sent => rw [StageOk, hbefore]; exact hs

end Steps

theorem Inv.new : Inv (new : State τ K V E) where
  entries _ _ h := by cases h
  changes _ _ h := by cases h
  began _ := le_refl _
  flights _ _ h := by cases h
  tasks _ := trivial

variable [DecidableEq τ]

theorem Inv.step {s s' : State τ K V E} (hi : s.Inv) (a : Turn τ K V E) (hok : s.Orderly a)
    (h : s.step L a = some s') : s'.Inv := by
  obtain ⟨s₁, ha, rfl⟩ := map_eq_some_iff.mp h
  cases a with
  | insert key value expiration now =>
    obtain rfl := some.inj ha
    obtain ⟨stored, hstored, hw⟩ :=
      s.inner.writes_insertWithExpiration key L.config (value, .caller) expiration now
    exact hi.change hw (fun v hv => by rw [hstored v hv.symm]) hok
  | remove key =>
    obtain rfl := some.inj ha
    exact hi.change (s.inner.writes_remove key) nofun hok
  | getOrFetch t key => exact Inv.call hi ha rfl fun _ => trivial
  | refresh t key expected => exact Inv.call hi ha rfl fun _ => trivial
  | advance t i => exact hi.advance L ha
  | abandon t => exact hi.abandon ha

omit [DecidableEq τ] in
theorem Inv.consistent {s : State τ K V E} (hi : s.Inv) : s.Consistent := by
  intro t key outcome hp
  have hw := hi.tasks t
  rw [hp] at hw
  exact hw

/-- In every run in which no key is changed while a flight of it has a fetched outcome and is on the
table, no call returns what was fetched before a change that the call came after. -/
theorem no_stale_read (L : Loader E) {s : State τ K V E}
    (h : Run (fun s a s' => s.step L a = some s') Orderly new s) : s.Consistent :=
  (h.invariant (fun _ a _ hi hok hst => Inv.step L hi a hok hst) Inv.new).consistent

/-! ## Two runs -/

instance [Fintype τ] (s : State τ K V E) (channel : Nat) : Decidable (s.Landed channel) :=
  inferInstanceAs (Decidable (_ ∨ _))

instance [Fintype τ] (s : State τ K V E) : ∀ a, Decidable (s.Orderly a)
  | .insert .. | .remove _ => inferInstanceAs (Decidable (∀ _ ∈ _, _))
  | .getOrFetch .. | .refresh .. | .advance .. | .abandon _ => inferInstanceAs (Decidable True)

/-- The next `n` steps of a call, to which the source returns a letter. -/
def advances (t : τ) (value : Char) (n : Nat) : List (Turn τ K Char E) :=
  List.replicate n (.advance t { now := 0, source := some (.ok (some value)) })

/-- What a call has returned. -/
def result? (s : State τ K V E) (t : τ) : Option (K × Option V × Source) :=
  match s.phase t with
  | .returned key (.ok r) => some (key, r)
  | _ => none

omit [DecidableEq τ] [DecidableEq K] in
theorem phase_of_result? {s : State τ K V E} {t : τ} {key : K} {r : Option V × Source}
    (h : s.result? t = some (key, r)) : s.phase t = .returned key (.ok r) := by
  unfold result? at h
  split at h
  · cases h
    assumption
  · cases h

/-- A loader for the runs below. -/
def sampleLoader : Loader LoadUnavailable where
  config := { capacity := 2, expiration := .ttl 10 }
  unavailable := id

/-- The removal comes while the source is read. The read that was there fails, with the one that
joined it, and the next read returns what was fetched after the removal. -/
theorem no_stale_read_after_cancelled_load :
    ∃ s : State (Fin 2) Unit Char LoadUnavailable,
      Run (fun s a s' => s.step sampleLoader a = some s') Orderly new s ∧
        s.result? 1 = some ((), some 'b', .fetch 19) ∧ s.changes () = [5] ∧ s.Consistent := by
  have hrun : (Run.script (step sampleLoader) Orderly new
      (.getOrFetch 0 () :: advances 0 'a' 4 ++ .remove () :: .getOrFetch 1 () :: advances 1 'a' 2 ++
        advances 0 'a' 5 ++ advances 1 'a' 1 ++
        .getOrFetch 1 () :: advances 1 'b' 9)).any
      (fun s : State (Fin 2) Unit Char LoadUnavailable =>
        s.result? 1 = some ((), some 'b', .fetch 19) ∧ s.changes () = [5]) = true := by
    decide +kernel
  obtain ⟨s, h, hp⟩ := Run.ofScript hrun
  obtain ⟨hresult, hchanges⟩ := of_decide_eq_true hp
  exact ⟨s, h, hresult, hchanges, no_stale_read sampleLoader h⟩

/-- The removal comes after the value has been published, and the flight is still on the table. A
read that begins then finds no entry, joins the flight and returns the value of the old fetch. -/
theorem stale_read_from_landed_flight :
    ∃ s : State (Fin 2) Unit Char LoadUnavailable,
      Run (fun s a s' => s.step sampleLoader a = some s') (fun _ _ => True) new s ∧
        ¬ s.Consistent := by
  have hrun : (Run.script (step sampleLoader) (fun _ _ => True) new
      (.getOrFetch 0 () :: advances 0 'a' 6 ++ .remove () :: .getOrFetch 1 () ::
        advances 1 'a' 2 ++ advances 0 'a' 3 ++ advances 1 'a' 1)).any
      (fun s : State (Fin 2) Unit Char LoadUnavailable =>
        s.result? 1 = some ((), some 'a', .fetch 4) ∧ s.changesBefore 1 () = [7]) = true := by
    decide +kernel
  obtain ⟨s, h, hp⟩ := Run.ofScript hrun
  obtain ⟨hresult, hchanges⟩ := of_decide_eq_true hp
  refine ⟨s, h, fun hc => ?_⟩
  have ha := hc 1 () _ (phase_of_result? hresult)
  rw [hchanges] at ha
  exact absurd (ha 7 (mem_singleton.mpr rfl)) (by decide)

end State

end AuxCommon.Cache
