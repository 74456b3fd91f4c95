import AuxCommon.Cache.Core

/-!
# What a cache holds

Between two changes of a key by the caller (`insert`, `insert_with_ttl`, `remove`) the cache may
lose its entry and may get it again from a load, and this module says from which loads: those that
were prepared after the last change. The reason is the lease. A change of a key cancels the lease
of the load that is under way, and a load publishes only under the lease that the cache has for its
key and that nobody has cancelled.

* `Quieter` is what every operation does to the keys it does not write: entries may go, leases may
  be cancelled, nothing comes. `Writes` is what a write does to its key.
* `World` adds to a cache the last change of each key and the loads with the times of their
  preparation, and keeps with each value who stored it. Loads publish in any order, any number of
  times.
* `resident_after_last_change` is the result for every sequence of operations.
-/

namespace AuxCommon.Cache

open Option LinkedMap Nat Function Bool

variable {K V : Type} [DecidableEq K]

namespace CacheInner

/-- Entries and loads may go, and leases may be cancelled. -/
structure Quieter (s s' : CacheInner K V) : Prop where
  entries : ∀ k e, s'.entries.get? k = some e → s.entries.get? k = some e
  loads : ∀ k l, s'.loads.get? k = some l → s.loads.get? k = some l
  cancelled : ∀ l, s.cancelled l = true → s'.cancelled l = true
  nextLease : s'.nextLease = s.nextLease
  nextEntry : s.nextEntry ≤ s'.nextEntry

namespace Quieter

variable {s s' s₁ : CacheInner K V}

theorem refl (s : CacheInner K V) : Quieter s s :=
  ⟨fun _ _ h => h, fun _ _ h => h, fun _ h => h, rfl, le_refl _⟩

theorem of_eq (h : s' = s) : Quieter s s' := h ▸ refl s

theorem trans (h : Quieter s s₁) (h' : Quieter s₁ s') : Quieter s s' where
  entries k e hk := h.entries k e (h'.entries k e hk)
  loads k l hk := h.loads k l (h'.loads k l hk)
  cancelled l hl := h'.cancelled l (h.cancelled l hl)
  nextLease := h'.nextLease.trans h.nextLease
  nextEntry := le_trans h.nextEntry h'.nextEntry

/-- A load that is current has been current. -/
theorem current (h : Quieter s s') {key : K} {lease : Nat}
    (hc : s'.isCurrentLoad key lease = true) : s.isCurrentLoad key lease = true := by
  simp only [isCurrentLoad, and_eq_true, not_eq_true', any_eq_true, decide_eq_true_eq] at hc ⊢
  obtain ⟨hlive, l, hl, rfl⟩ := hc
  refine ⟨?_, l, h.loads key l hl, rfl⟩
  by_contra hne
  rw [h.cancelled l (eq_true_of_not_eq_false hne)] at hlive
  cases hlive

end Quieter

variable (s : CacheInner K V) (key : K)

theorem quieter_cancelLoad : Quieter s (s.cancelLoad key) := by
  unfold cancelLoad
  split
  · refine ⟨fun _ _ h => h, fun _ _ h => h, fun l h => ?_, rfl, le_refl _⟩
    dsimp only
    rw [update_apply]
    split
    · rfl
    · exact h
  · exact .refl s

theorem quieter_remove : Quieter s (s.remove key).2 := by
  refine (s.quieter_cancelLoad key).trans ?_
  unfold remove
  dsimp only
  split
  · exact .refl _
  · refine ⟨fun k e h => ?_, fun _ _ h => h, fun _ h => h, rfl, le_refl _⟩
    rw [get?_erase] at h
    split at h
    · cases h
    · exact h

theorem get?_remove : (s.remove key).2.entries.get? key = none := by
  unfold remove
  dsimp only
  split
  · rename_i h
    exact h
  · exact get?_erase.trans (if_pos rfl)

/-- A removal leaves no current load of its key. -/
theorem isCurrentLoad_remove (lease : Nat) : (s.remove key).2.isCurrentLoad key lease = false := by
  have hloads : (s.remove key).2.loads = s.loads := by
    unfold remove cancelLoad
    dsimp only
    split <;> split <;> rfl
  have hcancelled : (s.remove key).2.cancelled = (s.cancelLoad key).cancelled := by
    unfold remove
    dsimp only
    split <;> rfl
  unfold isCurrentLoad
  rw [hloads, hcancelled, cancelLoad]
  cases h : s.loads.get? key with
  | none => simp
  | some l =>
    by_cases hl : l = lease
    · simp [hl]
    · simp [hl]

theorem quieter_evictIfNeeded (capacity : Nat) (now : Instant) :
    Quieter s (s.evictIfNeeded key capacity now) := by
  unfold evictIfNeeded
  split
  · exact .refl s
  · dsimp only
    split
    · exact s.quieter_remove _
    · exact .refl s

theorem quieter_toBack : Quieter s { s with entries := s.entries.toBack key } :=
  ⟨fun k e h => by rwa [get?_toBack] at h, fun _ _ h => h, fun _ h => h, rfl, le_refl _⟩

theorem quieter_discardExpired : Quieter s (s.discardExpired key) := by
  unfold discardExpired
  split
  · exact .refl s
  · exact s.quieter_remove key

theorem quieter_finishLoad (load : CacheLoad K V) : Quieter s (s.finishLoad load) := by
  unfold finishLoad
  split
  · refine ⟨fun _ _ h => h, fun k l h => ?_, fun _ h => h, rfl, le_refl _⟩
    rw [get?_erase] at h
    split at h
    · cases h
    · exact h
  · exact .refl s

theorem quieter_inspectEntry (c : CacheConfig) (now : Instant) :
    Quieter s (inspectEntry c s key now).2 := by
  unfold inspectEntry
  split
  · exact .refl s
  · split
    · exact .refl s
    · dsimp only
      split
      · exact (s.quieter_toBack key).trans (quieter_discardExpired _ key)
      · exact s.quieter_toBack key

theorem quieter_inspectEntryWithStale (c : CacheConfig) (staleTtl : Nat) (now : Instant) :
    Quieter s (inspectEntryWithStale c s key staleTtl now).2 := by
  unfold inspectEntryWithStale
  split
  · exact .refl s
  · split
    · exact .refl s
    · dsimp only
      split
      · exact s.quieter_toBack key
      · split
        · exact s.quieter_toBack key
        · exact (s.quieter_toBack key).trans (quieter_discardExpired _ key)

/-- A write of a key: the value is its only new entry, and the load of the key is not current. -/
structure Writes (key : K) (value : Option V) (s s' : CacheInner K V) : Prop where
  others : ∀ k e, k ≠ key → s'.entries.get? k = some e → s.entries.get? k = some e
  written : ∀ e, s'.entries.get? key = some e → some e.value = value
  fresh : ∀ e, s'.entries.get? key = some e → s.nextEntry ≤ e.id ∧ e.id < s'.nextEntry
  current : ∀ k l, s'.isCurrentLoad k l = true → k ≠ key ∧ s.isCurrentLoad k l = true
  nextLease : s'.nextLease = s.nextLease
  nextEntry : s.nextEntry ≤ s'.nextEntry

theorem Writes.of_quieter {key : K} {value : Option V} {s s₁ s' : CacheInner K V}
    (hq : Quieter s s₁) (h : Writes key value s₁ s') : Writes key value s s' where
  others k e hne hk := hq.entries k e (h.others k e hne hk)
  written := h.written
  fresh e he := ⟨le_trans hq.nextEntry (h.fresh e he).1, (h.fresh e he).2⟩
  current k l hc := ⟨(h.current k l hc).1, hq.current (h.current k l hc).2⟩
  nextLease := h.nextLease.trans hq.nextLease
  nextEntry := le_trans hq.nextEntry h.nextEntry

theorem current_remove {k : K} {l : Nat} (h : (s.remove key).2.isCurrentLoad k l = true) :
    k ≠ key ∧ s.isCurrentLoad k l = true := by
  refine ⟨?_, (s.quieter_remove key).current h⟩
  rintro rfl
  rw [s.isCurrentLoad_remove] at h
  cases h

theorem writes_remove : Writes key none s (s.remove key).2 where
  others k e _ h := (s.quieter_remove key).entries k e h
  written e h := by rw [s.get?_remove] at h; cases h
  fresh e h := by rw [s.get?_remove] at h; cases h
  current _ _ h := s.current_remove key h
  nextLease := (s.quieter_remove key).nextLease
  nextEntry := (s.quieter_remove key).nextEntry

/-- A new entry takes the place of what was there. -/
theorem writes_insert (value : V) (expiration : CacheExpiration) (now : Instant) :
    Writes key (some value) s
      ((s.allocate value expiration now).2.insert key (s.allocate value expiration now).1).2 := by
  have hq := (s.allocate value expiration now).2.quieter_remove key
  refine ⟨fun k e hne h => ?_, fun e h => ?_, fun e h => ?_, fun k l h => ?_, hq.nextLease,
    le_trans (le_succ _) hq.nextEntry⟩
  · rw [insert, get?_insert, if_neg hne] at h
    exact hq.entries k e h
  · rw [insert, get?_insert, if_pos rfl] at h
    cases h
    rfl
  · rw [insert, get?_insert, if_pos rfl] at h
    cases h
    exact ⟨le_refl _, hq.nextEntry⟩
  · exact (s.allocate value expiration now).2.current_remove key h

theorem writes_insertNew (c : CacheConfig) (value : V) (expiration : CacheExpiration)
    (now : Instant) :
    let s₁ := s.evictIfNeeded key c.capacity now
    let a := s₁.allocate value expiration now
    Writes key (some value) s (a.2.insert key a.1).2 :=
  .of_quieter (s.quieter_evictIfNeeded key c.capacity now) (writes_insert _ key value _ _)

theorem writes_store (c : CacheConfig) (value : Option V) (expiration : CacheExpiration)
    (now : Instant) : Writes key value s (s.store c key value expiration now) := by
  cases value with
  | none => exact s.writes_remove key
  | some value => exact s.writes_insertNew key c value expiration now

theorem writes_insertWithExpiration (c : CacheConfig) (value : V) (expiration : CacheExpiration)
    (now : Instant) :
    ∃ stored : Option V, (∀ v ∈ stored, v = value) ∧
      Writes key stored s (s.insertWithExpiration c key value expiration now).2 := by
  unfold insertWithExpiration
  split
  · exact ⟨none, nofun, s.writes_remove key⟩
  · exact ⟨some value, fun _ h => (some.inj h).symm, s.writes_insertNew key c value expiration now⟩

/-- A load that changes the cache is current, stores its value, and, when it is a refresh, finds the
entry it expects. -/
theorem publishLoad_cases (c : CacheConfig) (load : CacheLoad K V) (value : Option V)
    (now : Instant) :
    (s.publishLoad c load value now).2 = s ∨ s.isCurrentLoad load.key load.lease = true ∧
      Writes load.key value s (s.publishLoad c load value now).2 ∧
      ∀ expected, load.intent = .refresh expected →
        ∃ e, s.entries.get? load.key = some e ∧ e.isSameEntry expected = true := by
  unfold publishLoad
  split
  · exact .inl rfl
  · rename_i hc
    have hc := eq_true_of_not_eq_false hc
    split
    · rename_i hi
      exact .inr ⟨hc, s.writes_store _ c _ _ now, fun _ h => by rw [hi] at h; cases h⟩
    · rename_i expected hi
      split
      · exact .inl rfl
      · rename_i current he
        split
        · exact .inl rfl
        · rename_i hsame
          split
          · exact .inl rfl
          · refine .inr ⟨hc, s.writes_store _ c _ _ now, fun expected' h => ?_⟩
            rw [hi] at h
            cases h
            exact ⟨current, he, eq_true_of_not_eq_false hsame⟩

/-- A preparation gives a new lease, for a refresh over the entry it expects, or is quiet. -/
theorem prepareLoad_cases (intent : LoadIntent V) (now : Instant) :
    (∃ p, (s.prepareLoad key intent now).1 = p ∧ (∀ load, p ≠ .fetch load)) ∧
        Quieter s (s.prepareLoad key intent now).2 ∨
      (∃ s₁, Quieter s s₁ ∧ s.prepareLoad key intent now = s₁.startLoad key intent) ∧
      ∀ expected, intent = .refresh expected →
        ∃ e, s.entries.get? key = some e ∧ e.isSameEntry expected = true := by
  unfold prepareLoad
  cases intent with
  | cold =>
    dsimp only
    split
    · exact .inl ⟨⟨_, rfl, by simp⟩, s.quieter_toBack key⟩
    · exact .inr ⟨⟨_, s.quieter_toBack key, rfl⟩, by simp⟩
  | refresh expected =>
    dsimp only
    split
    · rename_i h
      refine .inr ⟨⟨s, .refl s, rfl⟩, fun expected' h' => ?_⟩
      cases h'
      obtain ⟨e, he, hs⟩ := (any_eq_true _ _).mp h
      exact ⟨e, he, (and_eq_true _ _ ▸ hs).1⟩
    · exact .inl ⟨⟨_, rfl, by simp⟩, .refl s⟩

end CacheInner

/-! ## The cache with its history -/

/-- A change of a key by the caller, at its time. -/
inductive Change where
  | insert (time : Nat)
  | remove (time : Nat)

def Change.time : Change → Nat
  | .insert t | .remove t => t

/-- Who stored a value: the insertion at a time, or the load of a number. -/
inductive Origin where
  | inserted (time : Nat)
  | loaded (load : Nat)
  deriving DecidableEq

/-- A load with the time of its preparation and the entry that its key had then. -/
structure Load (K V : Type) where
  load : CacheLoad K (V × Origin)
  prepared : Nat
  resident : Option (CacheEntry (V × Origin))

structure World (K V : Type) where
  inner : CacheInner K (V × Origin)
  time : Nat
  lastChange : K → Option Change
  loads : List (Load K V)

inductive Op (K V : Type) where
  | insert (key : K) (value : V) (expiration : CacheExpiration) (now : Instant)
  | remove (key : K)
  | prepare (key : K) (intent : LoadIntent (V × Origin)) (now : Instant)
  | publish (load : Nat) (value : Option V) (now : Instant)
  | finish (load : Nat)
  | inspect (key : K) (now : Instant)
  | inspectStale (key : K) (staleTtl : Nat) (now : Instant)

namespace World

def new : World K V where
  inner := .new
  time := 0
  lastChange _ := none
  loads := []

/-- The load that a preparation starts. -/
def prepared (w : World K V) (key : K) : LoadPreparation K (V × Origin) → List (Load K V)
  | .fetch load => [{ load := load, prepared := w.time, resident := w.inner.entries.get? key }]
  | .cached _ | .cancelled => []

/-- What an operation does, without the clock. -/
def apply (c : CacheConfig) (w : World K V) : Op K V → World K V
  | .insert key value expiration now =>
    { w with
      inner := (w.inner.insertWithExpiration c key (value, .inserted w.time) expiration now).2
      lastChange := Function.update w.lastChange key (some (.insert w.time)) }
  | .remove key =>
    { w with
      inner := (w.inner.removeKey key).2
      lastChange := Function.update w.lastChange key (some (.remove w.time)) }
  | .prepare key intent now =>
    { w with
      inner := (w.inner.prepareLoad key intent now).2
      loads := w.loads ++ w.prepared key (w.inner.prepareLoad key intent now).1 }
  | .publish i value now =>
    match w.loads[i]? with
    | some h =>
      { w with inner := (w.inner.publishLoad c h.load (value.map (·, .loaded i)) now).2 }
    | none => w
  | .finish i =>
    match w.loads[i]? with
    | some h => { w with inner := w.inner.finishLoad h.load }
    | none => w
  | .inspect key now => { w with inner := (w.inner.inspectEntry c key now).2 }
  | .inspectStale key staleTtl now =>
    { w with inner := (w.inner.inspectEntryWithStale c key staleTtl now).2 }

def step (c : CacheConfig) (w : World K V) (op : Op K V) : World K V :=
  { w.apply c op with time := w.time + 1 }

def run (c : CacheConfig) (ops : List (Op K V)) : World K V := ops.foldl (step c) .new

/-- A load was prepared after the last change of a key. -/
def After (w : World K V) (key : K) (h : Load K V) : Prop :=
  ∀ change, w.lastChange key = some change → change.time < h.prepared

/-- The last change of the key stored the value, or a load of the key that was prepared after it. -/
def Justified (w : World K V) (key : K) : Origin → Prop
  | .inserted t => w.lastChange key = some (.insert t)
  | .loaded i => ∃ h, w.loads[i]? = some h ∧ h.load.key = key ∧ w.After key h

/-- The entry of a key with the name of the entry that a load is over is that entry. -/
structure Over (w : World K V) (h : Load K V) (expected : CacheEntry (V × Origin))
    (e : CacheEntry (V × Origin)) : Prop where
  resident : h.resident = some e
  same : e.isSameEntry expected = true
  known : e.id < w.inner.nextEntry
  unique : ∀ e', w.inner.entries.get? h.load.key = some e' → e'.id = e.id → e' = e

structure Inv (w : World K V) : Prop where
  resident : ∀ key e, w.inner.entries.get? key = some e → w.Justified key e.value.2
  current : ∀ h ∈ w.loads, w.inner.isCurrentLoad h.load.key h.load.lease = true →
    w.After h.load.key h
  leases : ∀ h ∈ w.loads, h.load.lease < w.inner.nextLease
  changes : ∀ key change, w.lastChange key = some change → change.time < w.time
  known : ∀ key e, w.inner.entries.get? key = some e → e.id < w.inner.nextEntry
  refreshes : ∀ h ∈ w.loads, ∀ expected, h.load.intent = .refresh expected →
    ∃ e, w.Over h expected e

namespace Inv

variable {w : World K V} {key : K} {inner : CacheInner K (V × Origin)} {value : Option (V × Origin)}

theorem new : Inv (.new : World K V) where
  resident _ _ h := by cases h
  current _ h := by cases h
  leases _ h := by cases h
  changes _ _ h := by cases h
  known _ _ h := by cases h
  refreshes _ h := by cases h

theorem quieter (hi : w.Inv)
    (hq : w.inner.Quieter inner) : Inv { w with inner := inner, time := w.time + 1 } where
  resident k e h := hi.resident k e (hq.entries k e h)
  current h hm hc := hi.current h hm (hq.current hc)
  leases h hm := hq.nextLease ▸ hi.leases h hm
  changes k ch h := lt_succ_of_lt (hi.changes k ch h)
  known k e h := lt_of_lt_of_le (hi.known k e (hq.entries k e h)) hq.nextEntry
  refreshes h hm expected hx := by
    obtain ⟨e, ho⟩ := hi.refreshes h hm expected hx
    exact ⟨e, ho.resident, ho.same, lt_of_lt_of_le ho.known hq.nextEntry,
      fun e' he' => ho.unique e' (hq.entries _ _ he')⟩

/-- Nothing happens, and time passes. -/
theorem tick (hi : w.Inv) : Inv { w with time := w.time + 1 } := hi.quieter (.refl w.inner)

/-- A write with a justified value, and with the change of its key if the caller made it. -/
theorem write (hi : w.Inv) {lastChange : K → Option Change} (hw : w.inner.Writes key value inner)
    (hothers : ∀ k, k ≠ key → lastChange k = w.lastChange k)
    (htime : ∀ change, lastChange key = some change → change.time ≤ w.time)
    (hvalue : ∀ v, some v = value → Justified { w with lastChange := lastChange } key v.2) :
    Inv { w with inner := inner, lastChange := lastChange, time := w.time + 1 } where
  resident k e h := by
    by_cases hk : k = key
    · subst hk
      exact hvalue e.value (hw.written e h)
    · have hj := hi.resident k e (hw.others k e hk h)
      unfold Justified After at hj ⊢
      rwa [← hothers k hk] at hj
  current h hm hc := by
    obtain ⟨hne, hc⟩ := hw.current _ _ hc
    have ha := hi.current h hm hc
    unfold After at ha ⊢
    rwa [← hothers _ hne] at ha
  leases h hm := hw.nextLease ▸ hi.leases h hm
  changes k ch h := by
    by_cases hk : k = key
    · subst hk
      exact lt_succ_of_le (htime ch h)
    · exact lt_succ_of_lt (hi.changes k ch ((hothers k hk).symm.trans h))
  known k e h := by
    by_cases hk : k = key
    · subst hk
      exact (hw.fresh e h).2
    · exact lt_of_lt_of_le (hi.known k e (hw.others k e hk h)) hw.nextEntry
  refreshes h hm expected hx := by
    obtain ⟨e, ho⟩ := hi.refreshes h hm expected hx
    refine ⟨e, ho.resident, ho.same, lt_of_lt_of_le ho.known hw.nextEntry, fun e' he' hid => ?_⟩
    by_cases hk : h.load.key = key
    · -- the new entry has a name that no load knows
      have hf := (hw.fresh e' (hk ▸ he')).1
      have hlt := ho.known
      omega
    · exact ho.unique e' (hw.others _ _ hk he') hid

/-- A change of a key by the caller, which is the last one from now on. -/
theorem change (hi : w.Inv) (change : Change) (hw : w.inner.Writes key value inner)
    (htime : change.time = w.time)
    (hvalue : ∀ v, some v = value → v.2 = .inserted w.time ∧ change = .insert w.time) :
    Inv { w with
      inner := inner
      lastChange := update w.lastChange key (some change)
      time := w.time + 1 } := by
  refine hi.write hw (fun k hk => update_of_ne hk _ _) (fun ch h => ?_) fun v hv => ?_
  · rw [update_self] at h
    exact le_of_eq (some.inj h ▸ htime)
  · obtain ⟨horigin, rfl⟩ := hvalue v hv
    rw [horigin]
    exact update_self ..

/-- A new load is prepared after every change, and the loads before it are no longer current. -/
theorem start (hi : w.Inv) {s₁ : CacheInner K (V × Origin)} (hq : w.inner.Quieter s₁)
    (intent : LoadIntent (V × Origin))
    (hexpected : ∀ expected, intent = .refresh expected →
      ∃ e, w.inner.entries.get? key = some e ∧ e.isSameEntry expected = true) :
    Inv { w with
      inner := (s₁.startLoad key intent).2
      loads := w.loads ++ w.prepared key (s₁.startLoad key intent).1
      time := w.time + 1 } where
  resident k e h := by
    have hj := hi.resident k e (hq.entries k e h)
    cases ho : e.value.2 with
    | inserted t =>
      rw [ho] at hj
      exact hj
    | loaded i =>
      rw [ho] at hj
      obtain ⟨h', hget, hrest⟩ := hj
      exact ⟨h', List.getElem?_append_left (List.getElem?_eq_some_iff.mp hget).1 ▸ hget, hrest⟩
  current h hm hc := by
    obtain hm | hm := List.mem_append.mp hm
    · refine hi.current h hm ?_
      refine hq.current ?_
      have hlt := hi.leases h hm
      simp only [CacheInner.isCurrentLoad, CacheInner.startLoad, get?_insert] at hc ⊢
      split at hc
      · -- the lease of the key is the new one
        rw [← hq.nextLease] at hlt
        simp only [any_some, and_eq_true, decide_eq_true_eq] at hc
        omega
      · exact hc
    · cases List.mem_singleton.mp hm
      exact fun ch hch => hi.changes _ ch hch
  leases h hm := by
    obtain hm | hm := List.mem_append.mp hm
    · exact lt_succ_of_lt (hq.nextLease ▸ hi.leases h hm)
    · cases List.mem_singleton.mp hm
      exact lt_succ_self _
  changes k ch h := lt_succ_of_lt (hi.changes k ch h)
  known k e h := lt_of_lt_of_le (hi.known k e (hq.entries k e h)) hq.nextEntry
  refreshes h hm expected hx := by
    obtain hm | hm := List.mem_append.mp hm
    · obtain ⟨e, ho⟩ := hi.refreshes h hm expected hx
      exact ⟨e, ho.resident, ho.same, lt_of_lt_of_le ho.known hq.nextEntry,
        fun e' he' => ho.unique e' (hq.entries _ _ he')⟩
    · cases List.mem_singleton.mp hm
      obtain ⟨e, he, hs⟩ := hexpected expected hx
      refine ⟨e, he, hs, lt_of_lt_of_le (hi.known _ e he) hq.nextEntry, fun e' he' _ => ?_⟩
      exact some.inj ((hq.entries _ _ he').symm.trans he)

theorem step (c : CacheConfig) (hi : w.Inv) (op : Op K V) : (w.step c op).Inv := by
  cases op with
  | insert key value expiration now =>
    obtain ⟨stored, hstored, hw⟩ :=
      w.inner.writes_insertWithExpiration key c (value, .inserted w.time) expiration now
    refine hi.change (.insert w.time) hw rfl fun v hv => ?_
    cases hstored v hv.symm
    exact ⟨rfl, rfl⟩
  | remove key => exact hi.change (.remove w.time) (w.inner.writes_remove key) rfl nofun
  | prepare key intent now =>
    obtain ⟨⟨p, hp, hno⟩, hq⟩ | ⟨⟨s₁, hq, heq⟩, hx⟩ := w.inner.prepareLoad_cases key intent now
    · have hnil : w.prepared key p = [] := by
        cases p with
        | fetch load => exact absurd rfl (hno load)
        | cached | cancelled => rfl
      have := hi.quieter hq
      rwa [← List.append_nil w.loads, ← hnil, ← hp] at this
    · have := hi.start hq intent hx
      rwa [← heq] at this
  | publish i value now =>
    cases hget : w.loads[i]? with
    | none =>
      rw [World.step, World.apply, hget]
      exact hi.tick
    | some h =>
      have hm := List.mem_of_getElem? hget
      rw [World.step, World.apply, hget]
      obtain heq | ⟨hc, hw, -⟩ :=
        w.inner.publishLoad_cases c h.load (value.map (·, .loaded i)) now
      · exact hi.quieter (.of_eq heq)
      · refine hi.write hw (fun _ _ => rfl) (fun ch hch => le_of_lt (hi.changes _ ch hch)) ?_
        intro v hv
        obtain ⟨v', -, rfl⟩ := map_eq_some_iff.mp hv.symm
        exact ⟨h, hget, rfl, hi.current h hm hc⟩
  | finish i =>
    cases hget : w.loads[i]? with
    | none =>
      rw [World.step, World.apply, hget]
      exact hi.tick
    | some h =>
      rw [World.step, World.apply, hget]
      exact hi.quieter (w.inner.quieter_finishLoad h.load)
  | inspect key now => exact hi.quieter (w.inner.quieter_inspectEntry key c now)
  | inspectStale key staleTtl now =>
    exact hi.quieter (w.inner.quieter_inspectEntryWithStale key c staleTtl now)

theorem run (c : CacheConfig) (ops : List (Op K V)) : (World.run c ops).Inv :=
  List.foldlRecOn ops (World.step c) new fun _ hi op _ => hi.step c op

end Inv

/-- After every sequence of operations, in any order and at any times, a resident entry is the value
of the last change of its key or of a load of its key that was prepared after the last change. A
refresh changes the cache only while the entry over which it was prepared is the resident one. -/
theorem resident_after_last_change (c : CacheConfig) (ops : List (Op K V)) :
    (∀ key e, (run c ops).inner.entries.get? key = some e →
      (run c ops).Justified key e.value.2) ∧
    ∀ i h expected value now, (run c ops).loads[i]? = some h →
      h.load.intent = .refresh expected →
      ((run c ops).step c (.publish i value now)).inner ≠ (run c ops).inner →
      ∃ e, h.resident = some e ∧ e.isSameEntry expected = true ∧
        (run c ops).inner.entries.get? h.load.key = some e := by
  have hi := Inv.run c ops
  refine ⟨hi.resident, fun i h expected value now hget hx hne => ?_⟩
  obtain ⟨e, ho⟩ := hi.refreshes h (List.mem_of_getElem? hget) expected hx
  refine ⟨e, ho.resident, ho.same, ?_⟩
  rw [step, apply, hget] at hne
  obtain heq | ⟨-, -, hexpected⟩ :=
    (run c ops).inner.publishLoad_cases c h.load (value.map (·, .loaded i)) now
  · exact absurd heq hne
  · obtain ⟨e', he', hs'⟩ := hexpected expected hx
    have hid : e'.id = e.id := (of_decide_eq_true hs').trans (of_decide_eq_true ho.same).symm
    rw [he', ho.unique e' he' hid]

/-- An insertion, a refresh over it, and an insertion of another key that evicts nothing. The entry
is the one that the refresh stored. -/
theorem resident_after_last_change_refresh :
    let w := run { capacity := 2, expiration := .ttl 10 }
      [.insert false 'a' (.ttl 10) 0,
        .prepare false (.refresh (.new 0 ('a', .inserted 0) (.ttl 10) 0)) 1,
        .insert true 'b' .never 2, .publish 0 (some 'c') 3, .finish 0]
    (w.inner.entries.get? false).map (·.value) = some ('c', .loaded 0) ∧
      w.Justified false (.loaded 0) := by
  intro w
  have hw : (w.inner.entries.get? false).map (·.value) = some ('c', .loaded 0) := by
    decide +kernel
  obtain ⟨e, he, hv⟩ := map_eq_some_iff.mp hw
  have hj := (resident_after_last_change { capacity := 2, expiration := .ttl 10 } _).1 false e he
  rw [hv] at hj
  exact ⟨hw, hj⟩

end World

end AuxCommon.Cache
