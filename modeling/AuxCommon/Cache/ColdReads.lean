import AuxCommon.Cache.Loader
import AuxCommon.Cache.Residence
import AuxCommon.Lib.System
import Mathlib.Data.Fintype.Basic

/-!
# Cold reads beside other traffic

A cold load starts when its key has no entry, or an expired one, which then stays where it is. While
the load is under way the traffic of other keys may evict that entry, and the removal of an entry
cancels the load of its key: `cold_read_cancelled_by_eviction` is such a run of `get_or_fetch`. In
every run in which no entry is evicted whose key has a current cold load, a cold load loses its lease
only when its own key is inserted or removed (`cold_reads_spared`).

`Spares` says which loads an operation on the cache may cancel. The table of flights gives each key
one leader (`Inv.sole`), so that no other task touches the load of the key.
-/

namespace AuxCommon.Cache

open Option Function LinkedMap CacheInner Nat

/-- The load of a leader, until it has landed. -/
def Stage.load? {K V E : Type} : Stage K V E → Option (CacheLoad K (V × Source))
  | .prepared load | .fetching load _ | .fetched load _ _ => some load
  | _ => none

/-- The load of a leader, until it is dropped. -/
def Stage.held? {K V E : Type} : Stage K V E → Option (CacheLoad K (V × Source))
  | .prepared load | .fetching load _ | .fetched load _ _ | .landed load _ | .aborting load => some load
  | _ => none

theorem Stage.held_of_load {K V E : Type} {stage : Stage K V E} {load : CacheLoad K (V × Source)}
    (h : stage.load? = some load) : stage.held? = some load := by
  cases stage <;> first | exact h | cases h

variable {K : Type} [DecidableEq K]

namespace CacheInner

variable {V : Type} {s s' s₁ : CacheInner K V} {key : K} {gone gone' : K → Prop} {l : Nat} {k : K}

/-- Every load has its own lease, and no lease is cancelled before it is given. -/
structure Leased (s : CacheInner K V) : Prop where
  loads : ∀ k l, s.loads.get? k = some l → l < s.nextLease
  cancelled : ∀ l, s.cancelled l = true → l < s.nextLease
  distinct : ∀ k k' l, s.loads.get? k = some l → s.loads.get? k' = some l → k = k'

/-- The loads are the same, and only those of keys with `gone` are cancelled. -/
structure Spares (gone : K → Prop) (s s' : CacheInner K V) : Prop where
  loads : s'.loads = s.loads
  nextLease : s'.nextLease = s.nextLease
  cancelled : ∀ l, s'.cancelled l = true →
    s.cancelled l = true ∨ ∃ k, gone k ∧ s.loads.get? k = some l

theorem isCurrentLoad_iff :
    s.isCurrentLoad k l = true ↔ s.cancelled l = false ∧ s.loads.get? k = some l := by
  cases h : s.loads.get? k <;> simp [isCurrentLoad, h]

namespace Spares

theorem refl : Spares gone s s := ⟨rfl, rfl, fun _ h => .inl h⟩

theorem trans (h : Spares gone s s₁) (h' : Spares gone' s₁ s') (hle : ∀ k, gone' k → gone k) :
    Spares gone s s' where
  loads := h'.loads.trans h.loads
  nextLease := h'.nextLease.trans h.nextLease
  cancelled l hl := by
    rcases h'.cancelled l hl with hl | ⟨k, hk, hget⟩
    · exact h.cancelled l hl
    · exact .inr ⟨k, hle k hk, h.loads ▸ hget⟩

theorem mono (h : Spares gone s s') (hle : ∀ k, gone k → gone' k) : Spares gone' s s' :=
  ⟨h.loads, h.nextLease, fun l hl => (h.cancelled l hl).imp id fun ⟨k, hk, hget⟩ => ⟨k, hle k hk, hget⟩⟩

theorem leased (h : Spares gone s s') (hs : s.Leased) : s'.Leased where
  loads k l hk := h.nextLease ▸ hs.loads k l (h.loads ▸ hk)
  cancelled l hl := by
    rw [h.nextLease]
    rcases h.cancelled l hl with hl | ⟨k, -, hk⟩
    · exact hs.cancelled l hl
    · exact hs.loads k l hk
  distinct := h.loads ▸ hs.distinct

/-- The load of a key that is not `gone` stays current. -/
theorem current (h : Spares gone s s') (hs : s.Leased) (hk : ¬ gone k)
    (hc : s.isCurrentLoad k l = true) : s'.isCurrentLoad k l = true := by
  obtain ⟨hlive, hget⟩ := isCurrentLoad_iff.mp hc
  refine isCurrentLoad_iff.mpr ⟨?_, h.loads ▸ hget⟩
  by_contra hdead
  rcases h.cancelled l (Bool.eq_true_of_not_eq_false hdead) with hl | ⟨k', hk', hget'⟩
  · rw [hlive] at hl
    cases hl
  · exact hk (hs.distinct k' k l hget' hget ▸ hk')

theorem remove (s : CacheInner K V) (key : K) : Spares (· = key) s (s.remove key).2 := by
  have hcancel : Spares (· = key) s (s.cancelLoad key) := by
    unfold cancelLoad
    cases hget : s.loads.get? key with
    | none => exact .refl
    | some lease =>
      refine ⟨rfl, rfl, fun l hl => ?_⟩
      change update s.cancelled lease true l = true at hl
      by_cases hlease : l = lease
      · exact .inr ⟨key, rfl, hlease ▸ hget⟩
      · rw [update_of_ne hlease] at hl
        exact .inl hl
  unfold CacheInner.remove
  dsimp only
  split <;> exact ⟨hcancel.loads, hcancel.nextLease, hcancel.cancelled⟩

theorem evict (capacity : Nat) (now : Instant) :
    Spares (fun k => s.victim? key capacity now = some k) s (s.evictIfNeeded key capacity now) := by
  rw [evictIfNeeded_eq]
  cases s.victim? key capacity now with
  | none => exact .refl
  | some victim => exact (remove _ _).mono fun k hk => congrArg some hk.symm

/-- Room is made, and the key gets a new entry. -/
theorem put {capacity : Nat} {now : Instant} (value : V) (expiration : CacheExpiration) :
    Spares (fun k => k = key ∨ s.victim? key capacity now = some k) s
      ((((s.evictIfNeeded key capacity now).allocate value expiration now).2.insert key
        ((s.evictIfNeeded key capacity now).allocate value expiration now).1).2) := by
  have hevict : Spares (fun k => k = key ∨ s.victim? key capacity now = some k) s
      (s.evictIfNeeded key capacity now) := (evict capacity now).mono fun _ => .inr
  have hallocate : Spares (fun k => k = key ∨ s.victim? key capacity now = some k) s
      ((s.evictIfNeeded key capacity now).allocate value expiration now).2 :=
    ⟨hevict.loads, hevict.nextLease, hevict.cancelled⟩
  have hremove := hallocate.trans (remove _ key) fun _ => .inl
  exact ⟨hremove.loads, hremove.nextLease, hremove.cancelled⟩

theorem insertWithExpiration (c : CacheConfig) (value : V) (expiration : CacheExpiration)
    (now : Instant) :
    Spares (fun k => k = key ∨ ¬ (c.disabled ∨ expiration = .ttl 0) ∧
        s.victim? key c.capacity now = some k) s
      (s.insertWithExpiration c key value expiration now).2 := by
  unfold CacheInner.insertWithExpiration
  split
  · exact (remove _ _).mono fun _ => .inl
  · rename_i hstores
    exact (put value expiration).mono fun k hk => hk.imp id fun hv => ⟨hstores, hv⟩

theorem publishLoad (c : CacheConfig) (load : CacheLoad K V) (value : Option V) (now : Instant) :
    Spares (fun k => k = load.key ∨ value.isSome ∧ (s.publishLoad c load value now).1 = .stored ∧
        s.victim? load.key c.capacity now = some k) s (s.publishLoad c load value now).2 := by
  have hstore : ∀ expiration, Spares (fun k => k = load.key ∨ value.isSome ∧
      LoadPublication.stored = .stored ∧ s.victim? load.key c.capacity now = some k) s
      (s.store c load.key value expiration now) := by
    intro expiration
    cases value with
    | none => exact (remove _ _).mono fun _ => .inl
    | some value => exact (put value expiration).mono fun k hk => hk.imp id fun hv => ⟨rfl, rfl, hv⟩
  unfold CacheInner.publishLoad
  split
  · exact .refl
  · split
    · exact hstore _
    · split
      · exact .refl
      · split
        · exact .refl
        · split
          · exact .refl
          · exact hstore _

/-- Expiry removes only entries without a load. -/
theorem discardExpired : Spares (fun _ => False) s (s.discardExpired key) := by
  unfold CacheInner.discardExpired
  split
  · exact .refl
  · rename_i hnone
    have hremove := remove s key
    refine ⟨hremove.loads, hremove.nextLease, fun l hl => (hremove.cancelled l hl).imp id ?_⟩
    rintro ⟨k, rfl, hget⟩
    exact absurd (by rw [contains, hget]; rfl) hnone

theorem inspectEntry (c : CacheConfig) (now : Instant) :
    Spares (fun _ => False) s (s.inspectEntry c key now).2 := by
  have hback : Spares (fun _ => False) s { s with entries := s.entries.toBack key } :=
    ⟨rfl, rfl, fun _ h => .inl h⟩
  unfold CacheInner.inspectEntry
  split
  · exact .refl
  · split
    · exact .refl
    · dsimp only
      split
      · exact hback.trans discardExpired fun _ h => h
      · exact hback

end Spares

/-- What a preparation does to the loads. -/
theorem prepareLoad_spec (s : CacheInner K V) (key : K) (intent : LoadIntent V) (now : Instant) :
    (∀ load, (s.prepareLoad key intent now).1 ≠ .fetch load) ∧
        Spares (fun _ => False) s (s.prepareLoad key intent now).2 ∨
      ∃ s₁, Spares (fun _ => False) s s₁ ∧ s.prepareLoad key intent now = s₁.startLoad key intent := by
  have hback : Spares (fun _ => False) s { s with entries := s.entries.toBack key } :=
    ⟨rfl, rfl, fun _ h => .inl h⟩
  unfold prepareLoad
  cases intent with
  | cold =>
    dsimp only
    split
    · exact .inl ⟨fun _ h => (by cases h), hback⟩
    · exact .inr ⟨_, hback, rfl⟩
  | refresh expected =>
    dsimp only
    split
    · exact .inr ⟨s, .refl, rfl⟩
    · exact .inl ⟨fun _ h => (by cases h), .refl⟩

theorem startLoad_leased (hs : s.Leased) (intent : LoadIntent V) :
    (s.startLoad key intent).2.Leased where
  loads k l hk := by
    rw [startLoad, get?_insert] at hk
    split at hk
    · cases hk
      exact lt_succ_self _
    · exact lt_succ_of_lt (hs.loads k l hk)
  cancelled l hl := lt_succ_of_lt (hs.cancelled l hl)
  distinct k k' l hk hk' := by
    rw [startLoad, get?_insert] at hk hk'
    split at hk <;> split at hk'
    · simp_all
    · cases hk
      exact absurd (hs.loads k' _ hk') (lt_irrefl _)
    · cases hk'
      exact absurd (hs.loads k _ hk) (lt_irrefl _)
    · exact hs.distinct k k' l hk hk'

theorem startLoad_current (hk : k ≠ key) (intent : LoadIntent V)
    (hc : s.isCurrentLoad k l = true) : (s.startLoad key intent).2.isCurrentLoad k l = true := by
  rw [isCurrentLoad_iff] at hc ⊢
  exact ⟨hc.1, by rw [startLoad, get?_insert, if_neg hk, hc.2]⟩

theorem startLoad_self (hs : s.Leased) (intent : LoadIntent V) :
    (s.startLoad key intent).2.isCurrentLoad key s.nextLease = true := by
  refine isCurrentLoad_iff.mpr ⟨?_, get?_insert.trans (if_pos rfl)⟩
  by_contra h
  exact lt_irrefl _ (hs.cancelled _ (Bool.eq_true_of_not_eq_false h))

theorem finishLoad_leased (hs : s.Leased) (load : CacheLoad K V) : (s.finishLoad load).Leased := by
  have herase : ∀ k l, (s.loads.erase load.key).get? k = some l → s.loads.get? k = some l := by
    intro k l hk
    rw [get?_erase] at hk
    split at hk
    · cases hk
    · exact hk
  unfold finishLoad
  split
  · exact ⟨fun k l hk => hs.loads k l (herase k l hk), hs.cancelled,
      fun k k' l hk hk' => hs.distinct k k' l (herase k l hk) (herase k' l hk')⟩
  · exact hs

theorem finishLoad_current {load : CacheLoad K V} (hk : k ≠ load.key)
    (hc : s.isCurrentLoad k l = true) : (s.finishLoad load).isCurrentLoad k l = true := by
  unfold finishLoad
  split
  · rw [isCurrentLoad_iff] at hc ⊢
    exact ⟨hc.1, by rw [get?_erase, if_neg hk, hc.2]⟩
  · exact hc

end CacheInner

variable {τ V E : Type} [DecidableEq τ] {since : τ → Nat}

/-! ## Runs with the times of the preparations -/

/-- A state with the time at which each task prepared its load. -/
structure Watched (τ K V E : Type) where
  state : State τ K V E
  since : τ → Nat

namespace Watched

def new : Watched τ K V E := ⟨.new, fun _ => 0⟩

/-- The task prepares its load in this step. -/
def prepares (s : State τ K V E) : Turn τ K V E → τ → Bool
  | .advance t _, u => t = u && match s.phase t with
    | .leading _ _ (.preparing _) => true
    | _ => false
  | _, _ => false

def step (L : Loader E) (w : Watched τ K V E) (a : Turn τ K V E) : Option (Watched τ K V E) :=
  (w.state.step L a).map fun s' =>
    ⟨s', fun t => if prepares w.state a t then w.state.time else w.since t⟩

/-- A cold load of the key is under way, and current. -/
def Cold (s : State τ K V E) (key : K) : Prop :=
  ∃ t channel stage load, s.phase t = .leading key channel stage ∧ stage.load? = some load ∧
    load.intent = .cold ∧ s.inner.isCurrentLoad key load.lease = true

/-- No entry is evicted whose key has a current cold load, be it by an insertion or by a publication
that stores. -/
def Orderly (L : Loader E) (w : Watched τ K V E) : Turn τ K V E → Prop
  | .insert key _ expiration now => ¬ (L.config.disabled ∨ expiration = .ttl 0) →
    ∀ victim, w.state.inner.victim? key L.config.capacity now = some victim →
      ¬ Cold w.state victim
  | .advance t i => ∀ key channel load value began,
    w.state.phase t = .leading key channel (.fetched load (some value) began) →
    (w.state.inner.publishLoad L.config load (some (value, .fetch began)) i.now).1 = .stored →
    ∀ victim, w.state.inner.victim? load.key L.config.capacity i.now = some victim →
      ¬ Cold w.state victim
  | _ => True

/-- The load has been cancelled, or would not be published. -/
def Lost (L : Loader E) (s : State τ K V E) (load : CacheLoad K (V × Source)) : Prop :=
  s.inner.cancelled load.lease = true ∨
    ∃ value now, (s.inner.publishLoad L.config load value now).1 = .cancelled

/-- Every cold load that is lost is of a key that was inserted or removed after its preparation. -/
def Spared (L : Loader E) (w : Watched τ K V E) : Prop :=
  ∀ t key channel stage load, w.state.phase t = .leading key channel stage →
    stage.load? = some load → load.intent = .cold → Lost L w.state load →
    ∃ change ∈ w.state.changes key, w.since t ≤ change

/-- The task leads the flight of the key, and its cold load is current unless the key was changed. -/
structure Leads (w : Watched τ K V E) (t : τ) (key : K) (channel : Nat) (stage : Stage K V E) :
    Prop where
  table : w.state.flights.get? key = some channel
  bound : channel < w.state.channels.length
  held : ∀ load, stage.held? = some load → load.key = key
  cold : ∀ load, stage.load? = some load → load.intent = .cold →
    w.state.inner.isCurrentLoad key load.lease = true ∨
      ∃ change ∈ w.state.changes key, w.since t ≤ change

structure Inv (w : Watched τ K V E) : Prop where
  leads : ∀ t key channel stage, w.state.phase t = .leading key channel stage →
    w.Leads t key channel stage
  sole : ∀ t t' key key' channel stage stage', w.state.phase t = .leading key channel stage →
    w.state.phase t' = .leading key' channel stage' → t = t'
  leased : w.state.inner.Leased
  since : ∀ t, w.since t ≤ w.state.time

/-- What a step keeps for these tasks before it sets its own phase. -/
structure Rest (s r : State τ K V E) (others : τ → Prop) : Prop where
  phase : r.phase = s.phase
  table : ∀ u key channel stage, others u → s.phase u = .leading key channel stage →
    r.flights.get? key = some channel
  channels : s.channels.length ≤ r.channels.length
  changes : r.changes = s.changes

namespace Inv

variable {L : Loader E} {w w' : Watched τ K V E} {t : τ} {channel : Nat} {key : K}
  {r : State τ K V E} {stage stage' : Stage K V E} {i : Input V E} {load : CacheLoad K (V × Source)}

section

omit [DecidableEq τ]

theorem new : Inv (new : Watched τ K V E) where
  leads _ _ _ _ h := by cases h
  sole _ _ _ _ _ _ _ h := by cases h
  leased := ⟨fun _ _ h => (by cases h), fun _ h => (by cases h), fun _ _ _ h => (by cases h)⟩
  since _ := le_refl _

/-- Two leaders have two keys. -/
theorem ne_key (hi : w.Inv) {u : τ} {key key' : K} {channel channel' : Nat} {stage stage' : Stage K V E}
    (ht : w.state.phase t = .leading key channel stage)
    (hu : w.state.phase u = .leading key' channel' stage') (hne : u ≠ t) : key' ≠ key := by
  rintro rfl
  have htable := (hi.leads _ _ _ _ ht).table.symm.trans (hi.leads _ _ _ _ hu).table
  cases htable
  exact hne (hi.sole _ _ _ _ _ _ _ hu ht)

theorem rest (hi : w.Inv) {others : τ → Prop} (hphase : r.phase = w.state.phase)
    (hflights : r.flights = w.state.flights)
    (hchannels : w.state.channels.length ≤ r.channels.length)
    (hchanges : r.changes = w.state.changes) : Rest w.state r others :=
  ⟨hphase, fun u _ _ _ _ hu => hflights ▸ (hi.leads u _ _ _ hu).table, hchannels, hchanges⟩

theorem spared (hi : w.Inv) : w.Spared L := by
  intro t key channel stage load hp hload hcold hlost
  have hleads := hi.leads t key channel stage hp
  have hkey := hleads.held load (Stage.held_of_load hload)
  refine (hleads.cold load hload hcold).resolve_left fun hc => ?_
  rcases hlost with hdead | ⟨value, now, hpublish⟩
  · rw [isCurrentLoad_iff, hdead] at hc
    cases hc.1
  · unfold publishLoad at hpublish
    rw [hkey, hc, hcold, if_neg (by simp)] at hpublish
    cases hpublish

end

/-- A step of one task, from what it does to the table, to the loads of the others and to its own
phase. -/
theorem goto (hi : w.Inv) (p : Phase K V E) (hrest : Rest w.state r (· ≠ t))
    (hleased : r.inner.Leased)
    (hcurrent : ∀ u key channel stage load, u ≠ t → w.state.phase u = .leading key channel stage →
      stage.load? = some load → load.intent = .cold →
      w.state.inner.isCurrentLoad key load.lease = true →
      r.inner.isCurrentLoad key load.lease = true)
    (hsince : ∀ u, u ≠ t → since u = w.since u) (htime : ∀ u, since u ≤ w.state.time)
    (hown : ∀ key channel stage, p = .leading key channel stage →
      Leads ⟨r, since⟩ t key channel stage ∧ ∀ u key' stage', u ≠ t →
        w.state.phase u ≠ .leading key' channel stage') :
    Inv ⟨{ r.goto t p with time := w.state.time + 1 }, since⟩ := by
  have hself : (r.goto t p).phase t = p := update_self ..
  have hother : ∀ u, u ≠ t → (r.goto t p).phase u = w.state.phase u := fun u hu =>
    (update_of_ne hu _ _).trans (congrFun hrest.phase u)
  refine ⟨fun u key channel stage hp => ?_, fun u u' key key' channel stage stage' hp hp' => ?_,
    hleased, fun u => le_succ_of_le (htime u)⟩
  · change (r.goto t p).phase u = _ at hp
    by_cases hu : u = t
    · subst hu
      have hleads := (hown key channel stage (hself.symm.trans hp)).1
      exact ⟨hleads.table, hleads.bound, hleads.held, hleads.cold⟩
    · rw [hother u hu] at hp
      have hleads := hi.leads u key channel stage hp
      refine ⟨hrest.table u _ _ _ hu hp, hleads.bound.trans_le hrest.channels, hleads.held,
        fun load hload hc => (hleads.cold load hload hc).imp (hcurrent u _ _ _ load hu hp hload hc) ?_⟩
      change _ → ∃ change ∈ r.changes key, since u ≤ change
      rw [hsince u hu, hrest.changes]
      exact id
  · change (r.goto t p).phase u = _ at hp
    change (r.goto t p).phase u' = _ at hp'
    by_cases hu : u = t <;> by_cases hu' : u' = t
    · rw [hu, hu']
    · subst hu
      rw [hother u' hu'] at hp'
      exact absurd hp' ((hown _ _ _ (hself.symm.trans hp)).2 u' _ _ hu')
    · subst hu'
      rw [hother u hu] at hp
      exact absurd hp ((hown _ _ _ (hself.symm.trans hp')).2 u _ _ hu)
    · rw [hother u hu] at hp
      rw [hother u' hu'] at hp'
      exact hi.sole _ _ _ _ _ _ _ hp hp'

/-- A step after which the task leads no flight. -/
theorem leave (hi : w.Inv) (p : Phase K V E)
    (hp : ∀ key channel stage, p ≠ .leading key channel stage) (hrest : Rest w.state r (· ≠ t))
    (hspares : Spares (fun _ => False) w.state.inner r.inner) :
    Inv ⟨{ r.goto t p with time := w.state.time + 1 }, w.since⟩ :=
  hi.goto p hrest (hspares.leased hi.leased)
    (fun _ _ _ _ _ _ _ _ _ hc => hspares.current hi.leased id hc) (fun _ _ => rfl) hi.since
    fun key channel stage h => absurd h (hp key channel stage)

/-- A step of a leader. -/
theorem lead (hi : w.Inv) (hp : w.state.phase t = .leading key channel stage)
    (hrest : Rest w.state r fun _ => True) (hleased : r.inner.Leased)
    (hcurrent : ∀ k lease, k ≠ key → Cold w.state k →
      w.state.inner.isCurrentLoad k lease = true → r.inner.isCurrentLoad k lease = true)
    (hsince : ∀ u, u ≠ t → since u = w.since u) (htime : ∀ u, since u ≤ w.state.time)
    (hheld : ∀ load, stage'.held? = some load → load.key = key)
    (hcold : ∀ load, stage'.load? = some load → load.intent = .cold →
      r.inner.isCurrentLoad key load.lease = true ∨
        ∃ change ∈ w.state.changes key, since t ≤ change) :
    Inv ⟨{ r.goto t (.leading key channel stage') with time := w.state.time + 1 }, since⟩ := by
  have htable := fun u key channel stage => hrest.table u key channel stage trivial
  refine hi.goto _ ⟨hrest.phase, fun u _ _ _ _ => htable u _ _ _, hrest.channels, hrest.changes⟩
    hleased (fun u k _ _ load hne hu hl hc hlive => hcurrent k load.lease (hi.ne_key hp hu hne)
      ⟨u, _, _, load, hu, hl, hc, hlive⟩ hlive) hsince htime fun key' channel' stage'' h => ?_
  cases h
  refine ⟨⟨htable t _ _ _ hp, (hi.leads t _ _ _ hp).bound.trans_le hrest.channels, hheld, ?_⟩,
    fun u key' _ hne hu => hne (hi.sole _ _ _ _ _ _ _ hu hp)⟩
  rw [hrest.changes]
  exact hcold

/-- A leader goes on with the load that it has, or with none. -/
theorem keep (hi : w.Inv) (hp : w.state.phase t = .leading key channel stage)
    (hrest : Rest w.state r fun _ => True) (hinner : r.inner = w.state.inner)
    (hheld : ∀ load, stage'.held? = some load → stage.held? = some load)
    (hload : ∀ load, stage'.load? = some load → stage.load? = some load) :
    Inv ⟨{ r.goto t (.leading key channel stage') with time := w.state.time + 1 }, w.since⟩ :=
  have hleads := hi.leads t key channel stage hp
  hi.lead hp hrest (hinner ▸ hi.leased) (fun _ _ _ _ hc => hinner ▸ hc) (fun _ _ => rfl) hi.since
    (fun load hl => hleads.held load (hheld load hl))
    fun load hl => hinner ▸ hleads.cold load (hload load hl)

omit [DecidableEq τ] in
/-- The caller changes a key. -/
theorem change (hi : w.Inv) {gone : K → Prop} {inner : CacheInner K (V × Source)}
    (hspares : w.state.inner.Spares gone inner) (hgone : ∀ k, gone k → k = key ∨ ¬ Cold w.state k) :
    Inv ⟨{ w.state.change key inner with time := w.state.time + 1 }, w.since⟩ where
  leads u k channel stage hp := by
    have hleads := hi.leads u k channel stage hp
    refine ⟨hleads.table, hleads.bound, hleads.held, fun load hload hc => ?_⟩
    change inner.isCurrentLoad k load.lease = true ∨
      ∃ c ∈ update w.state.changes key (w.state.time :: w.state.changes key) k, w.since u ≤ c
    by_cases hk : k = key
    · subst hk
      rw [update_self]
      exact .inr ⟨w.state.time, List.mem_cons_self, hi.since u⟩
    · rw [update_of_ne hk]
      refine (hleads.cold load hload hc).imp
        (fun hlive => hspares.current hi.leased (fun hg => ?_) hlive) id
      exact (hgone k hg).elim hk (absurd ⟨u, channel, stage, load, hp, hload, hc, hlive⟩)
  sole := hi.sole
  leased := hspares.leased hi.leased
  since u := le_succ_of_le (hi.since u)

omit [DecidableEq K] in
theorem since_eq
    (h : ∀ key channel intent, w.state.phase t ≠ .leading key channel (.preparing intent)) :
    (fun u => if prepares w.state (.advance t i) u then w.state.time else w.since u) = w.since := by
  funext u
  have hnot : prepares w.state (.advance t i) u = false := by
    simp only [prepares]
    cases hp : w.state.phase t with
    | leading key channel stage =>
      cases stage with
      | preparing intent => exact absurd hp (h key channel intent)
      | _ => simp
    | _ => simp
  rw [hnot, if_neg Bool.false_ne_true]

/-- A leader drops its load. -/
theorem finish (hi : w.Inv) (hp : w.state.phase t = .leading key channel stage)
    (hheld : stage.held? = some load) (hnone : stage'.held? = none) :
    Inv ⟨{ w.state.finish t key channel load stage' with time := w.state.time + 1 }, w.since⟩ :=
  have hkey := (hi.leads t key channel stage hp).held load hheld
  hi.lead hp (r := { w.state with inner := w.state.inner.finishLoad load })
    (hi.rest rfl rfl le_rfl rfl) (finishLoad_leased hi.leased load)
    (fun k _ hk _ hc => finishLoad_current (hkey ▸ hk) hc) (fun _ _ => rfl) hi.since
    (fun _ h => by rw [hnone] at h; cases h)
    fun _ h => by rw [Stage.held_of_load h] at hnone; cases hnone

theorem unregister (hi : w.Inv) {stage : Stage K V E}
    (hp : w.state.phase t = .leading key channel stage) (p : Phase K V E)
    (hleft : ∀ key channel stage, p ≠ .leading key channel stage) :
    Inv ⟨{ w.state.unregister t key channel p with time := w.state.time + 1 }, w.since⟩ := by
  refine hi.leave p hleft ⟨rfl, fun u key' channel' stage' hne hu => ?_, ?_, rfl⟩ .refl
  · rw [get?_erase, if_neg (hi.ne_key hp hu hne)]
    exact (hi.leads u _ _ _ hu).table
  · exact (List.length_modify ..).ge

theorem prepare (hi : w.Inv) {intent : LoadIntent (V × Source)}
    (hp : w.state.phase t = .leading key channel (.preparing intent)) (i : Input V E) :
    Inv ⟨{ w.state.prepare L t key channel intent i.now with time := w.state.time + 1 },
      fun u => if prepares w.state (.advance t i) u then w.state.time else w.since u⟩ := by
  have hsince : ∀ u, u ≠ t →
      (if prepares w.state (.advance t i) u then w.state.time else w.since u) = w.since u := by
    intro u hu
    rw [if_neg]
    simp [prepares, hu.symm]
  have htime : ∀ u, (if prepares w.state (.advance t i) u then w.state.time else w.since u) ≤
      w.state.time := by
    intro u
    split
    · exact le_rfl
    · exact hi.since u
  obtain ⟨hnone, hspares⟩ | ⟨s₁, hspares, heq⟩ :=
    w.state.inner.prepareLoad_spec key intent i.now
  · refine hi.lead hp (r := { w.state with inner := (w.state.inner.prepareLoad key intent i.now).2 })
      (hi.rest rfl rfl le_rfl rfl) (hspares.leased hi.leased)
      (fun _ _ _ _ hc => hspares.current hi.leased id hc) hsince htime ?_ ?_
    all_goals
      intro load hl
      generalize (w.state.inner.prepareLoad key intent i.now).1 = r at hnone hl
      cases r <;> first | exact absurd rfl (hnone _) | cases hl
  · refine hi.lead hp (r := { w.state with inner := (w.state.inner.prepareLoad key intent i.now).2 })
      (hi.rest rfl rfl le_rfl rfl) ?_ (fun k lease hk _ hc => ?_) hsince htime (fun load hl => ?_)
      fun load hl _ => .inl ?_
    · rw [heq]
      exact startLoad_leased (hspares.leased hi.leased) intent
    · rw [heq]
      exact startLoad_current hk intent (hspares.current hi.leased id hc)
    · rw [heq] at hl
      cases hl
      rfl
    · rw [heq] at hl ⊢
      cases hl
      exact startLoad_self (hspares.leased hi.leased) intent

/-- A publication may evict entries, but none with a current cold load. -/
theorem publish (hi : w.Inv) (hok : w.Orderly L (.advance t i)) {value : Option V} {began : Nat}
    (hp : w.state.phase t = .leading key channel (.fetched load value began)) :
    Inv ⟨{ w.state.publish L t key channel load value began i.now with time := w.state.time + 1 },
      w.since⟩ := by
  have hspares := Spares.publishLoad (s := w.state.inner) L.config load
    (value.map (·, Source.fetch began)) i.now
  have hkey := (hi.leads t key channel _ hp).held load rfl
  refine hi.lead hp (r := { w.state with
      inner := (w.state.inner.publishLoad L.config load (value.map (·, .fetch began)) i.now).2 })
    (hi.rest rfl rfl le_rfl rfl) (hspares.leased hi.leased) (fun k lease hk hcold hc => ?_)
    (fun _ _ => rfl) hi.since (fun _ h => by cases h; exact hkey) fun _ h => by cases h
  refine hspares.current hi.leased ?_ hc
  rintro (hk' | ⟨hsome, hstored, hvictim⟩)
  · exact hk (hk'.trans hkey)
  · cases value with
    | none => cases hsome
    | some value => exact hok key channel load value began hp hstored k hvictim hcold

theorem advanceLeader (hi : w.Inv) (hok : w.Orderly L (.advance t i))
    {stage : Stage K V E} (hp : w.state.phase t = .leading key channel stage)
    (hstage : ∀ intent, stage ≠ .preparing intent) {s₁ : State τ K V E}
    (h : w.state.advance L t i = some s₁) :
    Inv ⟨{ s₁ with time := w.state.time + 1 }, w.since⟩ := by
  simp only [State.advance, hp] at h
  cases stage with
  | preparing intent => exact absurd rfl (hstage intent)
  | prepared load =>
    obtain rfl := some.inj h
    exact hi.keep hp (hi.rest rfl rfl le_rfl rfl) rfl (fun _ h => h) fun _ h => h
  | fetching load began =>
    simp only [State.select] at h
    split at h
    · obtain rfl := some.inj h
      exact hi.keep hp (hi.rest rfl rfl le_rfl rfl) rfl (fun _ h => h) fun _ h => h
    · obtain rfl := some.inj h
      exact hi.keep hp (hi.rest rfl rfl le_rfl rfl) rfl (fun _ h => h) fun _ h => by cases h
    · split at h
      · obtain rfl := some.inj h
        exact hi.keep hp (hi.rest rfl rfl le_rfl rfl) rfl (fun _ h => h) fun _ h => by cases h
      · cases h
  | fetched load value began =>
    obtain rfl := some.inj h
    exact hi.publish hok hp
  | landed load outcome =>
    obtain rfl := some.inj h
    exact hi.finish hp rfl rfl
  | sending outcome =>
    obtain rfl := some.inj h
    exact hi.keep hp (hi.rest rfl rfl (List.length_modify ..).ge rfl) rfl (fun _ h => by cases h)
      fun _ h => by cases h
  | sent outcome =>
    obtain rfl := some.inj h
    exact hi.unregister hp _ (by simp)
  | aborting load =>
    obtain rfl := some.inj h
    exact hi.finish hp rfl rfl
  | aborted =>
    obtain rfl := some.inj h
    exact hi.unregister hp _ (by simp)

/-- A task starts a flight of a key that has none. -/
theorem register (hi : w.Inv) (intent : LoadIntent (V × Source))
    (hnone : w.state.flights.get? key = none) :
    Inv ⟨{ State.goto { w.state with
      flights := w.state.flights.insert key w.state.channels.length
      channels := w.state.channels ++ [Flight.new key] } t
        (.leading key w.state.channels.length (.preparing intent)) with
      time := w.state.time + 1 }, w.since⟩ := by
  refine hi.goto _ ⟨rfl, fun u key' channel stage _ hu => ?_, by simp, rfl⟩ hi.leased
    (fun _ _ _ _ _ _ _ _ _ hc => hc) (fun _ _ => rfl) hi.since fun key' channel stage h => ?_
  · have htable := (hi.leads u key' channel stage hu).table
    rw [get?_insert, if_neg]
    · exact htable
    · rintro rfl
      rw [hnone] at htable
      cases htable
  · cases h
    refine ⟨⟨get?_insert.trans (if_pos rfl), by simp, (by simp [Stage.held?]),
      (by simp [Stage.load?])⟩, fun u key' stage' _ hu => ?_⟩
    exact lt_irrefl _ (hi.leads u _ _ _ hu).bound

theorem advance (hi : w.Inv) (hok : w.Orderly L (.advance t i)) {s₁ : State τ K V E}
    (h : w.state.advance L t i = some s₁) :
    Inv ⟨{ s₁ with time := w.state.time + 1 },
      fun u => if prepares w.state (.advance t i) u then w.state.time else w.since u⟩ := by
  have hleave : ∀ (p : Phase K V E) (n : Nat), (∀ key channel stage, p ≠ .leading key channel stage) →
      Inv ⟨{ State.goto { w.state with waiters := n } t p with time := w.state.time + 1 }, w.since⟩ :=
    fun p n hp => hi.leave p hp (hi.rest rfl rfl le_rfl rfl) .refl
  by_cases hpreparing : ∃ key channel intent, w.state.phase t = .leading key channel (.preparing intent)
  · obtain ⟨key, channel, intent, hp⟩ := hpreparing
    simp only [State.advance, hp] at h
    obtain rfl := some.inj h
    exact hi.prepare hp i
  rw [since_eq fun key channel intent hp => hpreparing ⟨key, channel, intent, hp⟩]
  cases hp : w.state.phase t with
  | idle => simp only [State.advance, hp] at h; cases h
  | returned key outcome => simp only [State.advance, hp] at h; cases h
  | inspecting key =>
    simp only [State.advance, hp] at h
    obtain rfl := some.inj h
    refine hi.leave (L.inspected key _) (fun _ _ _ => ?_) (hi.rest rfl rfl le_rfl rfl)
      (Spares.inspectEntry L.config i.now)
    unfold Loader.inspected
    split <;> try split_ifs
    all_goals simp
  | admitting key intent =>
    simp only [State.advance, hp] at h
    obtain rfl := some.inj h
    unfold State.admitLoad
    split
    · split
      · exact hleave _ _ (by simp)
      · exact hleave _ w.state.waiters (by simp)
    · rename_i hnone
      split
      · exact hleave _ w.state.waiters (by simp)
      · exact hi.register intent hnone
  | direct key =>
    simp only [State.advance, hp] at h
    obtain rfl := some.inj h
    exact hleave _ w.state.waiters (by simp)
  | fetchingDirectly key began =>
    simp only [State.advance, hp] at h
    obtain ⟨result, -, rfl⟩ := map_eq_some_iff.mp h
    exact hleave _ w.state.waiters (by simp)
  | waiting key channel =>
    simp only [State.advance, hp] at h
    obtain ⟨flight, -, h⟩ := bind_eq_some_iff.mp h
    split at h
    · obtain rfl := some.inj h
      exact hleave _ _ (by simp)
    · split at h
      · obtain rfl := some.inj h
        exact hleave _ _ (by simp)
      · cases h
  | leading key channel stage =>
    exact hi.advanceLeader hok hp (fun intent hs => hpreparing ⟨key, channel, intent, hs ▸ hp⟩) h

theorem step (hi : w.Inv) {a : Turn τ K V E} (hok : w.Orderly L a) (h : w.step L a = some w') :
    w'.Inv := by
  obtain ⟨s', hs', rfl⟩ := map_eq_some_iff.mp h
  obtain ⟨s₁, happly, rfl⟩ := map_eq_some_iff.mp hs'
  have hcall : ∀ t p, (∀ key channel stage, p ≠ .leading key channel stage) →
      w.state.call t p = some s₁ → Inv ⟨{ s₁ with time := w.state.time + 1 }, w.since⟩ := by
    intro t p hp h
    unfold State.call at h
    split at h
    · obtain rfl := some.inj h
      exact hi.leave p hp (hi.rest rfl rfl le_rfl rfl) .refl
    · obtain rfl := some.inj h
      exact hi.leave p hp (hi.rest rfl rfl le_rfl rfl) .refl
    · cases h
  cases a with
  | insert key value expiration now =>
    obtain rfl := some.inj happly
    refine hi.change (Spares.insertWithExpiration L.config _ expiration now)
      fun k hk => hk.imp id fun ⟨hstores, hvictim⟩ => hok hstores k hvictim
  | remove key =>
    obtain rfl := some.inj happly
    exact hi.change (Spares.remove _ key) fun k hk => .inl hk
  | getOrFetch t key => exact hcall t _ (by simp) happly
  | refresh t key expected => exact hcall t _ (by simp) happly
  | advance t i => exact hi.advance hok happly
  | abandon t =>
    change w.state.abandon t = some s₁ at happly
    unfold State.abandon at happly
    split at happly
    · obtain rfl := some.inj happly
      exact hi.leave (r := w.state) _ (by simp) (hi.rest rfl rfl le_rfl rfl) .refl
    · obtain rfl := some.inj happly
      exact hi.leave (r := { w.state with waiters := _ }) _ (by simp) (hi.rest rfl rfl le_rfl rfl) .refl
    · rename_i key channel load began hp
      obtain rfl := some.inj happly
      exact hi.keep hp (hi.rest rfl rfl le_rfl rfl) rfl (fun _ h => h) fun _ h => by cases h
    · cases happly

end Inv

/-- In every run in which no entry is evicted whose key has a current cold load, a cold load that is
lost is of a key that was inserted or removed after the load was prepared. -/
theorem cold_reads_spared (L : Loader E) {w : Watched τ K V E}
    (h : Run (fun w a w' => w.step L a = some w') (Orderly L) new w) : w.Spared L :=
  (h.invariant (fun _ _ _ hi hok hst => hi.step hok hst) Inv.new).spared

namespace Sample

local instance neZero_tasks : NeZero 2 := ⟨by decide⟩

def loader : Loader LoadUnavailable := ⟨{ capacity := 1, expiration := .ttl 10 }, id⟩

/-- The task has a cold load whose lease is cancelled. -/
def cancelledLoad (w : Watched (Fin 2) (Fin 2) Char LoadUnavailable) (t : Fin 2) : Bool :=
  match w.state.phase t with
  | .leading key _ stage => stage.load?.any fun load => key = 0 && load.intent matches .cold &&
    w.state.inner.cancelled load.lease
  | _ => false

theorem cancelledLoad_spec {w : Watched (Fin 2) (Fin 2) Char LoadUnavailable} {t : Fin 2}
    (h : cancelledLoad w t = true) : ∃ channel stage load, w.state.phase t = .leading 0 channel stage ∧
      stage.load? = some load ∧ load.intent = .cold ∧ w.state.inner.cancelled load.lease = true := by
  unfold cancelledLoad at h
  split at h
  · rename_i key channel stage hp
    obtain ⟨load, hload, h⟩ := (any_eq_true _ _).mp h
    simp only [Bool.and_eq_true, decide_eq_true_eq] at h
    obtain ⟨⟨rfl, hcold⟩, hdead⟩ := h
    refine ⟨channel, stage, load, hp, hload, ?_, hdead⟩
    cases hintent : load.intent with
    | cold => rfl
    | refresh entry => rw [hintent] at hcold; cases hcold
  · cases h

/-- A cold load of a key that is inserted while it is under way. -/
def insertedMeanwhile : List (Turn (Fin 2) (Fin 2) Char LoadUnavailable) :=
  [.getOrFetch 0 0, .advance 0 ⟨0, none⟩, .advance 0 ⟨0, none⟩, .advance 0 ⟨0, none⟩,
    .insert 0 'a' (.ttl 10) 1]

/-- A refresh of the key keeps its expired entry in place until a cold read of the key has seen it. The
cold load then starts over that entry, and the insertion of another key evicts it. -/
def evictedMeanwhile : List (Turn (Fin 2) (Fin 2) Char LoadUnavailable) :=
  [.insert 0 'a' (.ttl 10) 0, .refresh 1 0 (.new 0 ('a', .caller) (.ttl 10) 0),
    .advance 1 ⟨0, none⟩, .advance 1 ⟨5, none⟩, .getOrFetch 0 0, .advance 0 ⟨20, none⟩,
    .advance 1 ⟨20, none⟩, .advance 1 ⟨20, some (.ok (some 'c'))⟩, .advance 1 ⟨21, none⟩,
    .advance 1 ⟨21, none⟩, .advance 1 ⟨21, none⟩, .advance 1 ⟨21, none⟩,
    .advance 0 ⟨21, none⟩, .advance 0 ⟨22, none⟩, .insert 1 'b' (.ttl 10) 23]

/-- Nothing is evicted and nothing is published. -/
def still (w : Watched (Fin 2) (Fin 2) Char LoadUnavailable) :
    Turn (Fin 2) (Fin 2) Char LoadUnavailable → Bool
  | .insert key _ _ now => (w.state.inner.victim? key loader.config.capacity now).isNone
  | .advance t _ => !(w.state.phase t matches .leading _ _ (.fetched _ _ _))
  | _ => true

theorem orderly_of_still {w : Watched (Fin 2) (Fin 2) Char LoadUnavailable}
    {a : Turn (Fin 2) (Fin 2) Char LoadUnavailable} (h : still w a = true) : w.Orderly loader a := by
  cases a with
  | insert key value expiration now =>
    intro _ victim hvictim
    rw [still, hvictim] at h
    cases h
  | advance t i =>
    intro key channel load value began hp
    rw [still, hp] at h
    cases h
  | _ => trivial

end Sample

theorem cold_reads_spared_inserted : ∃ w : Watched (Fin 2) (Fin 2) Char LoadUnavailable,
    (∃ channel stage load, w.state.phase 0 = .leading 0 channel stage ∧ stage.load? = some load ∧
      Lost Sample.loader w.state load) ∧
    ∃ change ∈ w.state.changes 0, w.since 0 ≤ change := by
  have h : (Run.script (step Sample.loader) (fun w a => Sample.still w a = true) new
      Sample.insertedMeanwhile).any (Sample.cancelledLoad · 0) = true := by decide +kernel
  obtain ⟨w, hw, hdead⟩ := Run.ofScript h
  obtain ⟨channel, stage, load, hp, hload, hcold, hdead⟩ := Sample.cancelledLoad_spec hdead
  exact ⟨w, ⟨channel, stage, load, hp, hload, .inl hdead⟩,
    cold_reads_spared Sample.loader (hw.mono fun _ _ => Sample.orderly_of_still)
      0 0 channel stage load hp hload hcold (.inl hdead)⟩

/-- The insertion of another key cancels a cold load. -/
theorem cold_read_cancelled_by_eviction : ∃ w : Watched (Fin 2) (Fin 2) Char LoadUnavailable,
    Run (fun w a w' => w.step Sample.loader a = some w') (fun _ _ => True) new w ∧
    ¬ w.Spared Sample.loader := by
  have h : (Run.script (step Sample.loader) (fun _ _ => True) new Sample.evictedMeanwhile).any
      (fun w => Sample.cancelledLoad w 0 && (w.state.changes 0).all (· < w.since 0)) = true := by
    decide +kernel
  obtain ⟨w, hw, h⟩ := Run.ofScript h
  obtain ⟨hdead, hbefore⟩ := Bool.and_eq_true_iff.mp h
  obtain ⟨channel, stage, load, hp, hload, hcold, hdead⟩ := Sample.cancelledLoad_spec hdead
  refine ⟨w, hw, fun hspared => ?_⟩
  obtain ⟨change, hchange, hle⟩ := hspared 0 0 channel stage load hp hload hcold (.inl hdead)
  have hlt := List.all_eq_true.mp hbefore change hchange
  exact not_lt.mpr hle (of_decide_eq_true hlt)

end Watched

end AuxCommon.Cache
