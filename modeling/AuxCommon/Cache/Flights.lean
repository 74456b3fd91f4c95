import AuxCommon.Cache.Reads

/-!
# Flights and those who wait for them

Loads of one key are shared (`shared_load.rs`). In every interleaving each flight on the table has
one leader, no two tasks lead the load of one key, and a task that waits is not forgotten: its
channel has an outcome or is closed, or its flight is on the table and the leader can go on
(`waiters_served`). The entries, the leases and the clock are not in the invariant `Served`: no step
that changes only them can break it.
-/

namespace AuxCommon.Cache

open Option Function LinkedMap

variable {τ K V E : Type}

/-- The key and the channel that a task leads. -/
def Phase.lead? : Phase K V E → Option (K × Nat)
  | .leading key channel _ => some (key, channel)
  | _ => none

/-- A subscriber of the channel has something to receive. -/
def Done (channels : List (Flight K V E)) (channel : Nat) : Prop :=
  ∃ flight, channels[channel]? = some flight ∧ (flight.outcome.isSome ∨ flight.closed)

variable [DecidableEq K]

structure Served (phase : τ → Phase K V E) (flights : LinkedMap K Nat)
    (channels : List (Flight K V E)) : Prop where
  led : ∀ key channel, flights.get? key = some channel ↔ ∃ t, (phase t).lead? = some (key, channel)
  sole : ∀ t t' key channel channel', (phase t).lead? = some (key, channel) →
    (phase t').lead? = some (key, channel') → t = t'
  bound : ∀ key channel, flights.get? key = some channel → channel < channels.length
  waits : ∀ t key channel, phase t = .waiting key channel →
    flights.get? key = some channel ∨ Done channels channel

namespace Served

variable {phase : τ → Phase K V E} {flights : LinkedMap K Nat} {channels : List (Flight K V E)}

/-- A channel gets an outcome, or is closed. -/
theorem modify (hs : Served phase flights channels) (channel : Nat) {f : Flight K V E → Flight K V E}
    (hf : ∀ flight, (f flight).outcome.isSome ∨ (f flight).closed) :
    Served phase flights (channels.modify channel f) where
  led := hs.led
  sole := hs.sole
  bound k c h := by rw [List.length_modify]; exact hs.bound k c h
  waits t k c h := by
    refine (hs.waits t k c h).imp_right fun ⟨flight, hget, hdone⟩ => ?_
    rw [Done, List.getElem?_modify, hget]
    split
    · exact ⟨_, rfl, hf _⟩
    · exact ⟨_, rfl, hdone⟩

variable [DecidableEq τ] {t : τ} {p : Phase K V E} {key : K} {channel : Nat}

/-- A step that leaves the table alone. -/
theorem goto (hs : Served phase flights channels) (hlead : p.lead? = (phase t).lead?)
    (hwait : ∀ key channel, p = .waiting key channel → flights.get? key = some channel) :
    Served (update phase t p) flights channels := by
  have hall : ∀ u, (update phase t p u).lead? = (phase u).lead? := by
    grind [update_apply]
  refine ⟨fun k c => ?_, fun u u' k c c' => ?_, hs.bound, fun u k c h => ?_⟩
  · simp only [hall]
    exact hs.led k c
  · rw [hall, hall]
    exact hs.sole u u' k c c'
  · rw [update_apply] at h
    split at h
    · exact .inl (hwait k c h)
    · exact hs.waits u k c h

theorem register (hs : Served phase flights channels) (hnone : flights.get? key = none)
    (ht : (phase t).lead? = none) (stage : Stage K V E) :
    Served (update phase t (.leading key channels.length stage))
      (flights.insert key channels.length) (channels ++ [.new key]) := by
  have hfree : ∀ u c, (phase u).lead? ≠ some (key, c) := fun u c h =>
    some_ne_none c (((hs.led key c).mpr ⟨u, h⟩).symm.trans hnone)
  refine ⟨fun k c => ?_, fun u u' k c c' => ?_, fun k c h => ?_, fun u k c h => ?_⟩
  · have := hs.led k c
    simp only [get?_insert, update_apply]
    grind [Phase.lead?]
  · have := hs.sole u u' k c c'
    simp only [update_apply]
    grind [Phase.lead?]
  · have := hs.bound k c
    rw [get?_insert] at h
    grind
  · rw [update_apply] at h
    split at h
    · cases h
    · rcases hs.waits u k c h with h | ⟨flight, hget, hdone⟩
      · rw [get?_insert]
        grind
      · exact .inr ⟨flight, by grind, hdone⟩

theorem unregister (hs : Served phase flights channels) (ht : (phase t).lead? = some (key, channel))
    (hp : p.lead? = none) (hwait : ∀ key channel, p ≠ .waiting key channel) :
    Served (update phase t p) (flights.erase key)
      (channels.modify channel ({ · with closed := true })) := by
  have hlead := (hs.led key channel).mpr ⟨t, ht⟩
  have hclosed := hs.modify channel (f := ({ · with closed := true })) fun _ => .inr rfl
  refine ⟨fun k c => ?_, fun u u' k c c' => ?_, fun k c h => ?_, fun u k c h => ?_⟩
  · have := hs.led k c
    have := hs.sole t
    simp only [get?_erase, update_apply]
    grind
  · have := hs.sole u u' k c c'
    simp only [update_apply]
    grind
  · rw [get?_erase] at h
    exact hclosed.bound k c (by grind)
  · rw [update_apply] at h
    split at h
    · exact absurd h (hwait k c)
    · rw [get?_erase]
      refine (hclosed.waits u k c h).elim (fun h => ?_) .inr
      split
      · -- those who waited for this flight see the end of its channel
        rename_i hk
        subst hk
        cases hlead.symm.trans h
        have hget := List.getElem?_eq_getElem (hs.bound k channel hlead)
        exact .inr ⟨_, by rw [List.getElem?_modify_eq, hget]; rfl, .inr rfl⟩
      · exact .inl h

end Served

namespace State

abbrev Served (s : State τ K V E) : Prop := Cache.Served s.phase s.flights s.channels

variable [DecidableEq τ] {L : Loader E} {s s' : State τ K V E} {t : τ}

theorem admitLoad_served (hs : s.Served) {key : K} (intent : LoadIntent (V × Source))
    (ht : (s.phase t).lead? = none) : (s.admitLoad L t key intent).Served := by
  unfold admitLoad
  split
  · rename_i hget
    split
    · exact hs.goto ht.symm fun _ _ h => by cases h; exact hget
    · exact hs.goto ht.symm nofun
  · rename_i hnone
    split
    · exact hs.goto ht.symm nofun
    · exact hs.register hnone ht _

theorem advance_served (hs : s.Served) {i : Input V E} (h : s.advance L t i = some s') :
    s'.Served := by
  unfold advance at h
  split at h
  case h_1 | h_2 => cases h
  case h_3 key hp =>
    cases h
    have hnext : ∀ found, (L.inspected key found : Phase K V E).lead? = none ∧
        ∀ k c, L.inspected key found ≠ .waiting k c := by
      intro found
      unfold Loader.inspected
      split
      · exact ⟨rfl, nofun⟩
      all_goals split <;> exact ⟨rfl, nofun⟩
    exact hs.goto ((hnext _).1.trans (by rw [hp]; rfl)) fun k c h => absurd h ((hnext _).2 k c)
  case h_4 key intent hp =>
    cases h
    exact admitLoad_served hs intent (by rw [hp]; rfl)
  case h_5 key hp =>
    cases h
    exact hs.goto (by rw [hp]; rfl) nofun
  case h_6 key began hp =>
    obtain ⟨result, -, rfl⟩ := map_eq_some_iff.mp h
    exact hs.goto (by rw [hp]; rfl) nofun
  case h_7 key channel hp =>
    obtain ⟨flight, -, h⟩ := bind_eq_some_iff.mp h
    split at h
    · cases h
      exact hs.goto (by rw [hp]; rfl) nofun
    · split at h
      · cases h
        exact hs.goto (by rw [hp]; rfl) nofun
      · cases h
  case h_8 key channel stage hp =>
    have hlead : some (key, channel) = (s.phase t).lead? := by rw [hp]; rfl
    cases stage with
    | fetching load began =>
      change s.select L t key channel load began i.source = some s' at h
      unfold select at h
      split at h
      · cases h; exact hs.goto hlead nofun
      · cases h; exact hs.goto hlead nofun
      · split at h
        · cases h; exact hs.goto hlead nofun
        · cases h
    | sending outcome =>
      cases h
      exact (hs.modify channel fun _ => .inl rfl).goto hlead nofun
    | sent | aborted =>
      cases h
      exact hs.unregister hlead.symm rfl nofun
    | _ =>
      cases h
      exact hs.goto hlead nofun

theorem call_served (hs : s.Served) {p : Phase K V E} (hp : p.lead? = none)
    (hwait : ∀ k c, p ≠ .waiting k c) (h : s.call t p = some s') : s'.Served := by
  unfold call at h
  split at h
  case h_3 => cases h
  all_goals
    rename_i hidle
    cases h
    exact hs.goto (by rw [hidle]; exact hp) fun k c h => absurd h (hwait k c)

theorem step_served (hs : s.Served) {a : Turn τ K V E} (h : s.step L a = some s') : s'.Served := by
  obtain ⟨s₁, happly, rfl⟩ := map_eq_some_iff.mp h
  change s₁.Served
  cases a with
  | insert | remove => cases happly; exact hs
  | getOrFetch t key => exact call_served hs (p := .inspecting key) rfl nofun happly
  | refresh t key expected =>
    exact call_served hs (p := .admitting key (.refresh expected)) rfl nofun happly
  | advance t i => exact advance_served hs happly
  | abandon t =>
    change s.abandon t = some s₁ at happly
    unfold abandon at happly
    split at happly
    case h_4 => cases happly
    all_goals
      rename_i hp
      cases happly
      exact hs.goto (by rw [hp]; rfl) nofun

/-- A leader can always go on, if the source answers. -/
theorem leader_enabled {key : K} {channel : Nat} {stage : Stage K V E}
    (h : s.phase t = .leading key channel stage) :
    ∃ i, (s.step L (.advance t i)).isSome = true := by
  refine ⟨⟨0, some (.ok none)⟩, ?_⟩
  rw [step, isSome_map, apply, advance, h]
  cases stage <;> rfl

/-- In every interleaving no two tasks lead the load of one key, and a task that waits for a load can
go on, or another task leads this very load and can go on. -/
theorem waiters_served (L : Loader E)
    (h : Run (fun s a s' => s.step L a = some s') (fun _ _ => True) new s) :
    (∀ t t' key channel channel' stage stage', s.phase t = .leading key channel stage →
      s.phase t' = .leading key channel' stage' → t = t') ∧
    ∀ t key channel, s.phase t = .waiting key channel →
      (∃ i, (s.step L (.advance t i)).isSome = true) ∨
      ∃ u stage, s.phase u = .leading key channel stage ∧
        ∃ i, (s.step L (.advance u i)).isSome = true := by
  have hs : s.Served := h.invariant (fun _ _ _ hi _ hst => step_served hi hst)
    ⟨fun _ _ => ⟨fun h => (by cases h), fun ⟨_, h⟩ => (by cases h)⟩,
      fun _ _ _ _ _ h => (by cases h), fun _ _ h => (by cases h), fun _ _ _ h => (by cases h)⟩
  refine ⟨fun t t' key channel channel' stage stage' ht ht' => ?_, fun t key channel ht => ?_⟩
  · exact hs.sole t t' key channel channel' (by rw [ht]; rfl) (by rw [ht']; rfl)
  · rcases hs.waits t key channel ht with htable | ⟨flight, hget, hdone⟩
    · obtain ⟨u, hu⟩ := (hs.led key channel).mp htable
      cases hphase : s.phase u with
      | leading key' channel' stage =>
        rw [hphase] at hu
        cases hu
        exact .inr ⟨u, stage, hphase, leader_enabled hphase⟩
      | _ => rw [hphase] at hu; cases hu
    · refine .inl ⟨⟨0, none⟩, ?_⟩
      rw [step, isSome_map, apply, advance, ht]
      change (s.receive L t key channel).isSome = true
      rw [receive, hget]
      rcases hdone with hdone | hdone <;> grind

theorem waiters_served_joined : ∃ (s : State (Fin 2) Unit Char LoadUnavailable) (channel : Nat),
    s.phase 1 = .waiting () channel ∧ ((∃ i, (s.step sampleLoader (.advance 1 i)).isSome = true) ∨
      ∃ u stage, s.phase u = .leading () channel stage ∧
        ∃ i, (s.step sampleLoader (.advance u i)).isSome = true) := by
  have hrun : (Run.script (step sampleLoader) (fun _ _ => True)
      (new : State (Fin 2) Unit Char LoadUnavailable)
      (.getOrFetch 0 () :: advances 0 'a' 2 ++ .getOrFetch 1 () :: advances 1 'a' 2)).any
      (·.phase 1 matches .waiting _ _) = true := by decide +kernel
  obtain ⟨s, hs, hp⟩ := Run.ofScript hrun
  cases hphase : s.phase 1 with
  | waiting key channel =>
    exact ⟨s, channel, hphase, (waiters_served sampleLoader hs).2 _ _ _ hphase⟩
  | _ => rw [hphase] at hp; cases hp

end State

end AuxCommon.Cache
