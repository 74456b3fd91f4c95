import AuxCommon.Cache.Publication

/-!
# What a cache makes room for

The entries of the cache stand in the order of their use, and their deadlines in an index of their
own. `Resident` says that the two agree and stay within the capacity, `victim?` names the entry that
gives way to a new key, and `World.lastUse` has the time at which each key was used last, by the
history and not by the order of the entries. `World.Aged.step` keeps all of it.
-/

namespace AuxCommon.Cache

open List Option Function LinkedMap CacheInner

variable {K V : Type} [DecidableEq K] {m : LinkedMap K (CacheEntry V)}

namespace CacheInner

/-- The entries within the capacity, with their deadlines in the index. -/
structure Resident (capacity : Nat) (s : CacheInner K V) : Prop where
  bounded : s.entries.len ≤ capacity
  indexed : ∀ x k, s.expirations.get? x = some k ↔
    ∃ e, s.entries.get? k = some e ∧ e.expirationKey = some x
  distinct : ∀ k k' e e', s.entries.get? k = some e → s.entries.get? k' = some e' →
    e.id = e'.id → k = k'
  known : ∀ k e, s.entries.get? k = some e → e.id < s.nextEntry

/-- The key whose entry gives way to a new key: the entry with the first deadline if that has
passed, else the one that was not used for longest. -/
def victim? (s : CacheInner K V) (incoming : K) (capacity : Nat) (now : Instant) : Option K :=
  if s.entries.len < capacity ∨ s.entries.contains incoming then none
  else ((s.firstExpiration.filter (·.1.1 ≤ now)).map (·.2)).or (s.entries.front?.map (·.1))

/-- The entries `m'` come from `m` without any that is used, or with a new or used last one. -/
def Shifts (used : Option K) (m m' : LinkedMap K (CacheEntry V)) : Prop :=
  match used with
  | none => m'.entries.Sublist m.entries
  | some k => ∃ kept last, List.Sublist kept (m.erase k).entries ∧
      m'.entries = kept ++ (Option.map (Prod.mk k) last).toList

/-! ## Removal -/

variable {s s' : CacheInner K V} {key : K} {capacity : Nat} {e : CacheEntry V} {now : Instant}

theorem cancelLoad_entries : (s.cancelLoad key).entries = s.entries := by
  unfold cancelLoad
  split <;> rfl

theorem cancelLoad_expirations : (s.cancelLoad key).expirations = s.expirations := by
  unfold cancelLoad
  split <;> rfl

theorem remove_entries : (s.remove key).2.entries = s.entries.erase key := by
  unfold remove
  dsimp only
  rw [cancelLoad_entries]
  cases h : s.entries.get? key with
  | none => exact cancelLoad_entries.trans (erase_of_none h).symm
  | some e => rfl

theorem remove_expirations (h : s.entries.get? key = some e) : (s.remove key).2.expirations =
      e.expirationKey.elim s.expirations fun x => s.expirations.erase x := by
  unfold remove
  dsimp only
  rw [cancelLoad_entries, h, cancelLoad_expirations]
  dsimp only
  cases e.expirationKey <;> rfl

theorem remove_of_none (h : s.entries.get? key = none) : (s.remove key).2 = s.cancelLoad key := by
  unfold remove
  dsimp only
  rw [cancelLoad_entries, h]

theorem remove_nextEntry : (s.remove key).2.nextEntry = s.nextEntry := by
  unfold remove cancelLoad
  dsimp only
  split <;> split <;> rfl

theorem insert_expirations : (s.insert key e).2.expirations =
    e.expirationKey.elim (s.remove key).2.expirations
      fun x => (s.remove key).2.expirations.insert x key := by
  unfold insert
  cases e.expirationKey <;> rfl

namespace Resident

theorem congr (hr : Resident capacity s) (hentries : s'.entries = s.entries)
    (hexpirations : s'.expirations = s.expirations) (hnext : s'.nextEntry = s.nextEntry) :
    Resident capacity s' :=
  ⟨hentries ▸ hr.bounded, by rw [hentries, hexpirations]; exact hr.indexed,
    hentries ▸ hr.distinct, by rw [hentries, hnext]; exact hr.known⟩

theorem remove (hr : Resident capacity s) (key : K) : Resident capacity (s.remove key).2 := by
  cases h : s.entries.get? key with
  | none =>
    rw [remove_of_none h]
    unfold cancelLoad
    split
    · exact hr.congr rfl rfl rfl
    · exact hr
  | some e =>
    refine ⟨?_, fun x k => ?_, ?_, ?_⟩
    · have := len_erase h
      have := hr.bounded
      rw [remove_entries]
      omega
    · -- only the entry that goes has its deadline and allocation
      rw [remove_entries, remove_expirations h]
      simp only [get?_erase]
      have hmine : ∀ x, e.expirationKey = some x → s.expirations.get? x = some key :=
        fun x hx => (hr.indexed x key).mpr ⟨e, h, hx⟩
      cases hx : e.expirationKey with
      | none =>
        rw [elim_none, hr.indexed]
        refine exists_congr fun e' => ?_
        split_ifs with hk
        · subst hk
          refine ⟨fun hfound => ?_, fun hnone => by simp at hnone⟩
          obtain ⟨he', hx'⟩ := hfound
          obtain rfl := some.inj (h.symm.trans he')
          rw [hx] at hx'
          cases hx'
        · rfl
      | some x₀ =>
        rw [elim_some, get?_erase]
        split_ifs with hxx hk hk
        · simp
        · subst hxx
          simp only [false_iff, not_exists, not_and]
          intro e' he' hx'
          exact hk (some.inj (((hr.indexed x k).mpr ⟨e', he', hx'⟩).symm.trans (hmine x hx)))
        · subst hk
          simp only [false_and, exists_false, iff_false]
          intro hget
          obtain ⟨e', he', hx'⟩ := (hr.indexed x k).mp hget
          obtain rfl := some.inj (h.symm.trans he')
          exact hxx (some.inj (hx'.symm.trans hx))
        · exact hr.indexed x k
    · intro k k' e₁ e₂ h₁ h₂
      rw [remove_entries, get?_erase] at h₁ h₂
      split at h₁ <;> split at h₂ <;> first | exact hr.distinct k k' e₁ e₂ h₁ h₂ | cases h₁ | cases h₂
    · intro k e' h'
      rw [remove_entries, get?_erase] at h'
      rw [remove_nextEntry]
      split at h'
      · cases h'
      · exact hr.known k e' h'

theorem toBack (hr : Resident capacity s) (key : K) :
    Resident capacity { s with entries := s.entries.toBack key } := by
  refine ⟨LinkedMap.len_toBack.trans_le hr.bounded, ?_, ?_, ?_⟩
  · simpa only [LinkedMap.get?_toBack] using hr.indexed
  · simpa only [LinkedMap.get?_toBack] using hr.distinct
  · simpa only [LinkedMap.get?_toBack] using hr.known

/-- A new entry of a key that is not there, where there is room. -/
theorem add (hr : Resident capacity s) (hroom : s.entries.len < capacity)
    (habsent : s.entries.get? key = none)
    (hother : ∀ k e', s.entries.get? k = some e' → e'.id ≠ e.id) (hknown : e.id < s.nextEntry) :
    Resident capacity { s with
      expirations := e.expirationKey.elim s.expirations fun x => s.expirations.insert x key
      entries := s.entries.insert key e } := by
  refine ⟨?_, fun x k => ?_, ?_, ?_⟩
  · change (s.entries.insert key e).len ≤ capacity
    rw [LinkedMap.len, LinkedMap.insert, length_append, LinkedMap.erase_of_none habsent]
    exact hroom
  · simp only [LinkedMap.get?_insert]
    have hfresh : ∀ x, e.expirationKey = some x → ∀ k, s.expirations.get? x ≠ some k := by
      intro x hx k hget
      obtain ⟨e', he', hx'⟩ := (hr.indexed x k).mp hget
      refine hother k e' he' ?_
      obtain ⟨_, -, rfl⟩ := map_eq_some_iff.mp hx
      obtain ⟨_, -, heq⟩ := map_eq_some_iff.mp hx'
      exact (Prod.mk.inj heq).2
    have hsame : s.expirations.get? x = some k ↔
        ∃ e', (if k = key then none else s.entries.get? k) = some e' ∧ e'.expirationKey = some x := by
      rw [hr.indexed]
      split_ifs with hk
      · subst hk
        simp [habsent]
      · rfl
    cases hx : e.expirationKey with
    | none =>
      rw [elim_none, hsame]
      split_ifs with hk
      · simp [hx]
      · rfl
    | some x₀ =>
      rw [elim_some, LinkedMap.get?_insert]
      by_cases hxx : x = x₀
      · subst hxx
        rw [if_pos rfl]
        constructor
        · intro h
          cases h
          exact ⟨e, if_pos rfl, hx⟩
        · rintro ⟨e', he', hx'⟩
          by_cases hk : k = key
          · rw [hk]
          · rw [if_neg hk] at he'
            exact absurd ((hr.indexed x k).mpr ⟨e', he', hx'⟩) (hfresh x hx k)
      · rw [if_neg hxx, hsame]
        split_ifs with hk
        · simp [hx, Ne.symm hxx]
        · rfl
  · intro k k' e₁ e₂ h₁ h₂ hids
    rw [LinkedMap.get?_insert] at h₁ h₂
    split at h₁ <;> split at h₂
    · simp_all
    · cases h₁
      exact absurd hids.symm (hother k' e₂ h₂)
    · cases h₂
      exact absurd hids (hother k e₁ h₁)
    · exact hr.distinct k k' e₁ e₂ h₁ h₂ hids
  · intro k e' h'
    rw [LinkedMap.get?_insert] at h'
    split at h'
    · cases h'
      exact hknown
    · exact hr.known k e' h'

end Resident

/-! ## The entry that gives way -/

/-- A fold that keeps one of two elements, of no greater rank than either, ends with a least one. -/
theorem foldl_least {β : Type} (rank : β → Nat) {pick : Option β → β → Option β}
    (hpick : ∀ best e, ∃ b, pick best e = some b ∧ (b = e ∨ best = some b) ∧ rank b ≤ rank e ∧
      ∀ b₀, best = some b₀ → rank b ≤ rank b₀) (es : List β) (best : Option β) :
    (∀ b, es.foldl pick best = some b → b ∈ es ∨ best = some b) ∧
    ∀ e, e ∈ es ∨ best = some e → ∃ b, es.foldl pick best = some b ∧ rank b ≤ rank e := by
  induction es generalizing best with
  | nil => exact ⟨fun b h => .inr h, fun e h => ⟨e, h.resolve_left not_mem_nil, le_rfl⟩⟩
  | cons e es ih =>
    obtain ⟨b, hb, hchosen, hle, hbest⟩ := hpick best e
    obtain ⟨hmem, hleast⟩ := ih (pick best e)
    obtain ⟨r, hr, hrb⟩ := hleast b (.inr hb)
    refine ⟨fun r' hr' => ?_, fun e' he' => ?_⟩
    · rcases hmem r' hr' with h | h
      · exact .inl (mem_cons_of_mem _ h)
      · obtain rfl := some.inj (hb.symm.trans h)
        rcases hchosen with rfl | h
        · exact .inl mem_cons_self
        · exact .inr h
    · rcases he' with he' | he'
      · rcases mem_cons.mp he' with rfl | he'
        · exact ⟨r, hr, hrb.trans hle⟩
        · exact hleast e' (.inl he')
      · exact ⟨r, hr, hrb.trans (hbest e' he')⟩

omit [DecidableEq K] in
theorem firstExpiration_spec (s : CacheInner K V) :
    (∀ b, s.firstExpiration = some b → b ∈ s.expirations.entries ∨ none = some b) ∧
    ∀ e, e ∈ s.expirations.entries ∨ none = some e →
      ∃ b, s.firstExpiration = some b ∧ b.1.1 ≤ e.1.1 := by
  refine foldl_least (fun e : (Instant × Nat) × K => e.1.1) (fun best e => ?_) s.expirations.entries none
  cases best with
  | none => exact ⟨e, rfl, .inl rfl, le_rfl, fun _ h => by cases h⟩
  | some b =>
    dsimp only
    split_ifs with h
    · exact ⟨e, rfl, .inl rfl, le_rfl, fun b₀ hb => by
        cases hb
        exact h.elim le_of_lt fun h => h.1.le⟩
    · exact ⟨b, rfl, .inr rfl, le_of_not_gt fun hlt => h (.inl hlt), fun b₀ hb => by
        cases hb
        exact le_rfl⟩

theorem evictIfNeeded_eq (incoming : K) (now : Instant) : s.evictIfNeeded incoming capacity now =
      (s.victim? incoming capacity now).elim s fun victim => (s.remove victim).2 := by
  unfold evictIfNeeded victim?
  split
  · rfl
  · dsimp only
    cases ((s.firstExpiration.filter (·.1.1 ≤ now)).map (·.2)).or (s.entries.front?.map (·.1)) <;> rfl

namespace Resident

omit [DecidableEq K] in
theorem isExpiredAt_iff : e.isExpiredAt now = true ↔ ∃ x, e.expirationKey = some x ∧ x.1 ≤ now := by
  unfold CacheEntry.isExpiredAt CacheEntry.expirationKey
  cases e.expiresAt <;> simp

/-- An expired entry gives way if there is one, and otherwise the first one. -/
theorem of_victim (hr : Resident capacity s) {incoming victim : K}
    (h : s.victim? incoming capacity now = some victim) :
    ∃ e, s.entries.get? victim = some e ∧
      ((∃ k e', s.entries.get? k = some e' ∧ e'.isExpiredAt now = true) → e.isExpiredAt now = true) ∧
      ((∀ k e', s.entries.get? k = some e' → e'.isExpiredAt now = false) →
        s.entries.front? = some (victim, e)) := by
  obtain ⟨hmem, hleast⟩ := s.firstExpiration_spec
  unfold victim? at h
  split at h
  · cases h
  · by_cases hfirst : ∃ b, s.firstExpiration = some b ∧ b.1.1 ≤ now
    · obtain ⟨⟨x, k⟩, hb, hpassed⟩ := hfirst
      have hfilter : (some (x, k)).filter (fun b => decide (b.1.1 ≤ now)) = some (x, k) :=
        if_pos (decide_eq_true hpassed)
      rw [hb, hfilter] at h
      obtain rfl : k = victim := some.inj h
      obtain ⟨e, he, hx⟩ := (hr.indexed x k).mp (mem_entries.mp ((hmem _ hb).resolve_right (by simp)))
      have hexpired : e.isExpiredAt now = true := isExpiredAt_iff.mpr ⟨x, hx, hpassed⟩
      refine ⟨e, he, fun _ => hexpired, fun hnone => ?_⟩
      rw [hnone k e he] at hexpired
      cases hexpired
    · have hfilter : s.firstExpiration.filter (fun b => decide (b.1.1 ≤ now)) = none := by
        rw [filter_eq_none_iff]
        intro b hb hle
        exact hfirst ⟨b, hb, of_decide_eq_true hle⟩
      rw [hfilter, map_none, none_or] at h
      obtain ⟨⟨k, e⟩, hfront, rfl⟩ := map_eq_some_iff.mp h
      refine ⟨e, mem_entries.mp (mem_of_mem_head? hfront), ?_, fun _ => hfront⟩
      rintro ⟨k', e', he', hexpired⟩
      obtain ⟨x, hx, hpassed⟩ := isExpiredAt_iff.mp hexpired
      obtain ⟨b, hb, hle⟩ := hleast (x, k')
        (.inl (mem_entries.mpr ((hr.indexed x k').mpr ⟨e', he', hx⟩)))
      exact absurd ⟨b, hb, hle.trans hpassed⟩ hfirst

theorem evict (hr : Resident capacity s) (incoming : K) (now : Instant) :
    Resident capacity (s.evictIfNeeded incoming capacity now) := by
  rw [evictIfNeeded_eq]
  cases s.victim? incoming capacity now with
  | none => exact hr
  | some victim => exact hr.remove victim

/-- A full cache has an entry that gives way. -/
theorem exists_victim {incoming : K} (now : Instant) (hfull : s.entries.len = capacity)
    (hcapacity : 1 ≤ capacity) (habsent : s.entries.get? incoming = none) :
    ∃ victim, s.victim? incoming capacity now = some victim := by
  have hne : s.entries.entries ≠ [] := by
    intro hnil
    rw [LinkedMap.len, hnil, length_nil] at hfull
    omega
  obtain ⟨e, rest, hcons⟩ := exists_cons_of_ne_nil hne
  refine isSome_iff_exists.mp ?_
  unfold victim?
  rw [if_neg (by simp [hfull, LinkedMap.contains, habsent]), LinkedMap.front?, hcons]
  cases (s.firstExpiration.filter (·.1.1 ≤ now)).map (·.2) <;> rfl

/-- Behind an eviction there is room for the key. -/
theorem evict_room (hr : Resident capacity s) (hcapacity : 1 ≤ capacity) {incoming : K}
    (habsent : (s.evictIfNeeded incoming capacity now).entries.get? incoming = none) :
    (s.evictIfNeeded incoming capacity now).entries.len < capacity := by
  by_cases hroom : s.entries.len < capacity ∨ s.entries.contains incoming
  · have hsame : s.evictIfNeeded incoming capacity now = s := if_pos hroom
    rw [hsame] at habsent ⊢
    exact hroom.resolve_right (by simp [LinkedMap.contains, habsent])
  · push Not at hroom
    have hnone : s.entries.get? incoming = none := by simpa [LinkedMap.contains] using hroom.2
    obtain ⟨victim, hvictim⟩ := exists_victim now
      (Nat.le_antisymm hr.bounded hroom.1) hcapacity hnone
    obtain ⟨e, he, -⟩ := hr.of_victim hvictim
    have hlen := LinkedMap.len_erase he
    have hbounded := hr.bounded
    rw [evictIfNeeded_eq, hvictim, elim_some, remove_entries]
    omega

end Resident

/-! ## What each operation does to the entries -/

namespace Shifts

theorem refl : Shifts none m m := List.Sublist.refl _

theorem remove : Shifts none s.entries (s.remove key).2.entries := by
  rw [remove_entries]
  exact filter_sublist

theorem toBack (m : LinkedMap K (CacheEntry V)) (key : K) : Shifts (some key) m (m.toBack key) := by
  unfold LinkedMap.toBack
  cases h : m.get? key with
  | none => exact ⟨m.entries, none, by rw [LinkedMap.erase_of_none h], (append_nil _).symm⟩
  | some e => exact ⟨_, some e, .refl _, rfl⟩

/-- Entries that go after a use leave it the last. -/
theorem then_remove {m m' m'' : LinkedMap K (CacheEntry V)} (h : Shifts (some key) m m')
    (h' : m''.entries = m'.entries ∨ m'' = m'.erase key) : Shifts (some key) m m'' := by
  obtain ⟨kept, last, hkept, heq⟩ := h
  rcases h' with h' | rfl
  · exact ⟨kept, last, hkept, h'.trans heq⟩
  · refine ⟨kept, none, hkept, ?_⟩
    have hmem : ∀ e ∈ kept, e.1 ≠ key := fun e he =>
      of_decide_eq_true (mem_filter.mp (hkept.subset he)).2
    have hkeep : kept.filter (fun e => decide (e.1 ≠ key)) = kept :=
      filter_eq_self.mpr fun e he => decide_eq_true (hmem e he)
    change m'.entries.filter (fun e => decide (e.1 ≠ key)) = _
    rw [heq, filter_append, hkeep]
    cases last <;> simp

end Shifts

theorem Resident.discard (hr : Resident capacity s) (hs : Shifts (some key) m s.entries) :
    Resident capacity (s.discardExpired key) ∧ Shifts (some key) m (s.discardExpired key).entries := by
  unfold discardExpired
  split
  · exact ⟨hr, hs⟩
  · exact ⟨hr.remove key, hs.then_remove (.inr remove_entries)⟩

/-- Room is made, and the key gets a new entry. -/
theorem Resident.put (hr : Resident capacity s) (key : K) (hcapacity : 1 ≤ capacity) (value : V)
    (expiration : CacheExpiration) (now : Instant) :
    let s₁ := s.evictIfNeeded key capacity now
    let s₂ := ((s₁.allocate value expiration now).2.insert key
      (s₁.allocate value expiration now).1).2
    Resident capacity s₂ ∧ Shifts (some key) s.entries s₂.entries ∧
      ∀ k, s₂.entries.get? k = if k = key then some (.new s₁.nextEntry value expiration now)
        else if s.victim? key capacity now = some k then none else s.entries.get? k := by
  intro s₁ s₂
  have hr₁ : Resident capacity s₁ := hr.evict key now
  have hr₂ : Resident capacity { s₁ with nextEntry := s₁.nextEntry + 1 } :=
    ⟨hr₁.bounded, hr₁.indexed, hr₁.distinct, fun k e h => Nat.lt_succ_of_lt (hr₁.known k e h)⟩
  have hentries : s₂.entries = (s₁.entries.erase key).insert key
      (.new s₁.nextEntry value expiration now) :=
    congrArg (LinkedMap.insert · key _) (remove_entries (s := { s₁ with nextEntry := s₁.nextEntry + 1 }))
  have hgone : (s₁.entries.erase key).get? key = none := LinkedMap.get?_erase.trans (if_pos rfl)
  have hevicted : ∀ k, s₁.entries.get? k =
      if s.victim? key capacity now = some k then none else s.entries.get? k := by
    intro k
    change (s.evictIfNeeded key capacity now).entries.get? k = _
    rw [evictIfNeeded_eq]
    cases s.victim? key capacity now with
    | none => rfl
    | some victim =>
      rw [elim_some, remove_entries, LinkedMap.get?_erase]
      simp only [some.injEq, eq_comm]
  refine ⟨?_, ?_, fun k => ?_⟩
  · have hroom : (s₁.entries.erase key).len < capacity := by
      have hbounded := hr₁.bounded
      cases h : s₁.entries.get? key with
      | some e =>
        have := LinkedMap.len_erase h
        omega
      | none =>
        rw [LinkedMap.erase_of_none h]
        exact hr.evict_room hcapacity h
    have hremoved : (CacheInner.remove { s₁ with nextEntry := s₁.nextEntry + 1 } key).2.entries =
        s₁.entries.erase key := remove_entries
    refine ((hr₂.remove key).add (e := .new s₁.nextEntry value expiration now)
      (hremoved ▸ hroom) (hremoved ▸ hgone) (fun k e' he' => ?_) ?_).congr rfl ?_ rfl
    · rw [hremoved, LinkedMap.get?_erase] at he'
      split at he'
      · cases he'
      · exact (hr₁.known k e' he').ne
    · rw [remove_nextEntry]
      exact Nat.lt_succ_self _
    · exact insert_expirations
  · have hsub : s₁.entries.entries.Sublist s.entries.entries := by
      change (s.evictIfNeeded key capacity now).entries.entries.Sublist _
      rw [evictIfNeeded_eq]
      cases s.victim? key capacity now with
      | none => exact .refl _
      | some victim => exact Shifts.remove
    refine ⟨((s₁.entries.erase key).erase key).entries,
      some (.new s₁.nextEntry value expiration now), ?_, by rw [hentries]; rfl⟩
    rw [LinkedMap.erase_of_none hgone]
    exact hsub.filter _
  · rw [hentries, LinkedMap.get?_insert]
    split
    · rfl
    · rename_i hk
      rw [LinkedMap.get?_erase, if_neg hk, hevicted]

/-- A load that stores a value uses its key. -/
theorem Resident.publish (hr : Resident capacity s) {c : CacheConfig} (hc : c.capacity = capacity)
    (hcapacity : 1 ≤ capacity) (load : CacheLoad K V) (value : Option V) (now : Instant) :
    let r := s.publishLoad c load value now
    Resident capacity r.2 ∧
      Shifts (if value.isSome ∧ r.1 = .stored then some load.key else none) s.entries r.2.entries ∧
      ∀ key, s.entries.get? key = none → (r.2.entries.get? key).isSome →
        key = load.key ∧ ∀ k, k ≠ key → r.2.entries.get? k =
          if s.victim? key capacity now = some k then none else s.entries.get? k := by
  have hstore : ∀ expiration, Resident capacity (s.store c load.key value expiration now) ∧
      Shifts (if value.isSome ∧ LoadPublication.stored = .stored then some load.key else none) s.entries
        (s.store c load.key value expiration now).entries ∧
      ∀ key, s.entries.get? key = none →
        ((s.store c load.key value expiration now).entries.get? key).isSome →
        key = load.key ∧ ∀ k, k ≠ key → (s.store c load.key value expiration now).entries.get? k =
          if s.victim? key capacity now = some k then none else s.entries.get? k := by
    intro expiration
    subst hc
    cases value with
    | none =>
      refine ⟨hr.remove load.key, Shifts.remove, fun key habsent hsome => ?_⟩
      change ((s.remove load.key).2.entries.get? key).isSome at hsome
      rw [remove_entries, get?_erase, habsent] at hsome
      simp at hsome
    | some value =>
      obtain ⟨hres, hshift, hget⟩ := hr.put load.key hcapacity value expiration now
      refine ⟨hres, by rw [if_pos ⟨rfl, rfl⟩]; exact hshift, fun key habsent hsome => ?_⟩
      have hkey : key = load.key := by
        by_contra hne
        have hnone := hget key
        rw [if_neg hne, habsent, ite_self] at hnone
        exact absurd hsome (by simp [store, hnone])
      subst hkey
      exact ⟨rfl, fun k hk => (hget k).trans (if_neg hk)⟩
  have hsame : ∀ p : LoadPublication, p ≠ .stored → Resident capacity s ∧
      Shifts (if value.isSome ∧ p = .stored then some load.key else none) s.entries s.entries ∧
      ∀ key, s.entries.get? key = none → (s.entries.get? key).isSome → key = load.key ∧
        ∀ k, k ≠ key → s.entries.get? k =
          if s.victim? key capacity now = some k then none else s.entries.get? k :=
    fun p hp => ⟨hr, by simp only [hp, and_false, if_false]; exact Shifts.refl,
      fun key habsent hsome => by simp [habsent] at hsome⟩
  intro r
  simp only [r]
  unfold publishLoad
  split
  · exact hsame _ (by simp)
  · split
    · exact hstore _
    · split
      · exact hsame _ (by simp)
      · split
        · exact hsame _ (by simp)
        · split
          · exact hsame _ (by simp)
          · exact hstore _

end CacheInner

/-! ## Runs -/

/-- The time of an operation that looks at the clock. -/
def Op.now : Op K V → Instant
  | .insert _ _ _ now | .prepare _ _ now | .publish _ _ now | .inspect _ now
  | .inspectStale _ _ now => now
  | .remove _ | .finish _ => 0

namespace World

/-- The key that an operation uses: one that is inserted, looked up, or stored by a load. -/
def uses (c : CacheConfig) (w : World K V) : Op K V → Option K
  | .insert key .. | .prepare key .cold _ => some key
  | .inspect key _ | .inspectStale key .. => if c.disabled then none else some key
  | .publish i value now => w.loads[i]?.bind fun h =>
    if value.isSome ∧ (w.inner.publishLoad c h.load (value.map (·, .loaded i)) now).1 = .stored then
      some h.load.key else none
  | .remove _ | .prepare _ (.refresh _) _ | .finish _ => none

/-- A cache with the time of the last use of each key. -/
def stepUsed (c : CacheConfig) (w : World K V × (K → Nat)) (op : Op K V) : World K V × (K → Nat) :=
  (w.1.step c op, (w.1.uses c op).elim w.2 fun key => Function.update w.2 key (w.1.time + 1))

/-- The time of the last use of each key. -/
def lastUse (c : CacheConfig) (ops : List (Op K V)) : K → Nat :=
  (ops.foldl (stepUsed c) (.new, fun _ => 0)).2

/-- The entries are in the order of their last use. -/
structure Aged (capacity : Nat) (w : World K V) (used : K → Nat) : Prop where
  resident : w.inner.Resident capacity
  sorted : w.inner.entries.entries.Pairwise fun a b => used a.1 < used b.1
  past : ∀ e ∈ w.inner.entries.entries, used e.1 ≤ w.time

variable {c : CacheConfig} {w : World K V} {used : K → Nat}

theorem Aged.shift (h : Aged c.capacity w used) {w' : World K V} {key? : Option K}
    (hr : w'.inner.Resident c.capacity)
    (hs : Shifts key? w.inner.entries w'.inner.entries) (ht : w'.time = w.time + 1) :
    Aged c.capacity w' (key?.elim used fun key => update used key (w.time + 1)) := by
  cases key? with
  | none =>
    refine ⟨hr, h.sorted.sublist hs, fun e he => ?_⟩
    rw [ht]
    exact Nat.le_succ_of_le (h.past e (hs.subset he))
  | some key =>
    obtain ⟨kept, last, hkept, heq⟩ := hs
    have hne : ∀ e ∈ kept, e.1 ≠ key ∧ used e.1 ≤ w.time := fun e he =>
      have hmem := mem_filter.mp (hkept.subset he)
      ⟨of_decide_eq_true hmem.2, h.past e hmem.1⟩
    have hlast : ∀ e ∈ (Option.map (Prod.mk key) last).toList, e.1 = key := by
      intro e he
      obtain ⟨v, -, rfl⟩ := Option.map_eq_some_iff.mp (Option.mem_toList.mp he)
      rfl
    have hkeptAt : ∀ e ∈ kept, update used key (w.time + 1) e.1 = used e.1 :=
      fun e he => update_of_ne (hne e he).1 _ _
    have hlastAt : ∀ e ∈ (Option.map (Prod.mk key) last).toList,
        update used key (w.time + 1) e.1 = w.time + 1 := by
      intro e he
      rw [hlast e he, update_self]
    refine ⟨hr, ?_, ?_⟩
    · rw [heq, pairwise_append]
      refine ⟨((h.sorted.sublist filter_sublist).sublist hkept).imp_of_mem ?_, ?_, ?_⟩
      · intro a b ha hb hlt
        change update used key _ a.1 < update used key _ b.1
        rwa [hkeptAt a ha, hkeptAt b hb]
      · cases last <;> simp
      · intro a ha b hb
        change update used key _ a.1 < update used key _ b.1
        rw [hkeptAt a ha, hlastAt b hb]
        exact Nat.lt_succ_of_le (hne a ha).2
    · intro e he
      rw [heq] at he
      change update used key _ e.1 ≤ w'.time
      rcases mem_append.mp he with he | he
      · rw [hkeptAt e he, ht]
        exact Nat.le_succ_of_le (hne e he).2
      · rw [hlastAt e he, ht]

/-- What an operation does to the entries. -/
theorem step_shifts (hr : w.inner.Resident c.capacity) (hcapacity : 1 ≤ c.capacity) (op : Op K V) :
    (w.step c op).inner.Resident c.capacity ∧
      Shifts (w.uses c op) w.inner.entries (w.step c op).inner.entries := by
  cases op with
  | insert key value expiration now =>
    change Resident _ (w.inner.insertWithExpiration c key _ expiration now).2 ∧
      Shifts (some key) _ (w.inner.insertWithExpiration c key _ expiration now).2.entries
    unfold insertWithExpiration
    split
    · exact ⟨hr.remove key, _, none, .refl _, by rw [remove_entries]; simp⟩
    · have hput := hr.put key hcapacity (value, .inserted w.time) expiration now
      exact ⟨hput.1, hput.2.1⟩
  | remove key => exact ⟨hr.remove key, .remove⟩
  | prepare key intent now =>
    have hstart : ∀ s : CacheInner K (V × Origin), s.Resident c.capacity →
        (s.startLoad key intent).2.Resident c.capacity := fun s hs => hs.congr rfl rfl rfl
    change Resident _ (w.inner.prepareLoad key intent now).2 ∧
      Shifts _ _ (w.inner.prepareLoad key intent now).2.entries
    cases intent with
    | cold =>
      unfold prepareLoad
      dsimp only
      split
      · exact ⟨hr.toBack key, .toBack _ _⟩
      · exact ⟨hstart _ (hr.toBack key), .toBack _ _⟩
    | refresh expected =>
      unfold prepareLoad
      dsimp only
      split
      · exact ⟨hstart _ hr, .refl⟩
      · exact ⟨hr, .refl⟩
  | publish i value now =>
    dsimp only [step, apply, uses]
    cases hload : w.loads[i]? with
    | none => exact ⟨hr, .refl⟩
    | some h =>
      have hpublish := hr.publish rfl hcapacity h.load (value.map (·, .loaded i)) now
      rw [isSome_map] at hpublish
      exact ⟨hpublish.1, hpublish.2.1⟩
  | finish i =>
    dsimp only [step, apply, uses]
    cases w.loads[i]? with
    | none => exact ⟨hr, .refl⟩
    | some h =>
      dsimp only
      unfold finishLoad
      split
      · exact ⟨hr.congr rfl rfl rfl, .refl⟩
      · exact ⟨hr, .refl⟩
  | inspect key now =>
    change Resident _ (w.inner.inspectEntry c key now).2 ∧
      Shifts (if c.disabled then none else some key) _ (w.inner.inspectEntry c key now).2.entries
    unfold inspectEntry
    split
    · exact ⟨hr, .refl⟩
    · have hused := Shifts.toBack w.inner.entries key
      cases hget : w.inner.entries.get? key with
      | none =>
        rw [toBack, hget] at hused
        exact ⟨hr, hused⟩
      | some entry =>
        dsimp only
        split
        · exact (hr.toBack key).discard hused
        · exact ⟨hr.toBack key, hused⟩
  | inspectStale key staleTtl now =>
    change Resident _ (w.inner.inspectEntryWithStale c key staleTtl now).2 ∧
      Shifts (if c.disabled then none else some key) _
        (w.inner.inspectEntryWithStale c key staleTtl now).2.entries
    unfold inspectEntryWithStale
    split
    · exact ⟨hr, .refl⟩
    · have hused := Shifts.toBack w.inner.entries key
      cases hget : w.inner.entries.get? key with
      | none =>
        rw [toBack, hget] at hused
        exact ⟨hr, hused⟩
      | some entry =>
        dsimp only
        split
        · exact ⟨hr.toBack key, hused⟩
        · split
          · exact ⟨hr.toBack key, hused⟩
          · exact (hr.toBack key).discard hused

theorem Aged.run (c : CacheConfig) (hcapacity : 1 ≤ c.capacity) (ops : List (Op K V)) :
    Aged c.capacity (World.run c ops) (lastUse c ops) := by
  suffices h : ∀ w : World K V × (K → Nat), Aged c.capacity w.1 w.2 →
      (ops.foldl (stepUsed c) w).1 = ops.foldl (World.step c) w.1 ∧
      Aged c.capacity (ops.foldl (stepUsed c) w).1 (ops.foldl (stepUsed c) w).2 by
    obtain ⟨hworld, haged⟩ := h (.new, fun _ => 0)
      ⟨⟨Nat.zero_le _, by simp [World.new, CacheInner.new], by simp [World.new, CacheInner.new],
        by simp [World.new, CacheInner.new]⟩, .nil, by simp [World.new, CacheInner.new, empty]⟩
    rw [hworld] at haged
    exact haged
  induction ops with
  | nil => exact fun w h => ⟨rfl, h⟩
  | cons op ops ih =>
    intro w h
    have hstep := step_shifts h.resident hcapacity op
    exact ih (stepUsed c w op) (h.shift hstep.1 hstep.2 rfl)

/-- The entry that gives way in a full cache. -/
theorem Aged.evicts (h : Aged c.capacity w used) (hcapacity : 1 ≤ c.capacity) {key : K}
    (hfull : w.inner.entries.len = c.capacity) (habsent : w.inner.entries.get? key = none)
    (now : Instant) :
    ∃ victim e, w.inner.victim? key c.capacity now = some victim ∧
      w.inner.entries.get? victim = some e ∧
      ((∃ k e', w.inner.entries.get? k = some e' ∧ e'.isExpiredAt now = true) →
        e.isExpiredAt now = true) ∧
      ((∀ k e', w.inner.entries.get? k = some e' → e'.isExpiredAt now = false) →
        ∀ k, (w.inner.entries.get? k).isSome → used victim ≤ used k) := by
  obtain ⟨victim, hvictim⟩ := Resident.exists_victim now hfull hcapacity habsent
  obtain ⟨e, he, hexpired, hfront⟩ := h.resident.of_victim hvictim
  refine ⟨victim, e, hvictim, he, hexpired, fun hfresh k hk => ?_⟩
  obtain ⟨e', he'⟩ := isSome_iff_exists.mp hk
  obtain ⟨rest, hrest⟩ := head?_eq_some_iff.mp (hfront hfresh)
  have hmem := mem_entries.mpr he'
  have hsorted := h.sorted
  rw [hrest] at hmem hsorted
  rcases mem_cons.mp hmem with heq | hmem
  · cases heq
    exact le_rfl
  · exact le_of_lt (rel_of_pairwise_cons hsorted hmem)

/-- Only an insertion and the publication of a load bring a key. -/
theorem brings (hr : w.inner.Resident c.capacity) (hcapacity : 1 ≤ c.capacity) {op : Op K V} {key : K}
    (habsent : w.inner.entries.get? key = none)
    (hsome : ((w.step c op).inner.entries.get? key).isSome) (k : K) (hk : k ≠ key) :
    (w.step c op).inner.entries.get? k =
      if w.inner.victim? key c.capacity op.now = some k then none else w.inner.entries.get? k := by
  have hquiet : ∀ s', w.inner.Quieter s' → ¬ (s'.entries.get? key).isSome := by
    intro s' hq hsome
    obtain ⟨e, he⟩ := isSome_iff_exists.mp hsome
    rw [hq.entries key e he] at habsent
    cases habsent
  cases op with
  | insert key' value expiration now =>
    change ((w.inner.insertWithExpiration c key' _ expiration now).2.entries.get? key).isSome at hsome
    change (w.inner.insertWithExpiration c key' _ expiration now).2.entries.get? k = _
    unfold insertWithExpiration at hsome ⊢
    split at hsome
    · exact absurd hsome (hquiet _ (w.inner.quieter_remove key'))
    · rename_i hstores
      rw [if_neg hstores]
      have hget := (hr.put key' hcapacity (value, .inserted w.time) expiration now).2.2
      have hkey : key = key' := by
        by_contra hne
        rw [hget, if_neg hne, habsent, ite_self] at hsome
        cases hsome
      subst hkey
      exact (hget k).trans (if_neg hk)
  | remove key' => exact absurd hsome (hquiet _ (w.inner.quieter_remove key'))
  | prepare key' intent now =>
    refine absurd hsome ?_
    change ¬ ((w.inner.prepareLoad key' intent now).2.entries.get? key).isSome
    obtain ⟨-, hq⟩ | ⟨⟨s₁, hq, heq⟩, -⟩ := w.inner.prepareLoad_cases key' intent now
    · exact hquiet _ hq
    · rw [heq]
      exact hquiet s₁ hq
  | publish i value now =>
    revert hsome
    dsimp only [step, apply]
    cases w.loads[i]? with
    | none => exact fun hsome => absurd hsome (hquiet _ (.refl _))
    | some h =>
      intro hsome
      exact ((hr.publish rfl hcapacity h.load _ now).2.2 key habsent hsome).2 k hk
  | finish i =>
    revert hsome
    dsimp only [step, apply]
    cases w.loads[i]? with
    | none => exact fun hsome => absurd hsome (hquiet _ (.refl _))
    | some h => exact fun hsome => absurd hsome (hquiet _ (w.inner.quieter_finishLoad h.load))
  | inspect key' now => exact absurd hsome (hquiet _ (w.inner.quieter_inspectEntry key' c now))
  | inspectStale key' staleTtl now =>
    exact absurd hsome (hquiet _ (w.inner.quieter_inspectEntryWithStale key' c staleTtl now))

/-- The entries stay within the capacity, the index has the deadline of every entry that has one and
nothing else, and a new key that comes into a full cache takes the place of one entry: of an expired
one if there is any, else of the one that was used the longest time ago. -/
theorem residence (c : CacheConfig) (hcapacity : 1 ≤ c.capacity) (ops : List (Op K V)) :
    let w := World.run c ops
    w.inner.entries.len ≤ c.capacity ∧
    (∀ x key, (x, key) ∈ w.inner.expirations.entries ↔
      ∃ e, w.inner.entries.get? key = some e ∧ e.expirationKey = some x) ∧
    (∀ key value expiration now, c.disabled = false → expiration ≠ .ttl 0 →
      ((w.step c (.insert key value expiration now)).inner.entries.get? key).isSome) ∧
    ∀ op key, w.inner.entries.len = c.capacity → w.inner.entries.get? key = none →
      ((w.step c op).inner.entries.get? key).isSome →
      ∃ victim e, w.inner.entries.get? victim = some e ∧
        (∀ k, k ≠ key → (w.step c op).inner.entries.get? k =
          if k = victim then none else w.inner.entries.get? k) ∧
        ((∃ k e', w.inner.entries.get? k = some e' ∧ e'.isExpiredAt op.now = true) →
          e.isExpiredAt op.now = true) ∧
        ((∀ k e', w.inner.entries.get? k = some e' → e'.isExpiredAt op.now = false) →
          ∀ k, (w.inner.entries.get? k).isSome → lastUse c ops victim ≤ lastUse c ops k) := by
  intro w
  have haged := Aged.run c hcapacity ops
  have hr : w.inner.Resident c.capacity := haged.resident
  refine ⟨hr.bounded, fun x key => mem_entries.trans (hr.indexed x key), ?_, ?_⟩
  · intro key value expiration now henabled hstored
    have hget := (hr.put key hcapacity (value, .inserted w.time) expiration now).2.2 key
    rw [if_pos rfl] at hget
    change ((w.inner.insertWithExpiration c key _ expiration now).2.entries.get? key).isSome
    unfold insertWithExpiration
    rw [if_neg (by simp [henabled, hstored])]
    exact isSome_iff_exists.mpr ⟨_, hget⟩
  · intro op key hfull habsent hsome
    obtain ⟨victim, e, hvictim, he, hexpired, hleast⟩ :=
      haged.evicts hcapacity hfull habsent op.now
    refine ⟨victim, e, he, fun k hk => ?_, hexpired, hleast⟩
    rw [brings hr hcapacity habsent hsome k hk, hvictim]
    simp only [some.injEq, eq_comm]

namespace Sample

def config : CacheConfig := { capacity := 2, expiration := .ttl 60 }

/-- Two insertions, of which the second expires first. -/
def insertions : List (Op Nat Char) := [.insert 0 'a' (.ttl 60) 0, .insert 1 'b' (.ttl 1) 0]

/-- The entry that expired gives way, and not the one that was used first. -/
theorem residence_insertions :
    ∃ victim e, (World.run config insertions).inner.entries.get? victim = some e ∧
      e.isExpiredAt 5 = true ∧
      ((World.run config insertions).step config
        (.insert 2 'c' (.ttl 60) 5)).inner.entries.get? victim = none := by
  have hfirst : ((World.run config insertions).inner.entries.get? 1).any (·.isExpiredAt 5) = true := by
    decide +kernel
  have habsent : (World.run config insertions).inner.entries.get? 2 = none := by
    refine not_isSome_iff_eq_none.mp ?_
    decide +kernel
  obtain ⟨e', he', hpassed⟩ := (any_eq_true _ _).mp hfirst
  obtain ⟨-, -, hstores, hevicts⟩ := residence config (by decide) insertions
  obtain ⟨victim, e, he, hothers, hexpired, -⟩ := hevicts (.insert 2 'c' (.ttl 60) 5) 2
    (by decide +kernel) habsent (hstores 2 'c' (.ttl 60) 5 (by decide) (by decide))
  refine ⟨victim, e, he, hexpired ⟨1, e', he', hpassed⟩, (hothers victim ?_).trans (if_pos rfl)⟩
  rintro rfl
  rw [habsent] at he
  cases he

end Sample

end World

end AuxCommon.Cache
