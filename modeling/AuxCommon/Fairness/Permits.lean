import AuxCommon.Fairness.Run

/-!
# Permits and acquisition generations

A permit names one acquisition of its job by a generation, and `settle_permit` accepts it only
while that generation is the current one. The generation of a record only grows, except in two
steps: `reconcile_leased` clears the generation of a leased record, and `compact_candidate` drops
the record with its generation (`KeepsGeneration` excludes both). After either one the next
acquisition starts again at the first generation, and a permit that was kept from before settles
it.
-/

namespace AuxCommon

/-- The generation of a permit as a number. -/
def FairPermitGeneration.toNat (g : FairPermitGeneration) : Nat := g.value.get.toNat

theorem FairPermitGeneration.next_toNat {g g' : FairPermitGeneration} (h : g.next = some g') :
    g'.toNat = g.toNat + 1 := next_eq_some h

namespace FairnessLedger

variable {l l' : FairnessLedger} {j : JobId} {p : FairPermit} {g : FairPermitGeneration}

theorem nextPermitGeneration_some {g g' : FairPermitGeneration}
    (h : nextPermitGeneration (some g) = .ok g') : g'.toNat = g.toNat + 1 := by
  unfold nextPermitGeneration at h
  dsimp only at h
  split at h
  · rename_i heq
    cases h
    exact FairPermitGeneration.next_toNat heq
  · cases h

/-! ## Generations grow -/

/-- The generation of the last acquisition of a job. -/
def generationAt (l : FairnessLedger) (j : JobId) : Option FairPermitGeneration :=
  l.candidates[j]?.bind (·.acquisitionGeneration)

/-- A selection returns the permit of the lease that it made, at the generation after the one
that the record had. -/
theorem selectNextDueIn_permit {now : Timestamp} {eligible : Finset JobId} (hk : l.Keyed)
    (h : l.selectNextDueIn now eligible = (.ok (some p), l')) :
    nextPermitGeneration (l.generationAt p.jobId) = .ok p.acquisitionGeneration ∧
      l'.generationAt p.jobId = some p.acquisitionGeneration ∧
      l'.currentPermit p.jobId = some p := by
  obtain ⟨l₀, hl₀, ⟨hno, -⟩ | ⟨record, g, prepared, prep, hch, heq⟩⟩ :=
    selectNextDueIn_cases l now eligible
  · exact absurd (congrArg Prod.fst h) (hno p)
  · rw [heq] at h
    obtain ⟨hp, rfl⟩ := Prod.mk.inj h
    cases hp
    have hjob := hk.upToReset hl₀ _ _ hch.validated.get
    obtain ⟨n, hn⟩ := hl₀.get hch.validated.get
    have hleased : (l₀.settleSelection (record.selection g) prep
        (l.prepareSelectionPass (some now) (some eligible))).2.candidates[prepared.jobId]? =
          some (record.leased g) := by
      rw [settleSelection_candidates, show (record.selection g).jobId = _ from hjob]
      exact get_modify_self hch.validated.get
    rw [show (record.selection g).permit.jobId = prepared.jobId from hjob]
    refine ⟨?_, ?_, currentPermit_eq_some.mpr ⟨record.leased g, hleased, rfl, ?_⟩⟩
    · rw [generationAt, hn]; exact hch.validated.generation
    · rw [generationAt, hleased]; rfl
    · rw [← hjob]; rfl

/-- The calls that do not start the generation of the job `j` again. -/
def KeepsGeneration (j : JobId) (l : FairnessLedger) : LedgerOp → Prop
  | .reconcile j' _ => j' = j → l.candidateState j ≠ some .leased
  | .compact j' => j' = j → ∀ state, l.candidateState j = some state → state.isCompactable = false
  | _ => True

theorem Effect.generation_le {op : LedgerOp} (h : l.Effect op l') (hk : l.Keyed)
    (hop : KeepsGeneration j l op) (hg : l.generationAt j = some g) :
    ∃ g', l'.generationAt j = some g' ∧ g.toNat ≤ g'.toNat := by
  have hrec := h.record hk j
  unfold generationAt at hg ⊢
  have hstate : ∀ r, l.candidates[j]? = some r → l.candidateState j = some r.state := by
    intro r hr; rw [candidateState, hr]; rfl
  generalize l.candidates[j]? = o at hrec hg hstate
  generalize l'.candidates[j]? = o' at hrec
  cases hrec with
  | put _ _ _ _ _ generation => exact ⟨g, by rw [Option.bind_some, generation, hg], le_refl _⟩
  | @leased _ _ r g' _ generation =>
    rw [Option.bind_some] at hg
    rw [hg] at generation
    exact ⟨g', rfl, by have := nextPermitGeneration_some generation; omega⟩
  | reconciled leased => exact absurd ((hstate _ rfl).trans (congrArg some leased)) (hop rfl)
  | compacted compactable =>
    have := hop rfl _ (hstate _ rfl)
    rw [compactable] at this
    cases this
  | _ => exact ⟨g, hg, le_refl _⟩

/-- Along a run that never starts the generation of `j` again, it only grows. -/
theorem generation_run (hw : l.WellFormed) (h : RunFrom (KeepsGeneration j) l l')
    (hg : l.generationAt j = some g) :
    l'.WellFormed ∧ ∃ g', l'.generationAt j = some g' ∧ g.toNat ≤ g'.toNat := by
  refine h.invariant
    (I := fun l' => l'.WellFormed ∧ ∃ g', l'.generationAt j = some g' ∧ g.toNat ≤ g'.toNat)
    (fun l op l' hi hop hst => ?_) ⟨hw, g, hg, le_refl _⟩
  obtain ⟨hw, g₁, hg₁, hle⟩ := hi
  obtain ⟨g₂, hg₂, hle'⟩ := hst.effect.generation_le hw.keyed hop hg₁
  exact ⟨hw.effect hst.effect, g₂, hg₂, hle.trans hle'⟩

/-- A permit of another generation than the current one is refused. -/
theorem release_refused (hg : l.generationAt p.jobId = some g)
    (hne : g.toNat ≠ p.acquisitionGeneration.toNat) (outcome : FairRelease) :
    (∃ e, (l.release p outcome).1 = .error e) ∧ (l.release p outcome).2 = l := by
  rcases release_cases (l := l) (p := p) (r := outcome) with h | ⟨r, hr, -, hgen, -⟩
  · exact h
  · rw [generationAt, hr, Option.bind_some, hgen] at hg
    cases hg
    exact absurd rfl hne

/-- A permit that was kept from an earlier acquisition of its job is refused, as long as no call
since then started the job's generation again: for every ledger that a run reaches, whatever
happened between the two acquisitions and after the second. -/
theorem retained_permit_refused {b : FairnessBudget} {l₀ l₁ l₂ l₃ l₄ : FairnessLedger}
    {p p' : FairPermit} {now now' : Timestamp} {eligible eligible' : Finset JobId}
    (hrun : RunFrom (fun _ _ => True) (.new b) l₀)
    (hfirst : l₀.selectNextDueIn now eligible = (.ok (some p), l₁))
    (hbetween : RunFrom (KeepsGeneration p.jobId) l₁ l₂)
    (hagain : l₂.selectNextDueIn now' eligible' = (.ok (some p'), l₃))
    (hjob : p'.jobId = p.jobId)
    (hafter : RunFrom (KeepsGeneration p.jobId) l₃ l₄) (outcome : FairRelease) :
    (∃ e, (l₄.release p outcome).1 = .error e) ∧ (l₄.release p outcome).2 = l₄ := by
  have hw₀ : l₀.WellFormed :=
    hrun.invariant (fun _ _ _ hw _ hst => hw.effect hst.effect) (.new b)
  obtain ⟨-, hg₁, -⟩ := selectNextDueIn_permit hw₀.keyed hfirst
  have hw₁ : l₁.WellFormed := by
    have := hw₀.effect (apply_effect (.select now eligible))
    rwa [apply, hfirst] at this
  obtain ⟨hw₂, g₂, hg₂, hle₂⟩ := generation_run hw₁ hbetween hg₁
  obtain ⟨hnext, hg₃, -⟩ := selectNextDueIn_permit hw₂.keyed hagain
  rw [hjob] at hnext hg₃
  rw [hg₂] at hnext
  have hlt := nextPermitGeneration_some hnext
  have hw₃ : l₃.WellFormed := by
    have := hw₂.effect (apply_effect (.select now' eligible'))
    rwa [apply, hagain] at this
  obtain ⟨-, g₄, hg₄, hle₄⟩ := generation_run hw₃ hafter hg₃
  exact release_refused hg₄ (by omega) outcome

/-- A permit that was released with `Retry` is refused after its job was selected again. -/
theorem retained_permit_refused_sample :
    let l₀ := (FairnessLedger.new .tiny).apply (.add (.plain 1 7))
    let l₁ := (l₀.selectNextDueIn ⟨5⟩ {.repeated 1}).2
    let l₂ := l₁.apply (.release (.plain 1 7) .retry)
    let l₃ := (l₂.selectNextDueIn ⟨5⟩ {.repeated 1}).2
    (∃ e, (l₃.release (.plain 1 7) .complete).1 = .error e) ∧
      (l₃.release (.plain 1 7) .complete).2 = l₃ := by
  intro l₀ l₁ l₂ l₃
  have hrun : RunFrom (fun _ _ => True) (.new .tiny) l₀ :=
    .single (a := .add (.plain 1 7)) trivial rfl
  have hfirst : l₀.selectNextDueIn ⟨5⟩ {.repeated 1} = (.ok (some (.plain 1 7)), l₁) :=
    Prod.ext (by decide +kernel) rfl
  have hbetween : RunFrom (KeepsGeneration (.repeated 1)) l₁ l₂ :=
    .single (a := .release (.plain 1 7) .retry) trivial rfl
  have hagain : l₂.selectNextDueIn ⟨5⟩ {.repeated 1} = (.ok (some { FairPermit.plain 1 7 with
      acquisitionGeneration := ⟨⟨2, by decide⟩⟩ }), l₃) :=
    Prod.ext (by decide +kernel) rfl
  exact retained_permit_refused hrun hfirst hbetween hagain rfl .refl .complete

/-- A job is selected, `between` happens, and it is selected again: both selections return the
same permit, and the one kept from the first settles the second. -/
def Reissues (between : List LedgerOp) : Prop :=
  let l₀ := (FairnessLedger.new .tiny).apply (.add (.plain 1 7))
  let first := l₀.selectNextDueIn ⟨5⟩ {.repeated 1}
  let again := (between.foldl apply first.2).selectNextDueIn ⟨5⟩ {.repeated 1}
  first.1 = .ok (some (.plain 1 7)) ∧ again.1 = .ok (some (.plain 1 7)) ∧
    (again.2.release (.plain 1 7) .complete).1 = .ok ()

instance (between : List LedgerOp) : Decidable (Reissues between) := by
  unfold Reissues; infer_instance

/-- A reconciliation, or a compaction and a new registration, reissues the permit of a job. -/
theorem retained_permit_settles :
    Reissues [.reconcile (.repeated 1) ⟨1⟩] ∧
      Reissues [.remove (.repeated 1), .compact (.repeated 1), .add (.plain 1 7)] := by
  decide +kernel

end FairnessLedger

end AuxCommon
