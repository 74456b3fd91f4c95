import Mathlib.Tactic.Common

/-!
# Runs of a system

A system is a step relation `step s a s'` on states with labelled steps. A **run** is a finite
sequence of steps, each allowed by a guard `ok s a` on the state before it. A proof about every
run is a proof about one step:

* `Run.invariant`: what every allowed step keeps holds at the end of every run.
* `Run.relate`: what every allowed step does to an observation `f s`, up to a preorder, every
  run does.
* `Run.ofList`: a list of labels that the guard allows is a run of a deterministic system.
* `Run.ofScript`: the same for a step function that can be disabled, with what holds at the end.
-/

namespace AuxCommon

variable {σ α τ β : Type}

/-- The runs of `step` from `s`, each step allowed by `ok` in the state before it. -/
inductive Run (step : σ → α → σ → Prop) (ok : σ → α → Prop) (s : σ) : σ → Prop
  | refl : Run step ok s s
  | tail {t u : σ} {a : α} : Run step ok s t → ok t a → step t a u → Run step ok s u

namespace Run

variable {step : σ → α → σ → Prop} {ok ok' : σ → α → Prop} {s t u : σ} {I : σ → Prop}

theorem single {a : α} (ha : ok s a) (h : step s a t) : Run step ok s t := .tail .refl ha h

theorem trans (h : Run step ok s t) (h' : Run step ok t u) : Run step ok s u := by
  induction h' with
  | refl => exact h
  | tail _ ha hst ih => exact ih.tail ha hst

theorem mono (hok : ∀ s a, ok s a → ok' s a) (h : Run step ok s t) : Run step ok' s t := by
  induction h with
  | refl => exact .refl
  | tail _ ha hst ih => exact ih.tail (hok _ _ ha) hst

/-- An inductive invariant holds at the end of every run that starts in it. -/
theorem invariant (hstep : ∀ s a s', I s → ok s a → step s a s' → I s')
    (h : Run step ok s t) (hs : I s) : I t := by
  induction h with
  | refl => exact hs
  | tail _ ha hst ih => exact hstep _ _ _ ih ha hst

/-- An invariant under which every step moves in a preorder moves every run in it. -/
theorem relate {R : σ → σ → Prop} (refl : ∀ s, R s s) (trans : ∀ s t u, R s t → R t u → R s u)
    (hstep : ∀ s a s', I s → ok s a → step s a s' → I s' ∧ R s s')
    (h : Run step ok s t) (hs : I s) : I t ∧ R s t := by
  induction h with
  | refl => exact ⟨hs, refl s⟩
  | tail _ ha hst ih =>
    obtain ⟨hi, hr⟩ := hstep _ _ _ ih.1 ha hst
    exact ⟨hi, trans _ _ _ ih.2 hr⟩

/-- Whether the guard allows the labels of a list one after the other. -/
def allows (f : σ → α → σ) (ok : σ → α → Prop) [∀ s a, Decidable (ok s a)] : σ → List α → Bool
  | _, [] => true
  | s, a :: as => decide (ok s a) && allows f ok (f s a) as

theorem ofList {f : σ → α → σ} [∀ s a, Decidable (ok s a)] {as : List α}
    (h : allows f ok s as = true) : Run (fun s a s' => s' = f s a) ok s (as.foldl f s) := by
  induction as generalizing s with
  | nil => exact .refl
  | cons a as ih =>
    rw [allows, Bool.and_eq_true, decide_eq_true_eq] at h
    exact (single h.1 rfl).trans (ih h.2)

/-- The state after a list of labels, if the guard allows and `f` enables each of them. -/
def script (f : σ → α → Option σ) (ok : σ → α → Prop) [∀ s a, Decidable (ok s a)] :
    σ → List α → Option σ
  | s, [] => some s
  | s, a :: as => if ok s a then (f s a).bind fun s' => script f ok s' as else none

theorem ofScript {f : σ → α → Option σ} [∀ s a, Decidable (ok s a)] {as : List α} {p : σ → Bool}
    (h : (script f ok s as).any p = true) :
    ∃ t, Run (fun s a s' => f s a = some s') ok s t ∧ p t = true := by
  induction as generalizing s with
  | nil => exact ⟨s, .refl, h⟩
  | cons a as ih =>
    rw [script] at h
    split at h
    · rename_i ha
      cases hs : f s a with
      | none =>
        rw [hs] at h
        cases h
      | some s' =>
        rw [hs] at h
        obtain ⟨t, ht, hp⟩ := ih h
        exact ⟨t, (single ha hs).trans ht, hp⟩
    · cases h

end Run

end AuxCommon
