import AuxCommon.Lib.Program

/-!
# The results of programs

`Prog.CanReturn p r`: some answers of a store make the program return `r`. A fact about all such
results holds whatever the store does, and `Prog.run` gives one of them.
-/

namespace AuxCommon

open Std

namespace Prog

variable {I K V E α β : Type}

/-- Some answers make the program return `r`. -/
def CanReturn : Prog I K V E α → Except E α → Prop
  | .ret r, r' => r = r'
  | .read _ next, r => ∃ answers, (next answers).CanReturn r
  | .page _ next, r => ∃ answer, (next answer).CanReturn r
  | .commit _ next, r => ∃ answer, (next answer).CanReturn r

/-- A program in sequence returns what its second part does after a result of its first. -/
theorem CanReturn.of_bind {p : Prog I K V E α} {f : α → Prog I K V E β} {b : β}
    (h : (p >>= f).CanReturn (.ok b)) : ∃ a, p.CanReturn (.ok a) ∧ (f a).CanReturn (.ok b) := by
  induction p with
  | ret r =>
    cases r with
    | ok a => exact ⟨a, rfl, h⟩
    | error e => cases h
  | read ks next ih =>
    obtain ⟨answers, h⟩ := h
    obtain ⟨a, ha, hb⟩ := ih answers h
    exact ⟨a, ⟨answers, ha⟩, hb⟩
  | page r next ih =>
    obtain ⟨answer, h⟩ := h
    obtain ⟨a, ha, hb⟩ := ih answer h
    exact ⟨a, ⟨answer, ha⟩, hb⟩
  | commit t next ih =>
    obtain ⟨answer, h⟩ := h
    obtain ⟨a, ha, hb⟩ := ih answer h
    exact ⟨a, ⟨answer, ha⟩, hb⟩

theorem canReturn_run [Ord K] [TransOrd K] [DecidableEq I] [DecidableEq K] [DecidableEq V]
    (p : Prog I K V E α) (w : World I K V) : p.CanReturn (p.run w).1 := by
  induction p generalizing w with
  | ret r => rfl
  | read ks next ih => exact ⟨_, ih _ _⟩
  | page r next ih => exact ⟨_, ih _ _⟩
  | commit t next ih => exact ⟨_, ih _ _⟩

end Prog

end AuxCommon
