import Mathlib.Algebra.Order.Ring.Nat
import Mathlib.Tactic.Common

/-!
# Greedy batches

A list is cut into batches, each as long as a count and a total size allow, and at least one item
long. The batches are the list (`flatten_cut`) and keep the limits when each item does
(`cut_within`). Where any `k` items are within the limits, a batch that is not the last has `k`
items at least, so that there are at most `⌈n / k⌉` batches (`length_cut_le`).
-/

namespace AuxCommon.Batches

open List

variable {α : Type} (size : α → Nat)

/-- The items that still fit: `room` more of them, above a total of `total`. -/
def fitting (maxSize : Nat) : Nat → Nat → List α → Nat
  | 0, _, _ => 0
  | _, _, [] => 0
  | room + 1, total, x :: xs =>
    if maxSize < total + size x then 0 else fitting maxSize room (total + size x) xs + 1

/-- The length of the first batch. -/
def first (maxCount maxSize : Nat) (xs : List α) : Nat :=
  min (max (fitting size maxSize maxCount 0 xs) 1) xs.length

def cut (maxCount maxSize : Nat) (xs : List α) : List (List α) :=
  if xs = [] then []
  else xs.take (first size maxCount maxSize xs) ::
    cut maxCount maxSize (xs.drop (first size maxCount maxSize xs))
termination_by xs.length
decreasing_by
  rename_i hxs
  have := List.length_pos_iff.mpr hxs
  rw [List.length_drop, first]
  omega

variable {size} {maxCount maxSize : Nat} {xs : List α}

theorem fitting_le (room total : Nat) (xs : List α) : fitting size maxSize room total xs ≤ room := by
  fun_induction fitting size maxSize room total xs with
  | case4 room total x xs _ ih => omega
  | _ => omega

/-- What fits is within the limit, if the total was. -/
theorem sum_take_fitting (room total : Nat) (xs : List α) (h : total ≤ maxSize) :
    total + ((xs.take (fitting size maxSize room total xs)).map size).sum ≤ maxSize := by
  fun_induction fitting size maxSize room total xs with
  | case1 => simpa using h
  | case2 => simpa using h
  | case3 => simpa using h
  | case4 room total x xs hfit ih =>
    rw [take_succ_cons, map_cons, sum_cons]
    have := ih (by omega)
    omega

/-- As many items fit as are sure to: `k` of them, each of size `s` at most. -/
theorem le_fitting {s : Nat} (k room total : Nat) (xs : List α) (hsize : ∀ x ∈ xs, size x ≤ s)
    (hroom : k ≤ room) (hfit : total + k * s ≤ maxSize) :
    min k xs.length ≤ fitting size maxSize room total xs := by
  induction k generalizing room total xs with
  | zero => simp
  | succ k ih =>
    cases xs with
    | nil => simp
    | cons x xs =>
      obtain ⟨room, rfl⟩ : ∃ r, room = r + 1 := ⟨room - 1, by omega⟩
      obtain ⟨hx, hsize⟩ := forall_mem_cons.mp hsize
      rw [Nat.succ_mul] at hfit
      have := ih room (total + size x) xs hsize (by omega) (by omega)
      rw [fitting, if_neg (by omega), length_cons]
      omega

theorem flatten_cut : (cut size maxCount maxSize xs).flatten = xs := by
  fun_induction cut size maxCount maxSize xs with
  | case1 => rfl
  | case2 xs _ ih => rw [flatten_cons, ih, take_append_drop]

/-- A batch is not empty and within the limits. -/
structure Within (size : α → Nat) (maxCount maxSize : Nat) (batch : List α) : Prop where
  ne_nil : batch ≠ []
  count : batch.length ≤ maxCount
  size : (batch.map size).sum ≤ maxSize

theorem first_within (hcount : 1 ≤ maxCount) (hsize : ∀ x ∈ xs, size x ≤ maxSize) (hxs : xs ≠ []) :
    Within size maxCount maxSize (xs.take (first size maxCount maxSize xs)) := by
  have hpos := length_pos_iff.mpr hxs
  have hle : fitting size maxSize maxCount 0 xs ≤ maxCount := fitting_le maxCount 0 xs
  have hlen : 1 ≤ first size maxCount maxSize xs := by
    unfold first
    omega
  refine ⟨?_, ?_, ?_⟩
  · rw [Ne, take_eq_nil_iff]
    rintro (h | h)
    · omega
    · exact hxs h
  · rw [length_take, first]
    omega
  · by_cases hone : fitting size maxSize maxCount 0 xs ≤ 1
    · -- a single item, whatever fits
      obtain ⟨x, xs, rfl⟩ := exists_cons_of_ne_nil hxs
      have hfirst : first size maxCount maxSize (x :: xs) = 1 := by
        unfold first
        omega
      simpa [hfirst] using hsize x mem_cons_self
    · have htake : xs.take (first size maxCount maxSize xs) =
          xs.take (fitting size maxSize maxCount 0 xs) := by
        rw [first, max_eq_left (by omega), take_eq_take_iff]
        omega
      rw [htake]
      simpa using sum_take_fitting maxCount 0 xs (Nat.zero_le _)

theorem cut_within (hcount : 1 ≤ maxCount) (hsize : ∀ x ∈ xs, size x ≤ maxSize) :
    ∀ batch ∈ cut size maxCount maxSize xs, Within size maxCount maxSize batch := by
  fun_induction cut size maxCount maxSize xs with
  | case1 => simp
  | case2 xs hxs ih =>
    rw [forall_mem_cons]
    exact ⟨first_within hcount hsize hxs, ih fun x hx => hsize x (mem_of_mem_drop hx)⟩

/-- `k` items are taken, or all that are left. -/
theorem le_first {k s : Nat} (hsize : ∀ x ∈ xs, size x ≤ s) (hcount : k ≤ maxCount)
    (hfit : k ≤ 1 ∨ k * s ≤ maxSize) : min k xs.length ≤ first size maxCount maxSize xs := by
  unfold first
  rcases hfit with hk | hfit
  · omega
  · have : min k xs.length ≤ fitting size maxSize maxCount 0 xs :=
      le_fitting k maxCount 0 xs hsize hcount (by rwa [Nat.zero_add])
    omega

theorem length_cut_le {k s m : Nat} (hsize : ∀ x ∈ xs, size x ≤ s) (hcount : k ≤ maxCount)
    (hfit : k ≤ 1 ∨ k * s ≤ maxSize) (hlen : xs.length ≤ m * k) :
    (cut size maxCount maxSize xs).length ≤ m := by
  fun_induction cut size maxCount maxSize xs generalizing m with
  | case1 => simp
  | case2 xs hxs ih =>
    have hpos := length_pos_iff.mpr hxs
    have hfirst := le_first hsize hcount hfit
    obtain ⟨m, rfl⟩ : ∃ n, m = n + 1 := Nat.exists_eq_succ_of_ne_zero (by rintro rfl; omega)
    rw [length_cons, Nat.add_le_add_iff_right]
    refine ih (fun x hx => hsize x (mem_of_mem_drop hx)) ?_
    rw [Nat.succ_mul] at hlen
    rw [length_drop]
    omega

end AuxCommon.Batches
