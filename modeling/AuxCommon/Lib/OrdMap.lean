import Mathlib.Algebra.Order.BigOperators.Group.List
import Mathlib.Algebra.Order.Ring.Nat
import Mathlib.Tactic.Common

/-!
# Ordered maps and totals over them

Rust's `BTreeMap` is the standard library's extensional tree map: maps with the same entries
are equal and iteration is in key order. The lookup lemmas are restated with `k = k'` in place
of `compare k k' = .eq`, so that `split` and `simp` see an equation of keys.

* `total f m` adds `f k v` over the entries. The lemmas on a change of one entry
  (`total_insert`, `total_modify`, `total_erase`) are equations of sums, so a counter that a
  program keeps in step with a map is compared with a total by linear arithmetic.
* `count p m` is the number of entries that satisfy `p`.
-/

namespace AuxCommon

open Std List DTreeMap.Internal.Impl

/-- An ordered map: a `BTreeMap` with the key order of `Ord K`. -/
abbrev OrdMap (K V : Type) [Ord K] := ExtTreeMap K V compare

namespace OrdMap

variable {K V : Type} [Ord K] [TransOrd K]
variable {m : OrdMap K V} {k k' : K} {v : V} {f : K → V → Nat} {p : K → V → Bool}

/-- The sum of `f k v` over the entries of `m`. -/
def total (f : K → V → Nat) (m : OrdMap K V) : Nat := (m.toList.map fun e => f e.1 e.2).sum

/-- The number of entries of `m` that satisfy `p`. -/
def count (p : K → V → Bool) (m : OrdMap K V) : Nat := total (fun k v => (p k v).toNat) m

theorem nodup_toList : m.toList.Nodup := by
  refine (ExtTreeMap.ordered_keys_toList (t := m)).imp ?_
  rintro a _ h rfl
  simp at h

@[simp] theorem total_empty : total f (∅ : OrdMap K V) = 0 := by
  simp [total, ExtTreeMap.toList_eq_nil_iff.mpr rfl]

theorem total_filter_le : total f (m.filter p) ≤ total f m := by
  unfold total
  rw [ExtTreeMap.toList_filter]
  exact (filter_sublist.map _).sum_le_sum fun _ _ => Nat.zero_le _

theorem total_map {g : K → V → V} : total f (m.map g) = total (fun k v => f k (g k v)) m := by
  unfold total
  rw [ExtTreeMap.toList_map, map_map]
  rfl

/-- The values of a map, in key order. -/
theorem values_eq : m.values = m.toList.map (·.2) := by
  obtain ⟨m⟩ := m
  induction m with | mk t
  -- both sides fold the tree from the right
  change values t.inner = (Const.toList t.inner).map (·.2)
  rw [values_eq_map_snd, Const.toList_eq_toListModel_map, map_map]
  rfl

/-! ## Entries -/

variable [LawfulEqOrd K] {g : K → V → Nat}

theorem nodup_keys : (m.toList.map (·.1)).Nodup := by
  refine pairwise_map.mpr (ExtTreeMap.distinct_keys_toList.imp fun hne heq => hne ?_)
  rw [heq]
  exact compare_self

/-- A map is its list of entries, read by key. -/
theorem mem_toList {e : K × V} : e ∈ m.toList ↔ m[e.1]? = some e.2 :=
  ExtTreeMap.mem_toList_iff_getElem?_eq_some

theorem get_filter : (m.filter p)[k]? = m[k]?.filter (p k) :=
  ExtTreeMap.getElem?_filter'

theorem total_congr (h : ∀ k v, m[k]? = some v → f k v = g k v) : total f m = total g m := by
  unfold total
  congr 1
  exact map_congr_left fun e he => h e.1 e.2 (mem_toList.mp he)

theorem total_mono (h : ∀ k v, m[k]? = some v → f k v ≤ g k v) : total f m ≤ total g m := by
  unfold total
  exact sum_le_sum fun e he => h e.1 e.2 (mem_toList.mp he)

theorem total_filter_of_zero (h : ∀ k v, m[k]? = some v → p k v = false → f k v = 0) :
    total f (m.filter p) = total f m := by
  have hmem : ∀ e ∈ m.toList, p e.1 e.2 = false → f e.1 e.2 = 0 :=
    fun e he => h e.1 e.2 (mem_toList.mp he)
  unfold total
  rw [ExtTreeMap.toList_filter]
  generalize m.toList = l at hmem
  induction l with
  | nil => rfl
  | cons e l ih =>
    have htail := ih fun e' he' => hmem e' (mem_cons_of_mem _ he')
    cases hp : p e.1 e.2 with
    | true =>
      rw [filter_cons, if_pos hp, map_cons, map_cons, sum_cons, sum_cons, htail]
    | false =>
      rw [filter_cons, if_neg (by simp [hp]), map_cons, sum_cons, htail,
        hmem e mem_cons_self hp, Nat.zero_add]

theorem total_eq_zero : total f m = 0 ↔ ∀ k v, m[k]? = some v → f k v = 0 := by
  unfold total
  rw [List.sum_eq_zero_iff_forall_eq_nat]
  constructor
  · intro h k v hk
    exact h _ (List.mem_map.mpr ⟨(k, v), mem_toList.mpr hk, rfl⟩)
  · intro h x hx
    obtain ⟨e, he, rfl⟩ := List.mem_map.mp hx
    exact h _ _ (mem_toList.mp he)

/-- A total of a part of each value depends on those parts alone. -/
theorem total_part {W : Type} {m' : OrdMap K V} {part : V → W} {f : K → W → Nat}
    (h : ∀ k : K, m'[k]?.map part = m[k]?.map part) :
    total (fun k v => f k (part v)) m' = total (fun k v => f k (part v)) m := by
  have hparts : m'.map (fun _ v => part v) = m.map fun _ v => part v :=
    ExtTreeMap.ext_getElem? fun k => by
      rw [ExtTreeMap.getElem?_map, ExtTreeMap.getElem?_map, h]
  have htotal : ∀ n : OrdMap K V,
      total (fun k v => f k (part v)) n = total f (n.map fun _ v => part v) := by
    intro n
    unfold total
    rw [ExtTreeMap.toList_map, map_map]
    rfl
  rw [htotal, htotal, hparts]

/-- A map whose nonzero terms are bounded by those of another map has at most its total. -/
theorem total_le_total {m' : OrdMap K V}
    (h : ∀ k v', m'[k]? = some v' → f k v' = 0 ∨ ∃ v, m[k]? = some v ∧ f k v' ≤ g k v) :
    total f m' ≤ total g m := by
  let f' : K → V → Nat := fun k _ => (m[k]?).elim 0 (g k)
  have hle : total f m' ≤ total f' m' := by
    refine total_mono fun k v' hk => ?_
    rcases h k v' hk with hz | ⟨v, hv, hle⟩
    · rw [hz]; exact Nat.zero_le _
    · simp only [f', hv]; exact hle
  have hcommon : total f' (m'.filter fun k _ => m.contains k) = total f' m' := by
    refine total_filter_of_zero fun k v _ hk => ?_
    have hnone : m[k]? = none := by
      simpa [← ExtTreeMap.isSome_getElem?_eq_contains] using hk
    simp only [f', hnone]; rfl
  -- the common keys, once with the values of each map
  have hkeys : (m'.filter fun k _ => m.contains k) =
      (m.filter fun k _ => m'.contains k).map fun k v => (m'[k]?).getD v := by
    refine ExtTreeMap.ext_getElem? fun k => ?_
    rw [get_filter, ExtTreeMap.getElem?_map, get_filter]
    have hm : m.contains k = (m[k]?).isSome := ExtTreeMap.isSome_getElem?_eq_contains.symm
    have hm' : m'.contains k = (m'[k]?).isSome := ExtTreeMap.isSome_getElem?_eq_contains.symm
    rw [hm, hm']
    cases m[k]? <;> cases m'[k]? <;> simp [Option.filter]
  have hback : total f' (m.filter fun k _ => m'.contains k) ≤ total g m := by
    refine (total_mono (g := g) fun k v hk => ?_).trans total_filter_le
    rw [get_filter, Option.filter_eq_some_iff] at hk
    simp only [f', hk.1]; exact le_rfl
  rw [hkeys, total_map] at hcommon
  have hcommon' : total f' (m.filter fun k _ => m'.contains k) = total f' m' := hcommon
  omega

/-! ## Lookup after a change -/

variable [DecidableEq K]

theorem get_insert : (m.insert k v)[k']? = if k' = k then some v else m[k']? := by
  rw [ExtTreeMap.getElem?_insert]
  simp only [Std.compare_eq_iff_eq, eq_comm (a := k)]

theorem get_insertIfNew :
    (m.insertIfNew k v)[k']? = if k' = k then some (m[k]?.getD v) else m[k']? := by
  rw [ExtTreeMap.getElem?_insertIfNew]
  simp only [Std.compare_eq_iff_eq, eq_comm (a := k)]
  by_cases h : k' = k
  · subst h
    cases hm : m[k']? with
    | none => simp [ExtTreeMap.mem_iff_isSome_getElem?, hm]
    | some _ => simp [ExtTreeMap.mem_iff_isSome_getElem?, hm]
  · simp [h]

theorem get_erase : (m.erase k)[k']? = if k' = k then none else m[k']? := by
  rw [ExtTreeMap.getElem?_erase]
  simp only [Std.compare_eq_iff_eq, eq_comm (a := k)]

theorem get_modify {f : V → V} :
    (m.modify k f)[k']? = m[k']?.map fun v => if k' = k then f v else v := by
  rw [ExtTreeMap.getElem?_modify]
  simp only [Std.compare_eq_iff_eq]
  by_cases h : k = k'
  · simp [h]
  · simp [h, Ne.symm h]

@[simp] theorem get_insert_self : (m.insert k v)[k]? = some v := by rw [get_insert, if_pos rfl]

/-! ## Totals after a change -/

/-- The entries of a map are one entry and the entries under the other keys. -/
theorem toList_perm (h : m[k]? = some v) : m.toList.Perm ((k, v) :: (m.erase k).toList) := by
  refine (perm_ext_iff_of_nodup nodup_toList ?_).mpr fun e => ?_
  · refine nodup_cons.mpr ⟨fun hm => ?_, nodup_toList⟩
    rw [mem_toList, get_erase, if_pos rfl] at hm
    cases hm
  · rw [mem_cons, mem_toList, mem_toList, get_erase]
    by_cases he : e.1 = k
    · simp [he, h, Prod.ext_iff, eq_comm]
    · simp [he, Prod.ext_iff]

theorem erase_of_none (h : m[k]? = none) : m.erase k = m := by
  refine ExtTreeMap.ext_getElem? fun k' => ?_
  rw [get_erase]
  split
  · simp_all
  · rfl

theorem modify_of_none {f : V → V} (h : m[k]? = none) : m.modify k f = m := by
  refine ExtTreeMap.ext_getElem? fun k' => ?_
  rw [get_modify]
  by_cases hk : k' = k
  · subst hk; simp [h]
  · simp [hk]

theorem total_erase : total f (m.erase k) + m[k]?.elim 0 (f k) = total f m := by
  cases h : m[k]? with
  | none => rw [erase_of_none h]; rfl
  | some v =>
    unfold total
    rw [((toList_perm h).map _).sum_eq, map_cons, sum_cons, Nat.add_comm]
    rfl

theorem total_insert : total f (m.insert k v) + m[k]?.elim 0 (f k) = total f m + f k v := by
  have herase : (m.insert k v).erase k = m.erase k := by
    refine ExtTreeMap.ext_getElem? fun k' => ?_
    rw [get_erase, get_erase, get_insert]
    split <;> rfl
  have h₁ := total_erase (m := m.insert k v) (k := k) (f := f)
  have h₂ := total_erase (m := m) (k := k) (f := f)
  rw [herase, get_insert_self, Option.elim_some] at h₁
  omega

theorem total_modify {g : V → V} (h : m[k]? = some v) :
    total f (m.modify k g) + f k v = total f m + f k (g v) := by
  have hins : m.modify k g = m.insert k (g v) := by
    refine ExtTreeMap.ext_getElem? fun k' => ?_
    rw [get_modify, get_insert]
    by_cases hk : k' = k
    · subst hk; simp [h]
    · simp [hk]
  have := total_insert (m := m) (k := k) (v := g v) (f := f)
  rw [h, Option.elim_some] at this
  rw [hins]
  exact this

/-- A term is at most the total. -/
theorem le_total (h : m[k]? = some v) : f k v ≤ total f m := by
  have := total_erase (m := m) (k := k) (f := f)
  rw [h, Option.elim_some] at this
  omega

/-- Two terms under different keys are together at most the total. -/
theorem add_le_total {v' : V} (hne : k ≠ k') (h : m[k]? = some v)
    (h' : m[k']? = some v') : f k v + f k' v' ≤ total f m := by
  have := total_erase (m := m) (k := k) (f := f)
  have hle : f k' v' ≤ total f (m.erase k) :=
    le_total (by rw [get_erase, if_neg (Ne.symm hne)]; exact h')
  rw [h, Option.elim_some] at this
  omega

end OrdMap

end AuxCommon
