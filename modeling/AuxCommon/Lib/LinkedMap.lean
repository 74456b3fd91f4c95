import Mathlib.Data.List.Nodup
import Mathlib.Tactic.Common

/-!
# Maps in insertion order

A linked hash map is a hash map whose entries are in a list, the oldest first. Here it is the
list of its entries, with the proof that no key is in it twice. A plain hash map is one whose
order nobody looks at.

`get?` reads an entry, and each change has a lemma that says what `get?` reads after it.
-/

namespace AuxCommon

open List

/-- A map in insertion order. -/
@[ext] structure LinkedMap (K V : Type) where
  entries : List (K × V)
  nodup : (entries.map Prod.fst).Nodup

namespace LinkedMap

variable {K V M : Type}

def empty : LinkedMap K V := ⟨[], List.nodup_nil⟩

/-- The number of entries. -/
def len (m : LinkedMap K V) : Nat := m.entries.length

/-- The oldest entry. -/
def front? (m : LinkedMap K V) : Option (K × V) := m.entries.head?

/-- The entries that satisfy `p` (`retain`). -/
def filter (p : K → V → Bool) (m : LinkedMap K V) : LinkedMap K V :=
  ⟨m.entries.filter fun e => p e.1 e.2, m.nodup.sublist (List.filter_sublist.map _)⟩

section Keys

variable [DecidableEq K]

def get? (m : LinkedMap K V) (k : K) : Option V :=
  (m.entries.find? fun e => e.1 = k).map Prod.snd

/-- `contains_key`. -/
def contains (m : LinkedMap K V) (k : K) : Bool := (m.get? k).isSome

def erase (m : LinkedMap K V) (k : K) : LinkedMap K V := m.filter fun k' _ => k' ≠ k

/-- `insert`: an entry of the same key is replaced, and the new one is the newest. -/
def insert (m : LinkedMap K V) (k : K) (v : V) : LinkedMap K V where
  entries := (m.erase k).entries ++ [(k, v)]
  nodup := by
    rw [List.map_append, List.nodup_append]
    refine ⟨(m.erase k).nodup, List.nodup_singleton _, ?_⟩
    rintro a ha b hb rfl
    obtain ⟨e, he, rfl⟩ := List.mem_map.mp ha
    have := (List.mem_filter.mp he).2
    simp_all

/-- `to_back`: the entry of the key becomes the newest. -/
def toBack (m : LinkedMap K V) (k : K) : LinkedMap K V :=
  match m.get? k with
  | some v => m.insert k v
  | none => m

end Keys

variable {m : LinkedMap K V} {k k' : K} {v v' : V} {e : K × V} {p : K → V → Bool}

theorem eq_of_mem (h : (k, v) ∈ m.entries) (h' : (k, v') ∈ m.entries) : v = v' :=
  congrArg Prod.snd (inj_on_of_nodup_map m.nodup h h' rfl)

section Lookup

variable [DecidableEq K]

/-- A map is its list of entries, read by key. -/
theorem mem_entries : (k, v) ∈ m.entries ↔ m.get? k = some v := by
  unfold get?
  constructor
  · intro h
    cases hf : m.entries.find? (fun e => decide (e.1 = k)) with
    | none => exact absurd (find?_eq_none.mp hf _ h) (by simp)
    | some e =>
      obtain ⟨k', v'⟩ := e
      have hk : k' = k := by simpa using find?_some hf
      subst hk
      rw [eq_of_mem h (mem_of_find?_eq_some hf), Option.map_some]
  · intro h
    obtain ⟨⟨k', v'⟩, hf, rfl⟩ := Option.map_eq_some_iff.mp h
    have hk : k' = k := by simpa using find?_some hf
    exact hk ▸ mem_of_find?_eq_some hf

@[simp] theorem get?_empty : (empty : LinkedMap K V).get? k = none := rfl

theorem get?_filter : (m.filter p).get? k = (m.get? k).filter (p k) :=
  Option.ext fun v => by
    rw [← mem_entries, filter, mem_filter, mem_entries, Option.filter_eq_some_iff]

theorem get?_erase : (m.erase k).get? k' = if k' = k then none else m.get? k' := by
  rw [erase, get?_filter]
  split
  · simp [*]
  · cases m.get? k' <;> simp [*]

theorem get?_insert : (m.insert k v).get? k' = if k' = k then some v else m.get? k' := by
  refine Option.ext fun w => ?_
  rw [← mem_entries]
  simp only [insert, mem_append, mem_singleton, mem_entries, get?_erase, Prod.mk.injEq]
  split <;> simp_all [eq_comm]

theorem get?_toBack : (m.toBack k).get? k' = m.get? k' := by
  unfold toBack
  split
  · rename_i v hv
    rw [get?_insert]
    split
    · simp_all
    · rfl
  · rfl

theorem erase_of_none (h : m.get? k = none) : m.erase k = m := by
  refine LinkedMap.ext (filter_eq_self.mpr fun e he => decide_eq_true ?_)
  rintro rfl
  rw [mem_entries.mp he] at h
  cases h

theorem len_erase (h : m.get? k = some v) : (m.erase k).len + 1 = m.len := by
  have hmem := mem_entries.mpr h
  have hcount : m.entries.countP (fun e => e.1 = k) = 1 := by
    have hone := count_eq_one_of_mem m.nodup (mem_map_of_mem hmem)
    rw [count, countP_map] at hone
    rw [← hone]
    exact countP_congr fun e _ => by simp
  have hsplit := length_eq_countP_add_countP (fun e : K × V => decide (e.1 = k)) (l := m.entries)
  unfold erase filter len
  rw [← countP_eq_length_filter, hsplit, hcount, Nat.add_comm]
  congr 1
  exact countP_congr fun e _ => by simp

theorem len_toBack : (m.toBack k).len = m.len := by
  unfold toBack
  split
  · rename_i v hv
    rw [← len_erase hv, insert, len, length_append]
    rfl
  · rfl

end Lookup

end LinkedMap

end AuxCommon
