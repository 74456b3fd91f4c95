import Mathlib.Order.Lattice
import Mathlib.Order.OrderDual
import Mathlib.Tactic.Common

/-!
# The two least values of a stream

Values arrive one by one, each under its own index. Keeping the least value with its index and
the second least is enough to answer, for every index, what the least value of the others is
(`TwoLeast.Tracks.except`). Values are compared by a rank in a linear order; a rank in the dual
order keeps the two greatest.
-/

namespace AuxCommon

variable {ι α β : Type} [LinearOrder β]

structure TwoLeast (ι α : Type) where
  first : Option (ι × α) := none
  second : Option α := none

namespace TwoLeast

/-- The lesser of a value and one that may be missing. -/
def lesser (f : α → β) (o : Option α) (a : α) : α :=
  match o with
  | none => a
  | some b => if f a < f b then a else b

def insert (f : α → β) (t : TwoLeast ι α) (i : ι) (a : α) : TwoLeast ι α :=
  match t.first with
  | none => { t with first := some (i, a) }
  | some (_, m) =>
    if f a < f m then ⟨some (i, a), some m⟩
    else { t with second := some (lesser f t.second a) }

/-- The least value under another index than `i`. -/
def except [DecidableEq ι] (t : TwoLeast ι α) (i : ι) : Option α :=
  match t.first with
  | none => none
  | some (k, v) => if k ≠ i then some v else t.second

/-- `o` is the value of least rank among the entries with `p`, if there is one. -/
structure Least (f : α → β) (o : Option α) (p : ι × α → Prop) : Prop where
  mem : ∀ a, o = some a → ∃ k, p (k, a)
  le : ∀ x, p x → ∃ a, o = some a ∧ f a ≤ f x.2

/-- One more entry `(i, a)`. -/
theorem Least.lesser {f : α → β} {o : Option α} {p q : ι × α → Prop} {i : ι} {a : α}
    (h : Least f o p) (hq : ∀ x, q x ↔ p x ∨ x = (i, a)) :
    Least f (some (lesser f o a)) q := by
  have hle : ∀ b, o = some b → ∀ x, p x → f b ≤ f x.2 := by
    intro b hb x hx
    obtain ⟨b', hb', hle⟩ := h.le x hx
    cases hb.symm.trans hb'
    exact hle
  have hnew : q (i, a) := (hq _).mpr (.inr rfl)
  cases o with
  | none =>
    refine ⟨fun b hb => by cases hb; exact ⟨i, hnew⟩, fun x hx => ⟨a, rfl, ?_⟩⟩
    rcases (hq x).mp hx with hx | rfl
    · obtain ⟨b, hb, -⟩ := h.le x hx
      cases hb
    · exact le_rfl
  | some b =>
    by_cases hlt : f a < f b
    · rw [TwoLeast.lesser, if_pos hlt]
      refine ⟨fun c hc => by cases hc; exact ⟨i, hnew⟩, fun x hx => ⟨a, rfl, ?_⟩⟩
      rcases (hq x).mp hx with hx | rfl
      · exact hlt.le.trans (hle b rfl x hx)
      · exact le_rfl
    · rw [TwoLeast.lesser, if_neg hlt]
      refine ⟨fun c hc => ?_, fun x hx => ⟨b, rfl, ?_⟩⟩
      · cases hc
        obtain ⟨k, hk⟩ := h.mem b rfl
        exact ⟨k, (hq _).mpr (.inl hk)⟩
      · rcases (hq x).mp hx with hx | rfl
        · exact hle b rfl x hx
        · exact not_lt.mp hlt

/-- `t` holds the two least values of the entries `xs`. -/
structure Tracks (f : α → β) (t : TwoLeast ι α) (xs : List (ι × α)) : Prop where
  empty : t.first = none → xs = [] ∧ t.second = none
  mem : ∀ k v, t.first = some (k, v) → (k, v) ∈ xs
  le : ∀ k v, t.first = some (k, v) → ∀ x ∈ xs, f v ≤ f x.2
  second : ∀ k v, t.first = some (k, v) → Least f t.second fun x => x ∈ xs ∧ x.1 ≠ k

variable {f : α → β} {t : TwoLeast ι α} {xs : List (ι × α)}

theorem Tracks.init : Tracks f ({} : TwoLeast ι α) [] where
  empty _ := ⟨rfl, rfl⟩
  mem _ _ h := by cases h
  le _ _ h := by cases h
  second _ _ h := by cases h

/-- One more value, under an index that did not occur yet. -/
theorem Tracks.insert {i : ι} {a : α} (h : t.Tracks f xs) (hi : ∀ x ∈ xs, x.1 ≠ i) :
    (t.insert f i a).Tracks f (xs ++ [(i, a)]) := by
  unfold TwoLeast.insert
  cases hfirst : t.first with
  | none =>
    obtain ⟨rfl, hsecond⟩ := h.empty hfirst
    refine ⟨nofun, ?_, ?_, ?_⟩ <;> rintro k v ⟨⟩
    · simp
    · simp
    · refine ⟨fun b hb => ?_, fun x hx => ?_⟩
      · cases hsecond.symm.trans hb
      · rw [List.nil_append, List.mem_singleton] at hx
        exact absurd (congrArg Prod.fst hx.1) hx.2
  | some m =>
    obtain ⟨k₀, m⟩ := m
    have hmem := h.mem k₀ m hfirst
    have hle := h.le k₀ m hfirst
    have hsplit : ∀ x, x ∈ xs ++ [(i, a)] ↔ x ∈ xs ∨ x = (i, a) := by simp
    dsimp only
    split
    · -- the new value is the least one, and the old least value the second
      rename_i hlt
      refine ⟨nofun, ?_, ?_, ?_⟩ <;> rintro k v ⟨⟩
      · simp
      · intro x hx
        rcases (hsplit x).mp hx with hx | rfl
        · exact hlt.le.trans (hle x hx)
        · exact le_rfl
      · refine ⟨fun b hb => ?_, fun x hx => ⟨m, rfl, ?_⟩⟩
        · cases hb
          exact ⟨k₀, (hsplit _).mpr (.inl hmem), hi _ hmem⟩
        · rcases (hsplit x).mp hx.1 with hx' | rfl
          · exact hle x hx'
          · exact absurd rfl hx.2
    · rename_i hnlt
      refine ⟨nofun, ?_, ?_, ?_⟩ <;> rintro k v ⟨⟩
      · exact (hsplit _).mpr (.inl hmem)
      · intro x hx
        rcases (hsplit x).mp hx with hx | rfl
        · exact hle x hx
        · exact not_lt.mp hnlt
      · refine (h.second k₀ m hfirst).lesser (i := i) fun x => ?_
        rw [hsplit, or_and_right]
        refine or_congr_right (and_iff_left_of_imp ?_)
        rintro rfl
        exact (hi _ hmem).symm

/-- What is kept answers the least value of the others for every index. -/
theorem Tracks.except [DecidableEq ι] (h : t.Tracks f xs) (i : ι) :
    Least f (t.except i) fun x => x ∈ xs ∧ x.1 ≠ i := by
  unfold TwoLeast.except
  cases hfirst : t.first with
  | none =>
    obtain ⟨rfl, -⟩ := h.empty hfirst
    exact ⟨nofun, fun x hx => nomatch hx.1⟩
  | some m =>
    obtain ⟨k, v⟩ := m
    dsimp only
    split
    · rename_i hne
      refine ⟨fun a ha => ?_, fun x hx => ⟨v, rfl, h.le k v hfirst x hx.1⟩⟩
      cases ha
      exact ⟨k, h.mem k v hfirst, hne⟩
    · rename_i heq
      rw [not_not] at heq
      exact heq ▸ h.second k v hfirst

end TwoLeast

end AuxCommon
