import AuxCommon.Lib.Bytes

/-!
# The order of byte strings

Stores order their keys by bytes, the first difference deciding. Two byte strings of one length
decide before what follows them (`compare_append`), and the half-open range from `p` to
`prefixEnd p` holds exactly the byte strings that start with `p` (`between_prefixEnd`).
-/

namespace AuxCommon

open Ordering

theorem compare_append {a a' : List UInt8} (b b' : List UInt8) (h : a.length = a'.length) :
    compare (a ++ b) (a' ++ b') = (compare a a').then (compare b b') := by
  induction a generalizing a' with
  | nil =>
    rw [List.length_eq_zero_iff.mp h.symm]
    rfl
  | cons x a ih =>
    obtain ⟨x', a', rfl⟩ := List.exists_cons_of_length_eq_add_one h.symm
    rw [List.cons_append, List.cons_append, List.compare_cons_cons, List.compare_cons_cons,
      ih (Nat.succ.inj h), then_assoc]

theorem compare_append_left (p a b : List UInt8) : compare (p ++ a) (p ++ b) = compare a b := by
  rw [compare_append a b rfl, Std.compare_self, eq_then]

theorem isLE_compare_append (p t : List UInt8) : (compare p (p ++ t)).isLE = true := by
  have h := compare_append_left p [] t
  rw [List.append_nil] at h
  rw [h]
  cases t <;> rfl

/-! ## Ranges over a prefix -/

/-- The loop of `prefix_end`, from the last byte to the first. -/
def prefixEndLoop : List UInt8 → Option (List UInt8)
  | [] => none
  | b :: rest => if b ≠ 255 then some (rest.reverse ++ [b + 1]) else prefixEndLoop rest

/-- The least byte string above every byte string that starts with `p`. -/
def prefixEnd (p : List UInt8) : Option (List UInt8) := prefixEndLoop p.reverse

/-- The end of a prefix: its last byte other than 255 goes up by one, what follows is cut off. -/
theorem prefixEnd_eq_some {p e : List UInt8} (h : prefixEnd p = some e) :
    ∃ q b n, p = q ++ b :: List.replicate n 255 ∧ b ≠ 255 ∧ e = q ++ [b + 1] := by
  suffices hloop : ∀ r, prefixEndLoop r = some e →
      ∃ q b n, r = List.replicate n 255 ++ b :: q ∧ b ≠ 255 ∧ e = q.reverse ++ [b + 1] by
    obtain ⟨q, b, n, hp, hb, he⟩ := hloop _ h
    refine ⟨q.reverse, b, n, ?_, hb, he⟩
    rw [← List.reverse_reverse p, hp]
    simp
  intro r hr
  induction r with
  | nil => cases hr
  | cons c r ih =>
    rw [prefixEndLoop] at hr
    split at hr
    · rename_i hc
      exact ⟨r, c, 0, rfl, hc, (Option.some.inj hr).symm⟩
    · rename_i hc
      obtain ⟨q, b, n, rfl, hb, he⟩ := ih hr
      exact ⟨q, b, n + 1, by rw [not_not.mp hc]; rfl, hb, he⟩

theorem prefixEnd_isSome {p : List UInt8} {b : UInt8} (hb : b ∈ p) (hne : b ≠ 255) :
    ∃ e, prefixEnd p = some e := by
  suffices hloop : ∀ r, b ∈ r → ∃ e, prefixEndLoop r = some e from hloop _ (List.mem_reverse.mpr hb)
  intro r hr
  induction r with
  | nil => cases hr
  | cons c r ih =>
    rw [prefixEndLoop]
    split
    · exact ⟨_, rfl⟩
    · rename_i hc
      rcases List.mem_cons.mp hr with rfl | hr
      · exact absurd hne hc
      · exact ih hr

theorem toNat_add_one {b : UInt8} (h : b ≠ 255) : (b + 1).toNat = b.toNat + 1 := by
  have hlt := UInt8.lt_iff_toNat_lt.mp (UInt8.lt_add_one h)
  have hmod : (b + 1).toNat = (b.toNat + 1) % 256 := UInt8.toNat_add b 1
  have := b.toNat_lt
  omega

/-- What lies between two byte strings with a common front has that front too. -/
theorem append_of_between {q x y k : List UInt8} (hl : (compare (q ++ x) k).isLE = true)
    (hr : compare k (q ++ y) = .lt) :
    ∃ k', k = q ++ k' ∧ (compare x k').isLE = true ∧ compare k' y = .lt := by
  induction q generalizing k with
  | nil => exact ⟨k, rfl, hl, hr⟩
  | cons c q ih =>
    cases k with
    | nil =>
      rw [List.cons_append, List.compare_cons_nil] at hl
      cases hl
    | cons d k =>
      rw [List.cons_append, List.compare_cons_cons, isLE_then_iff_or] at hl
      rw [List.cons_append, List.compare_cons_cons, then_eq_lt] at hr
      -- the bounds meet in the first byte: `c ≤ d ≤ c`
      rcases hl with hl | ⟨hcd, hl⟩
      · have hcd : c < d := Std.compare_eq_lt.mp hl
        rcases hr with hr | ⟨hr, -⟩
        · exact absurd (Std.compare_eq_lt.mp hr) (UInt8.lt_asymm hcd)
        · exact absurd (Std.compare_eq_iff_eq.mp hr).symm (UInt8.ne_of_lt hcd)
      · obtain rfl := Std.compare_eq_iff_eq.mp hcd
        rw [Std.compare_self] at hr
        obtain ⟨k', rfl, hle, hlt⟩ := ih hl (hr.resolve_left nofun).2
        exact ⟨k', rfl, hle, hlt⟩

/-- Above a string of 255s is only what starts with it. -/
theorem replicate_prefix_of_le {n : Nat} {k : List UInt8}
    (h : (compare (List.replicate n (255 : UInt8)) k).isLE = true) :
    List.replicate n (255 : UInt8) <+: k := by
  induction n generalizing k with
  | zero => exact List.nil_prefix
  | succ n ih =>
    rw [List.replicate_succ] at h ⊢
    cases k with
    | nil =>
      rw [List.compare_cons_nil] at h
      cases h
    | cons d k =>
      rw [List.compare_cons_cons, isLE_then_iff_or] at h
      rcases h with h | ⟨hd, h⟩
      · have hd : 255 < d.toNat := UInt8.lt_iff_toNat_lt.mp (Std.compare_eq_lt.mp h)
        have := d.toNat_lt
        omega
      · rw [← Std.compare_eq_iff_eq.mp hd]
        exact List.cons_prefix_cons.mpr ⟨rfl, ih h⟩

/-- The half-open range from `lo` to `hi`. -/
def Between (lo hi k : List UInt8) : Prop := (compare lo k).isLE = true ∧ compare k hi = .lt

/-- The range from a prefix to its end holds what starts with the prefix. -/
theorem between_prefixEnd {p e : List UInt8} (h : prefixEnd p = some e) (k : List UInt8) :
    Between p e k ↔ p <+: k := by
  obtain ⟨q, b, n, rfl, hb, rfl⟩ := prefixEnd_eq_some h
  constructor
  · rintro ⟨hl, hr⟩
    obtain ⟨k', rfl, hle, hlt⟩ := append_of_between hl hr
    cases k' with
    | nil =>
      rw [List.compare_cons_nil] at hle
      cases hle
    | cons d k' =>
      rw [List.compare_cons_cons, isLE_then_iff_or] at hle
      rw [List.compare_cons_cons, then_eq_lt] at hlt
      -- the byte `d` is below `b + 1`, since nothing is below the empty rest
      have hd : d < b + 1 := by
        rcases hlt with hlt | ⟨-, hlt⟩
        · exact Std.compare_eq_lt.mp hlt
        · cases k' <;> cases hlt
      rcases hle with hle | ⟨hbd, hle⟩
      · have hbd := UInt8.lt_iff_toNat_lt.mp (Std.compare_eq_lt.mp hle)
        have hd := UInt8.lt_iff_toNat_lt.mp hd
        rw [toNat_add_one hb] at hd
        omega
      · rw [← Std.compare_eq_iff_eq.mp hbd]
        obtain ⟨t, rfl⟩ := replicate_prefix_of_le hle
        exact ⟨t, by simp⟩
  · rintro ⟨t, rfl⟩
    constructor
    · exact isLE_compare_append _ _
    · rw [List.append_assoc, compare_append_left, List.cons_append, List.compare_cons_cons,
        Std.compare_eq_lt.mpr (UInt8.lt_add_one hb), lt_then]

end AuxCommon
