import Mathlib.Tactic.Common
import Mathlib.Tactic.Ring

/-!
# Big-endian numbers and length-delimited lists

`beBytes n x` is the number `x` in `n` bytes, most significant first, and `fromBe` reads it back.
`frames` writes a list of byte strings one after the other, each behind its length, so that the
list can be told from its bytes (`frames_inj`).
-/

namespace AuxCommon

open List Nat

/-- `to_be_bytes` of an `n`-byte integer. -/
def beBytes : (n : Nat) → Nat → List UInt8
  | 0, _ => []
  | n + 1, x => UInt8.ofNat (x / 256 ^ n) :: beBytes n x

variable (bs : List UInt8)

/-- `from_be_bytes`. -/
def fromBe : Nat := bs.foldl (fun a b => a * 256 + b.toNat) 0

@[simp] theorem length_beBytes (n x : Nat) : (beBytes n x).length = n := by
  induction n with
  | zero => rfl
  | succ n ih => rw [beBytes, length_cons, ih]

theorem foldl_beBytes (n x a : Nat) :
    (beBytes n x).foldl (fun a b => a * 256 + b.toNat) a = a * 256 ^ n + x % 256 ^ n := by
  induction n generalizing a with
  | zero => simp [beBytes, mod_one]
  | succ n ih =>
    have hbyte : (UInt8.ofNat (x / 256 ^ n)).toNat = x / 256 ^ n % 256 := by simp
    have hmod : x % (256 ^ n * 256) = x % 256 ^ n + 256 ^ n * (x / 256 ^ n % 256) :=
      mod_mul
    rw [beBytes, foldl_cons, ih, hbyte, pow_succ, hmod]
    ring

theorem fromBe_beBytes {n x : Nat} (h : x < 256 ^ n) : fromBe (beBytes n x) = x := by
  rw [fromBe, foldl_beBytes, zero_mul, zero_add, mod_eq_of_lt h]

theorem beBytes_inj {n x y : Nat} (hx : x < 256 ^ n) (hy : y < 256 ^ n)
    (h : beBytes n x = beBytes n y) : x = y := by
  rw [← fromBe_beBytes hx, h, fromBe_beBytes hy]

theorem foldl_eq_add_fromBe (a : Nat) :
    bs.foldl (fun a b => a * 256 + b.toNat) a = a * 256 ^ bs.length + fromBe bs := by
  induction bs generalizing a with
  | nil => simp [fromBe]
  | cons b bs ih =>
    have hcons : fromBe (b :: bs) = b.toNat * 256 ^ bs.length + fromBe bs := by
      rw [fromBe, foldl_cons, ih]
      ring
    rw [foldl_cons, ih, hcons, length_cons, pow_succ]
    ring

theorem fromBe_cons (b : UInt8) (bs : List UInt8) :
    fromBe (b :: bs) = b.toNat * 256 ^ bs.length + fromBe bs := by
  rw [fromBe, foldl_cons, foldl_eq_add_fromBe, zero_mul, zero_add]

theorem fromBe_lt : fromBe bs < 256 ^ bs.length := by
  induction bs with
  | nil => decide
  | cons b bs ih =>
    have hb : b.toNat + 1 ≤ 256 := b.toNat_lt
    calc fromBe (b :: bs) < (b.toNat + 1) * 256 ^ bs.length := by rw [fromBe_cons, succ_mul]; omega
      _ ≤ 256 * 256 ^ bs.length := mul_le_mul_right _ hb
      _ = 256 ^ (b :: bs).length := by rw [length_cons, pow_succ, mul_comm]

/-- Only the last `n` bytes of a number are written. -/
theorem beBytes_mul_add (n a x : Nat) : beBytes n (a * 256 ^ n + x) = beBytes n x := by
  induction n generalizing a with
  | zero => rfl
  | succ n ih =>
    have hsplit : a * 256 ^ (n + 1) + x = a * 256 * 256 ^ n + x := by rw [pow_succ]; ring
    have htop : (a * 256 * 256 ^ n + x) / 256 ^ n = x / 256 ^ n + a * 256 := by
      rw [Nat.add_comm, Nat.add_mul_div_right _ _ (Nat.pow_pos (by decide))]
    have hbyte : UInt8.ofNat (x / 256 ^ n + a * 256) = UInt8.ofNat (x / 256 ^ n) :=
      UInt8.toNat_inj.mp (by simp)
    rw [beBytes, hsplit, htop, hbyte, ih, beBytes]

/-- Bytes that are read as a number are the bytes of that number. -/
theorem beBytes_fromBe : beBytes bs.length (fromBe bs) = bs := by
  induction bs with
  | nil => rfl
  | cons b bs ih =>
    have htop : (b.toNat * 256 ^ bs.length + fromBe bs) / 256 ^ bs.length = b.toNat := by
      rw [Nat.mul_comm, Nat.mul_add_div (Nat.pow_pos (by decide)), Nat.div_eq_of_lt (fromBe_lt bs),
        Nat.add_zero]
    rw [length_cons, beBytes, fromBe_cons, htop, beBytes_mul_add, ih, UInt8.ofNat_toNat]

/-- A byte string behind its length in four bytes. -/
def frame (c : List UInt8) : List UInt8 := beBytes 4 c.length ++ c

/-- Byte strings one after the other, each behind its length. -/
def frames (cs : List (List UInt8)) : List UInt8 := cs.flatMap frame

@[simp] theorem frames_cons (c : List UInt8) (cs : List (List UInt8)) :
    frames (c :: cs) = frame c ++ frames cs := flatMap_cons

theorem frame_append_inj {c c' r r' : List UInt8} (hc : c.length < 256 ^ 4)
    (hc' : c'.length < 256 ^ 4) (h : frame c ++ r = frame c' ++ r') : c = c' ∧ r = r' := by
  rw [frame, frame, append_assoc, append_assoc] at h
  obtain ⟨hlen, hrest⟩ := append_inj h (by simp)
  exact append_inj hrest (beBytes_inj hc hc' hlen)

@[simp] theorem length_frame (c : List UInt8) : (frame c).length = 4 + c.length := by
  rw [frame, length_append, length_beBytes]

theorem frame_append_ne_nil (c r : List UInt8) : frame c ++ r ≠ [] := by
  intro h
  have hlen := congrArg length h
  rw [length_append, length_frame, length_nil] at hlen
  omega

/-- Frames that start with the frames of `cs` are those of a list that starts with `cs`. -/
theorem prefix_of_frames_append {cs cs' : List (List UInt8)} {t : List UInt8}
    (hcs : ∀ c ∈ cs, c.length < 256 ^ 4) (hcs' : ∀ c ∈ cs', c.length < 256 ^ 4)
    (h : frames cs ++ t = frames cs') : ∃ ds, cs' = cs ++ ds ∧ t = frames ds := by
  induction cs generalizing cs' with
  | nil => exact ⟨cs', rfl, h⟩
  | cons c cs ih =>
    rw [frames_cons, append_assoc] at h
    cases cs' with
    | nil => exact absurd h (frame_append_ne_nil _ _)
    | cons c' cs' =>
      obtain ⟨rfl, hrest⟩ := frame_append_inj (hcs c mem_cons_self) (hcs' c' mem_cons_self) h
      obtain ⟨ds, rfl, ht⟩ := ih (fun d hd => hcs d (mem_cons_of_mem _ hd))
        (fun d hd => hcs' d (mem_cons_of_mem _ hd)) hrest
      exact ⟨ds, rfl, ht⟩

/-- A list of byte strings is determined by its frames. -/
theorem frames_inj {cs cs' : List (List UInt8)} (hcs : ∀ c ∈ cs, c.length < 256 ^ 4)
    (hcs' : ∀ c ∈ cs', c.length < 256 ^ 4) (h : frames cs = frames cs') : cs = cs' := by
  rw [← append_nil (frames cs)] at h
  obtain ⟨ds, rfl, hds⟩ := prefix_of_frames_append hcs hcs' h
  cases ds with
  | nil => exact (append_nil cs).symm
  | cons d ds => exact absurd hds.symm (frame_append_ne_nil _ _)

end AuxCommon
