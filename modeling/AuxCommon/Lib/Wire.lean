import AuxCommon.Lib.Bytes
import AuxCommon.Lib.Machine
import AuxCommon.Lib.Result

/-!
# Readers and writers of positional formats

A `Reader` takes a value off the front of a byte string and a `Writer` appends one to a buffer;
both can fail. A format is described once, by the bytes `w a` of each value `a` that satisfies
`P`, and a reader and a writer are related to that description:

* `Reads r P w`: `r` succeeds on `w a` with any bytes behind it, for the values with `P a`, and on
  nothing else. This is both directions of a round trip at once: what is written is read back, and
  what is accepted is what would be written.
* `Writes r P e`: `r` succeeds when `P` holds, and then appends `e`.

A reader of several fields is described field by field (`ReadsIn.bind`). The fields read so far
are the context `C` of the rest, which its last step, building the value, uses up
(`ReadsIn.pure`).
-/

namespace AuxCommon.Wire

open List

variable {ε α β : Type}

/-- Takes a value off the front of the bytes. -/
abbrev Reader (ε α : Type) := StateT (List UInt8) (Except ε) α

/-- Appends to the bytes written so far. -/
abbrev Writer (ε α : Type) := StateT (List UInt8) (Except ε) α

/-! ## What a reader accepts -/

/-- Of the values that meet `C`, the reader returns those with `P`, each from its bytes. -/
def ReadsIn (C : α → Prop) (r : Reader ε α) (P : α → Prop) (w : α → List UInt8) : Prop :=
  ∀ bs a rest, r.run bs = .ok (a, rest) ↔ C a ∧ P a ∧ bs = w a ++ rest

/-- The reader returns the values with `P`, each from its bytes. -/
abbrev Reads (r : Reader ε α) (P : α → Prop) (w : α → List UInt8) : Prop :=
  ReadsIn (fun _ => True) r P w

theorem reads_iff {r : Reader ε α} {P : α → Prop} {w : α → List UInt8} :
    Reads r P w ↔ ∀ bs a rest, r.run bs = .ok (a, rest) ↔ P a ∧ bs = w a ++ rest := by
  simp only [Reads, ReadsIn, true_and]

section Rules

variable {C : α → Prop} {P : α → Prop} {w : α → List UInt8} {r : Reader ε α} {bs rest : List UInt8}
  {f : α → Reader ε β} {v : β → List UInt8} {D Q : β → Prop}

theorem run_bind_eq_ok {b : β} : (r >>= f).run bs = .ok (b, rest) ↔
      ∃ a mid, r.run bs = .ok (a, mid) ∧ (f a).run mid = .ok (b, rest) := by
  rw [StateT.run_bind, Except.bind_eq_ok]
  exact Prod.exists

theorem run_lift_eq_ok {x : Except ε α} {a : α} :
    (liftM x : Reader ε α).run bs = .ok (a, rest) ↔ x = .ok a ∧ bs = rest := by
  have hrun : (liftM x : Reader ε α).run bs = x >>= fun a => .ok (a, bs) := rfl
  rw [hrun, Except.bind_eq_ok]
  simp

theorem run_pure_eq_ok {a b : α} :
    (Pure.pure a : Reader ε α).run bs = .ok (b, rest) ↔ a = b ∧ bs = rest := by
  have hrun : (Pure.pure a : Reader ε α).run bs = .ok (a, bs) := rfl
  rw [hrun]
  simp

theorem ReadsIn.pure {a : α} (h : ∀ b, C b ↔ b = a) :
    ReadsIn C (Pure.pure a : Reader ε α) (fun _ => True) (fun _ => []) := by
  intro bs b rest
  rw [run_pure_eq_ok, h]
  simp [eq_comm]

/-- Reads a field `p` of the result and then the rest of it. -/
theorem ReadsIn.bind {p : β → α} (hr : Reads r P w)
    (hf : ∀ a, ReadsIn (fun b => D b ∧ p b = a) (f a) Q v) :
    ReadsIn D (r >>= f) (fun b => P (p b) ∧ Q b) (fun b => w (p b) ++ v b) := by
  intro bs b rest
  rw [run_bind_eq_ok]
  constructor
  · rintro ⟨a, mid, ha, hb⟩
    obtain ⟨hP, rfl⟩ := (reads_iff.mp hr _ _ _).mp ha
    obtain ⟨⟨hD, rfl⟩, hQ, rfl⟩ := (hf a _ _ _).mp hb
    exact ⟨hD, ⟨hP, hQ⟩, (append_assoc _ _ _).symm⟩
  · rintro ⟨hD, ⟨hP, hQ⟩, rfl⟩
    exact ⟨p b, v b ++ rest, (reads_iff.mp hr _ _ _).mpr ⟨hP, append_assoc _ _ _⟩,
      (hf _ _ _ _).mpr ⟨⟨hD, rfl⟩, hQ, rfl⟩⟩

/-- Reads a value and wraps it. -/
theorem ReadsIn.map {f : α → β} (hr : Reads r P w) (hf : ∀ b, D b ∧ Q b ↔ ∃ a, P a ∧ f a = b)
    (hv : ∀ a, P a → v (f a) = w a) : ReadsIn D (do return f (← r)) Q v := by
  intro bs b rest
  simp only [run_bind_eq_ok, reads_iff.mp hr, run_pure_eq_ok]
  rw [← and_assoc, hf]
  constructor
  · rintro ⟨a, mid, ⟨hP, rfl⟩, rfl, rfl⟩
    exact ⟨⟨a, hP, rfl⟩, by rw [hv a hP]⟩
  · rintro ⟨⟨a, hP, rfl⟩, rfl⟩
    exact ⟨a, rest, ⟨hP, by rw [hv a hP]⟩, rfl, rfl⟩

theorem ReadsIn.congr {P' : α → Prop} {w' : α → List UInt8}
    (h : ReadsIn C r P w) (hP : ∀ a, C a → (P a ↔ P' a)) (hw : ∀ a, C a → P' a → w a = w' a) :
    ReadsIn C r P' w' := by
  intro bs a rest
  rw [h]
  refine and_congr_right fun hC => ?_
  rw [hP a hC]
  exact and_congr_right fun hP' => by rw [hw a hC hP']

/-- Reads a field and passes it through a checked conversion with inverse `g`. -/
theorem Reads.check {f : α → Except ε β} {g : β → α} {Q : β → Prop}
    (hr : Reads r P w) (hf : ∀ a b, f a = .ok b ↔ a = g b ∧ Q b) :
    Reads (r >>= fun a => (liftM (f a) : Reader ε β)) (fun b => P (g b) ∧ Q b)
      (fun b => w (g b)) := by
  rw [reads_iff] at hr ⊢
  intro bs b rest
  simp only [run_bind_eq_ok, hr, run_lift_eq_ok, hf]
  constructor
  · rintro ⟨a, mid, ⟨hP, rfl⟩, ⟨rfl, hQ⟩, rfl⟩
    exact ⟨⟨hP, hQ⟩, rfl⟩
  · rintro ⟨⟨hP, hQ⟩, rfl⟩
    exact ⟨_, _, ⟨hP, rfl⟩, ⟨rfl, hQ⟩, rfl⟩

end Rules

/-! ## Bytes, words and frames -/

/-- The next `n` bytes. -/
def take (short : ε) (n : Nat) : Reader ε (List UInt8) := fun bs =>
  if n ≤ bs.length then .ok (bs.take n, bs.drop n) else .error short

variable (short : ε)

theorem reads_take (n : Nat) : Reads (take short n) (·.length = n) id := by
  rw [reads_iff]
  intro bs v rest
  have hrun : (take short n).run bs =
      if n ≤ bs.length then .ok (bs.take n, bs.drop n) else .error short := rfl
  rw [hrun]
  split
  · rename_i h
    simp only [Except.ok.injEq, Prod.mk.injEq, id]
    constructor
    · rintro ⟨rfl, rfl⟩
      exact ⟨length_take_of_le h, (take_append_drop n bs).symm⟩
    · rintro ⟨rfl, rfl⟩
      simp
  · rename_i h
    simp only [reduceCtorEq, false_iff, id]
    rintro ⟨rfl, rfl⟩
    simp at h

/-- A single byte. -/
def byte : Reader ε UInt8 := fun bs =>
  match bs with
  | [] => .error short
  | b :: bs => .ok (b, bs)

theorem reads_byte : Reads (byte short) (fun _ => True) ([·]) := by
  rw [reads_iff]
  intro bs b rest
  cases bs with
  | nil =>
    have hrun : (byte short).run [] = .error short := rfl
    simp [hrun]
  | cons c bs =>
    have hrun : (byte short).run (c :: bs) = .ok (c, bs) := rfl
    simp [hrun]

/-- A big-endian word of `n` bytes. -/
def word (n : Nat) : Reader ε (BitVec (8 * n)) := do
  return BitVec.ofNat _ (fromBe (← take short n))

theorem reads_word (n : Nat) :
    Reads (word short n) (fun _ => True) (fun x => beBytes n x.toNat) := by
  rw [reads_iff]
  intro bs x rest
  have hpow : (2 : Nat) ^ (8 * n) = 256 ^ n := by rw [Nat.pow_mul]
  simp only [word, run_bind_eq_ok, reads_iff.mp (reads_take short n), run_pure_eq_ok, id, true_and]
  constructor
  · rintro ⟨v, mid, ⟨rfl, rfl⟩, rfl, rfl⟩
    rw [BitVec.toNat_ofNat, hpow, Nat.mod_eq_of_lt (fromBe_lt v), beBytes_fromBe]
  · rintro rfl
    refine ⟨_, _, ⟨length_beBytes _ _, rfl⟩, ?_, rfl⟩
    rw [fromBe_beBytes (hpow ▸ x.isLt), BitVec.ofNat_toNat, BitVec.setWidth_eq]

/-- A byte string behind its length in four bytes. -/
def framed : Reader ε (List UInt8) := do
  take short (← word short 4).toNat

theorem reads_framed : Reads (framed short) (·.length < 256 ^ 4) frame := by
  rw [reads_iff]
  intro bs c rest
  simp only [framed, run_bind_eq_ok, reads_iff.mp (reads_word short 4),
    reads_iff.mp (reads_take short _), id, true_and]
  constructor
  · rintro ⟨x, mid, rfl, hlen, rfl⟩
    rw [frame, ← hlen, append_assoc]
    exact ⟨hlen ▸ x.isLt, rfl⟩
  · rintro ⟨hlen, rfl⟩
    have hx : (BitVec.ofNat (8 * 4) c.length).toNat = c.length :=
      (BitVec.toNat_ofNat _ _).trans (Nat.mod_eq_of_lt hlen)
    exact ⟨BitVec.ofNat _ c.length, c ++ rest, by rw [frame, hx, append_assoc], hx.symm, rfl⟩

/-! ## What a writer appends -/

/-- The writer succeeds when `P` holds, and appends `e`. -/
def Writes (r : Writer ε Unit) (P : Prop) (e : List UInt8) : Prop :=
  ∀ acc out, r.run acc = .ok ((), out) ↔ P ∧ out = acc ++ e

/-- Appends bytes. -/
def put (e : List UInt8) : Writer ε Unit := modify (· ++ e)

theorem writes_put (e : List UInt8) : Writes (put e : Writer ε Unit) True e := by
  intro acc out
  have hrun : (put e : Writer ε Unit).run acc = .ok ((), acc ++ e) := rfl
  simp [hrun, eq_comm]

theorem Writes.pure : Writes (Pure.pure () : Writer ε Unit) True [] := by
  intro acc out
  have hrun : (Pure.pure () : Writer ε Unit).run acc = .ok ((), acc) := rfl
  simp [hrun, eq_comm]

theorem Writes.seq {r s : Writer ε Unit} {P Q : Prop} {d e : List UInt8} (hr : Writes r P d)
    (hs : Writes s Q e) : Writes (r >>= fun _ => s) (P ∧ Q) (d ++ e) := by
  intro acc out
  rw [run_bind_eq_ok]
  constructor
  · rintro ⟨⟨⟩, mid, hmid, hout⟩
    obtain ⟨hP, rfl⟩ := (hr _ _).mp hmid
    obtain ⟨hQ, rfl⟩ := (hs _ _).mp hout
    exact ⟨⟨hP, hQ⟩, append_assoc _ _ _⟩
  · rintro ⟨⟨hP, hQ⟩, rfl⟩
    exact ⟨(), acc ++ d, (hr _ _).mpr ⟨hP, rfl⟩, (hs _ _).mpr ⟨hQ, (append_assoc _ _ _).symm⟩⟩

theorem Writes.congr {r : Writer ε Unit} {P P' : Prop} {e e' : List UInt8} (h : Writes r P e)
    (hP : P ↔ P') (he : P' → e = e') : Writes r P' e' := by
  intro acc out
  rw [h, hP]
  exact and_congr_right fun hP' => by rw [he hP']

theorem Writes.put_seq {s : Writer ε Unit} {Q : Prop} {d e : List UInt8} (hs : Writes s Q e) :
    Writes (put d >>= fun _ => s) Q (d ++ e) :=
  ((writes_put d).seq hs).congr (by rw [true_and]) fun _ => rfl

/-- Appends bytes when a condition holds. -/
def putIf (c : Prop) [Decidable c] (e : ε) (bytes : List UInt8) : Writer ε Unit :=
  if c then put bytes else throw e

theorem writes_putIf (c : Prop) [Decidable c] (e : ε) (bytes : List UInt8) :
    Writes (putIf c e bytes) c bytes := by
  unfold putIf
  split
  · rename_i h
    exact (writes_put _).congr (iff_of_true trivial h) fun _ => rfl
  · rename_i h
    intro acc out
    have hrun : (throw e : Writer ε Unit).run acc = .error e := rfl
    rw [hrun]
    exact ⟨nofun, fun hc => absurd hc.1 h⟩

/-- Appends a byte string behind its length in four bytes. -/
def putFramed (long : ε) (c : List UInt8) : Writer ε Unit :=
  putIf (c.length < 256 ^ 4) long (frame c)

theorem writes_putFramed (long : ε) (c : List UInt8) :
    Writes (putFramed long c) (c.length < 256 ^ 4) (frame c) := writes_putIf _ _ _

theorem Writes.framed_seq {long : ε} {c : List UInt8} {s : Writer ε Unit} {Q : Prop}
    {e : List UInt8} (hs : Writes s Q e) :
    Writes (putFramed long c >>= fun _ => s) (c.length < 256 ^ 4 ∧ Q) (frame c ++ e) :=
  (writes_putFramed long c).seq hs

end AuxCommon.Wire
