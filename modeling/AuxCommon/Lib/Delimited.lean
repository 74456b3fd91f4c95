import AuxCommon.Lib.Bytes

/-!
# Encodings that end themselves

`Delimited P w`: of the values with `P`, no two have bytes one of which goes on as the other, so that
what is written behind one value can be told from it. Words of one width are delimited, and so are
pairs of delimited parts and lists behind their length.
-/

namespace AuxCommon

open List

variable {α β γ : Type}

/-- `to_le_bytes` of an `n`-byte integer. -/
def leBytes (n x : Nat) : List UInt8 := (beBytes n x).reverse

@[simp] theorem length_leBytes (n x : Nat) : (leBytes n x).length = n := by
  rw [leBytes, length_reverse, length_beBytes]

theorem leBytes_inj {n x y : Nat} (hx : x < 256 ^ n) (hy : y < 256 ^ n)
    (h : leBytes n x = leBytes n y) : x = y :=
  beBytes_inj hx hy (reverse_inj.mp h)

/-- The bytes of a value with `P` and what is behind them are told apart. -/
def Delimited (P : α → Prop) (w : α → List UInt8) : Prop :=
  ∀ ⦃a b : α⦄, P a → P b → ∀ ⦃s t : List UInt8⦄, w a ++ s = w b ++ t → a = b ∧ s = t

namespace Delimited

variable {P : α → Prop} {Q : β → Prop} {R : γ → Prop}
variable {w : α → List UInt8} {u : β → List UInt8} {v : γ → List UInt8}

theorem inj (h : Delimited P w) {a b : α} (ha : P a) (hb : P b) (hw : w a = w b) : a = b :=
  (h ha hb (congrArg (· ++ []) hw)).1

theorem of_length (n : Nat) (hlen : ∀ a, P a → (w a).length = n)
    (hinj : ∀ a b, P a → P b → w a = w b → a = b) : Delimited P w := by
  intro a b ha hb s t h
  obtain ⟨hw, hst⟩ := append_inj h ((hlen a ha).trans (hlen b hb).symm)
  exact ⟨hinj a b ha hb hw, hst⟩

theorem word (n : Nat) : Delimited (fun x => x < 256 ^ n) (leBytes n) :=
  of_length n (fun x _ => length_leBytes n x) fun _ _ => leBytes_inj

theorem append (hu : Delimited Q u) (hv : Delimited R v) :
    Delimited (fun p : β × γ => Q p.1 ∧ R p.2) fun p => u p.1 ++ v p.2 := by
  rintro ⟨a, a'⟩ ⟨b, b'⟩ ⟨ha, ha'⟩ ⟨hb, hb'⟩ s t h
  rw [append_assoc, append_assoc] at h
  obtain ⟨rfl, hrest⟩ := hu ha hb h
  obtain ⟨rfl, rfl⟩ := hv ha' hb' hrest
  exact ⟨rfl, rfl⟩

/-- A value is written through parts that determine it. -/
theorem comap (hu : Delimited Q u) {f : α → β} (hf : Function.Injective f)
    (hP : ∀ a, P a → Q (f a)) : Delimited P fun a => u (f a) := by
  intro a b ha hb s t h
  obtain ⟨hab, hst⟩ := hu (hP a ha) (hP b hb) h
  exact ⟨hf hab, hst⟩

theorem flatMap (hw : Delimited P w) {l l' : List α} (hlen : l.length = l'.length)
    (hl : ∀ a ∈ l, P a) (hl' : ∀ a ∈ l', P a) {s t : List UInt8}
    (h : l.flatMap w ++ s = l'.flatMap w ++ t) : l = l' ∧ s = t := by
  induction l generalizing l' with
  | nil =>
    obtain rfl := length_eq_zero_iff.mp hlen.symm
    exact ⟨rfl, h⟩
  | cons a l ih =>
    obtain ⟨b, l', rfl⟩ := exists_cons_of_length_eq_add_one hlen.symm
    rw [flatMap_cons, flatMap_cons, append_assoc, append_assoc] at h
    obtain ⟨rfl, hrest⟩ := hw (hl a mem_cons_self) (hl' b mem_cons_self) h
    obtain ⟨rfl, rfl⟩ := ih (Nat.succ.inj hlen) (fun c hc => hl c (mem_cons_of_mem _ hc))
      (fun c hc => hl' c (mem_cons_of_mem _ hc)) hrest
    exact ⟨rfl, rfl⟩

/-- A list behind its length. -/
theorem counted (n : Nat) (hw : Delimited P w) :
    Delimited (fun l : List α => l.length < 256 ^ n ∧ ∀ a ∈ l, P a)
      fun l => leBytes n l.length ++ l.flatMap w := by
  rintro l l' ⟨hlen, hl⟩ ⟨hlen', hl'⟩ s t h
  rw [append_assoc, append_assoc] at h
  obtain ⟨hlength, h⟩ := word n hlen hlen' h
  exact hw.flatMap hlength hl hl' h

/-- A byte string behind its length. -/
theorem field (n : Nat) : Delimited (fun bytes : List UInt8 => bytes.length < 256 ^ n)
      fun bytes => leBytes n bytes.length ++ bytes := by
  intro a b ha hb s t h
  rw [append_assoc, append_assoc] at h
  obtain ⟨hlength, h⟩ := word n ha hb h
  exact append_inj h hlength

end Delimited

end AuxCommon
