import AuxCommon.Lib.Wire

/-!
# The scan of a CBOR document

`webauthn-core`, `cbor/decoder.rs`: before a document is decoded, `CborScanner` walks over it. It has
a stack with the number of items that are still to come on each level, and refuses what is nested
too deep or has too many items.

- **The grammar** (`Items`) is the one of RFC 8949 without indefinite lengths. It counts the items
  and the levels.
- **A turn** of the loop reads the bytes of one item that are its own (`run_scanItem_eq_ok`). A
  level that is done stays on the stack until the next turn.
- **The scan** accepts what the grammar has within the limits (`scan_exact`).

The position of the scanner is the list of the bytes that are left.
-/

namespace AuxCommon.WebAuthn

open Wire List StateT

/-- `WebAuthnError`: the error of the scan. -/
inductive WebAuthnError
  | malformed
  deriving DecidableEq

/-- `MAX_CBOR_DEPTH`. -/
def maxCborDepth : Nat := 16

/-- `MAX_CBOR_ITEMS`. -/
def maxCborItems : Nat := 256

abbrev CborReader := Wire.Reader WebAuthnError

def readByte : CborReader UInt8 := byte .malformed

def skip (length : Nat) : CborReader Unit := do
  let _ ← take .malformed length

def readUnsigned (length : Nat) : CborReader Nat := do
  return fromBe (← take .malformed length)

def majorType (b : UInt8) : UInt8 := b >>> 5

def additionalInfo (b : UInt8) : UInt8 := b &&& 0x1f

def readInitial : CborReader (UInt8 × UInt8) := do
  let b ← readByte
  return (majorType b, additionalInfo b)

variable (additional : UInt8)

/-- `read_argument`, and `read_length` where `usize` has 64 bits. -/
def readArgument : CborReader Nat :=
  if additional ≤ 23 then return additional.toNat
  else match additional with
    | 24 => return (← readByte).toNat
    | 25 => readUnsigned 2
    | 26 => readUnsigned 4
    | 27 => readUnsigned 8
    | _ => throw .malformed

def readSimple : CborReader Unit :=
  if additional ≤ 23 then return
  else match additional with
    | 24 => do let _ ← readByte
    | 25 => skip 2
    | 26 => skip 4
    | 27 => skip 8
    | _ => throw .malformed

/-- `push_children`. The last level comes first in the list. -/
def pushChildren (pending : List Nat) (count : Nat) : Except WebAuthnError (List Nat) :=
  if maxCborDepth ≤ pending.length - 1 ∨ maxCborItems < count then .error .malformed
  else .ok (count :: pending)

/-- What `scan` reads for one item. -/
def scanItem (pending : List Nat) : CborReader (List Nat) := do
  let (major, additional) ← readInitial
  match major with
  | 0 | 1 => do
    let _ ← readArgument additional
    return pending
  | 2 | 3 => do
    let length ← readArgument additional
    skip length
    return pending
  | 4 => do
    let length ← readArgument additional
    pushChildren pending length
  | 5 => do
    let length ← readArgument additional
    if length * 2 < 2 ^ 64 then pushChildren pending (length * 2) else throw .malformed
  | 6 => do
    let _ ← readArgument additional
    pushChildren pending 1
  | 7 => do
    readSimple additional
    return pending
  | _ => throw .malformed

/-! ## The grammar -/

/-- The bytes of an argument behind the initial byte, and its value. -/
inductive Argument (additional : UInt8) : List UInt8 → Nat → Prop
  | direct (h : additional ≤ 23) : Argument additional [] additional.toNat
  | following {arg : List UInt8}
    (h : (additional, arg.length) ∈ [((24 : UInt8), 1), (25, 2), (26, 4), (27, 8)]) :
    Argument additional arg (fromBe arg)

/-- The bytes and the items inside an item with the argument `n`. -/
def contents (n : Nat) (major : UInt8) : Nat × Option Nat :=
  if major = 2 ∨ major = 3 then (n, none)
  else if major = 4 then (0, some n)
  else if major = 5 then (0, some (n * 2))
  else if major = 6 then (0, some 1)
  else (0, none)

/-- The bytes of an item that are its own, and the number of items inside. Of the values of two
bytes that are not numbers, `simple` says which there are. -/
inductive Opening (simple : Nat → Prop) : List UInt8 → Option Nat → Prop
  | mk {b : UInt8} {arg content : List UInt8} {n : Nat} {children : Option Nat}
    (harg : Argument (additionalInfo b) arg n)
    (hcontents : contents n (majorType b) = (content.length, children))
    (hsimple : majorType b = 7 → additionalInfo b = 24 → simple n) :
    Opening simple (b :: (arg ++ content)) children

/-- `Items simple n nesting count bytes`: the bytes are `n` data items one after the other, `count`
with those inside, at most `nesting` arrays, maps and tags around each other. -/
inductive Items (simple : Nat → Prop) : Nat → Nat → Nat → List UInt8 → Prop
  | nil : Items simple 0 0 0 []
  | leaf {own bytes : List UInt8} {n nesting count : Nat} (hown : Opening simple own none)
    (h : Items simple n nesting count bytes) :
    Items simple (n + 1) nesting (count + 1) (own ++ bytes)
  | nest {own inner bytes : List UInt8} {n k nesting count nesting' count' : Nat}
    (hown : Opening simple own (some k)) (hinner : Items simple k nesting count inner)
    (h : Items simple n nesting' count' bytes) :
    Items simple (n + 1) (max (nesting + 1) nesting') (count + 1 + count') (own ++ inner ++ bytes)

/-! ## One item -/

variable {bytes rest : List UInt8} {pending pending' : List Nat} {n nesting count : Nat}

theorem run_take_eq_ok {α : Type} {f : List UInt8 → α} {length : Nat} {a : α} :
    (do return f (← take .malformed length) : CborReader α).run bytes = .ok (a, rest) ↔
      ∃ arg, arg.length = length ∧ f arg = a ∧ bytes = arg ++ rest := by
  simp only [run_bind_eq_ok, reads_iff.mp (reads_take _ _), run_pure_eq_ok, id]
  constructor
  · rintro ⟨arg, _, ⟨hlength, hbytes⟩, ha, rfl⟩
    exact ⟨arg, hlength, ha, hbytes⟩
  · rintro ⟨arg, hlength, ha, hbytes⟩
    exact ⟨arg, _, ⟨hlength, hbytes⟩, ha, rfl⟩

theorem run_readByte : (do return (← readByte).toNat : CborReader Nat).run bytes =
    (readUnsigned 1).run bytes := by
  cases bytes with
  | nil => rfl
  | cons b bytes =>
    have hb : fromBe [b] = b.toNat := by simp [fromBe]
    have hrun : (readUnsigned 1).run (b :: bytes) = .ok (fromBe [b], bytes) := rfl
    rw [hrun, hb]
    rfl

theorem run_readArgument_eq_ok {additional : UInt8} {n : Nat} :
    (readArgument additional).run bytes = .ok (n, rest) ↔
      ∃ arg, Argument additional arg n ∧ bytes = arg ++ rest := by
  constructor
  · intro h
    unfold readArgument at h
    split at h
    · rename_i hdirect
      obtain ⟨rfl, rfl⟩ := run_pure_eq_ok.mp h
      exact ⟨[], .direct hdirect, rfl⟩
    · split at h
      case h_5 => cases h
      all_goals
        try rw [run_readByte] at h
        obtain ⟨arg, hlength, rfl, rfl⟩ := run_take_eq_ok.mp h
        exact ⟨arg, .following (by simp [hlength]), rfl⟩
  · rintro ⟨arg, hdirect | hfollowing, rfl⟩
    · unfold readArgument
      rw [if_pos hdirect]
      rfl
    · have hrun : (readUnsigned arg.length).run (arg ++ rest) = .ok (fromBe arg, rest) :=
        run_take_eq_ok.mpr ⟨arg, rfl, rfl, rfl⟩
      simp only [mem_cons, Prod.mk.injEq, not_mem_nil, or_false] at hfollowing
      rcases hfollowing with ⟨rfl, h⟩ | ⟨rfl, h⟩ | ⟨rfl, h⟩ | ⟨rfl, h⟩
      · rw [h] at hrun
        exact run_readByte.trans hrun
      all_goals
        rw [h] at hrun
        exact hrun

theorem run_discard {α β : Type} (r : CborReader α) (f : α → β) :
    (do let _ ← r : CborReader Unit).run bytes =
      (do let _ ← (do return f (← r)) : CborReader Unit).run bytes := by
  simp only [run_bind]
  cases r.run bytes <;> rfl

/-- A value that is not a number is skipped as an argument is read. -/
theorem run_readSimple : (readSimple additional).run bytes =
    (do let _ ← readArgument additional : CborReader Unit).run bytes := by
  unfold readSimple readArgument
  split
  · rfl
  · split
    case h_5 => rfl
    all_goals exact run_discard _ _

/-- The stack behind an item. -/
def pushed (pending : List Nat) : Option Nat → Except WebAuthnError (List Nat)
  | none => .ok pending
  | some count => pushChildren pending count

theorem pushChildren_eq_ok {count : Nat} : pushChildren pending count = .ok pending' ↔
      pending.length - 1 < maxCborDepth ∧ count ≤ maxCborItems ∧ count :: pending = pending' := by
  unfold pushChildren
  split
  · rename_i hfull
    exact ⟨fun h => (by cases h), fun ⟨hdepth, hcount, _⟩ => (by omega)⟩
  · rename_i hroom
    rw [Except.ok.injEq]
    exact ⟨fun h => ⟨by omega, by omega, h⟩, fun h => h.2.2⟩

theorem majorType_le (b : UInt8) : majorType b ≤ 7 := by
  have hb := b.toNat_lt
  rw [UInt8.le_iff_toNat_le]
  simp [majorType, Nat.shiftRight_eq_div_pow]
  omega

/-- The cases of the source read an argument, the bytes behind it and the items inside. -/
theorem run_scanItem_cons (pending : List Nat) (b : UInt8) : (scanItem pending).run (b :: bytes) =
    (do
      let n ← readArgument (additionalInfo b)
      skip (contents n (majorType b)).1
      liftM (pushed pending (contents n (majorType b)).2) : CborReader (List Nat)).run bytes := by
  have hinitial : readInitial.run (b :: bytes) = .ok ((majorType b, additionalInfo b), bytes) := rfl
  have hmajor := majorType_le b
  rw [scanItem, run_bind, hinitial]
  change run _ bytes = _
  generalize majorType b = major at hmajor ⊢
  split
  · rfl
  · rfl
  · rfl
  · rfl
  · rfl
  · rw [run_bind, run_bind]
    refine congrArg _ (funext fun p => ?_)
    split
    · rfl
    · have hlimit : maxCborItems < 2 ^ 64 := by decide
      have hmany : pushed pending (contents p.1 5).2 = .error .malformed :=
        if_pos (.inr (show maxCborItems < p.1 * 2 by omega))
      rw [hmany]
      rfl
  · rfl
  · rw [run_bind, run_readSimple, run_bind, run_bind]
    cases (readArgument (additionalInfo b)).run bytes <;> rfl
  · simp only [UInt8.le_iff_toNat_le, ← UInt8.toNat_inj] at *
    simp at *
    omega

theorem run_skip_eq_ok {length : Nat} {u : Unit} : (skip length).run bytes = .ok (u, rest) ↔
      ∃ content, content.length = length ∧ bytes = content ++ rest := by
  rw [skip, run_take_eq_ok (f := fun _ => ())]
  simp only [true_and]

theorem run_scanItem_eq_ok : (scanItem pending).run bytes = .ok (pending', rest) ↔
      ∃ own children, Opening (fun _ => True) own children ∧ pushed pending children = .ok pending' ∧
        bytes = own ++ rest := by
  constructor
  · intro h
    cases bytes with
    | nil => cases h
    | cons b bytes =>
      simp only [run_scanItem_cons, run_bind_eq_ok, run_readArgument_eq_ok, run_skip_eq_ok,
        run_lift_eq_ok] at h
      obtain ⟨n, _, ⟨arg, harg, rfl⟩, _, _, ⟨content, hlength, rfl⟩, hpush, rfl⟩ := h
      exact ⟨b :: (arg ++ content), _, .mk harg (Prod.ext hlength.symm rfl) fun _ _ => trivial,
        hpush, by simp⟩
  · rintro ⟨_, children, @⟨b, arg, content, n, _, harg, hcontents, -⟩, hpush, rfl⟩
    simp only [cons_append, append_assoc, run_scanItem_cons, run_bind_eq_ok,
      run_readArgument_eq_ok, run_skip_eq_ok, run_lift_eq_ok]
    exact ⟨n, content ++ rest, ⟨arg, harg, rfl⟩, (), rest, ⟨content, by rw [hcontents], rfl⟩,
      by rw [hcontents]; exact hpush, rfl⟩

/-! ## The scan -/

/-- A turn of the loop takes at least one byte off. -/
theorem length_lt_of_scanItem
    (h : (scanItem pending).run bytes = .ok (pending', rest)) : rest.length < bytes.length := by
  obtain ⟨_, _, ⟨⟩, -, rfl⟩ := run_scanItem_eq_ok.mp h
  simp only [length_append, length_cons]
  omega

/-- The loop of `scan`. -/
def scanLoop : List UInt8 → Nat → List Nat → Except WebAuthnError Unit
  | bytes, _, [] => if bytes = [] then .ok () else .error .malformed
  | bytes, items, 0 :: pending => scanLoop bytes items pending
  | bytes, items, (remaining + 1) :: pending =>
    if maxCborItems < items + 1 then .error .malformed
    else
      match h : (scanItem (remaining :: pending)).run bytes with
      | .error e => .error e
      | .ok (pending', rest) =>
        have := length_lt_of_scanItem h
        scanLoop rest (items + 1) pending'
termination_by bytes _ pending => (bytes.length, pending.length)

/-- `CborScanner::scan`. -/
def scan (bytes : List UInt8) : Except WebAuthnError Unit := scanLoop bytes 0 [1]

theorem scanLoop_nil_eq_ok {items : Nat} : scanLoop bytes items [] = .ok () ↔ bytes = [] := by
  rw [scanLoop]
  split <;> simp_all

theorem scanLoop_succ_eq_ok {items n : Nat} : scanLoop bytes items ((n + 1) :: pending) = .ok () ↔
      items + 1 ≤ maxCborItems ∧ ∃ pending' rest,
        (scanItem (n :: pending)).run bytes = .ok (pending', rest) ∧
          scanLoop rest (items + 1) pending' = .ok () := by
  rw [scanLoop]
  split
  · rename_i hfull
    exact ⟨fun h => (by cases h), fun h => (by omega)⟩
  · rename_i hroom
    split
    · rename_i e h
      rw [h]
      exact ⟨fun h => (by cases h), fun ⟨_, _, _, h, _⟩ => (by cases h)⟩
    · rename_i pending' rest h
      constructor
      · intro hloop
        exact ⟨by omega, _, _, h, hloop⟩
      · rintro ⟨-, _, _, hturn, hloop⟩
        cases h.symm.trans hturn
        exact hloop

theorem Items.le_count {simple : Nat → Prop}
    (h : Items simple n nesting count bytes) : n ≤ count := by
  induction h with
  | nil => exact Nat.le_refl _
  | leaf _ _ ih => omega
  | nest _ _ _ _ ih => omega

/-- The scan passes over items within the limits. -/
theorem scanLoop_of_items (h : Items (fun _ => True) n nesting count bytes) {items : Nat}
    (hdepth : nesting + pending.length ≤ maxCborDepth) (hitems : items + count ≤ maxCborItems)
    (hrest : scanLoop rest (items + count) pending = .ok ()) :
    scanLoop (bytes ++ rest) items (n :: pending) = .ok () := by
  induction h generalizing items pending rest with
  | nil =>
    rw [scanLoop]
    exact hrest
  | @leaf own bytes n nesting count hown _ ih =>
    rw [append_assoc, scanLoop_succ_eq_ok]
    refine ⟨by omega, _, _, run_scanItem_eq_ok.mpr ⟨own, none, hown, rfl, rfl⟩,
      ih hdepth (by omega) ?_⟩
    rwa [Nat.add_right_comm, Nat.add_assoc]
  | @nest own inner bytes n k nesting count nesting' count' hown hinner _ ihinner ih =>
    have hk := hinner.le_count
    have hpush : pushed (n :: pending) (some k) = .ok (k :: n :: pending) :=
      pushChildren_eq_ok.mpr ⟨by simp; omega, by omega, rfl⟩
    rw [append_assoc, append_assoc, scanLoop_succ_eq_ok]
    refine ⟨by omega, _, _, run_scanItem_eq_ok.mpr ⟨own, some k, hown, hpush, rfl⟩,
      ihinner (by simp; omega) (by omega) (ih (by omega) (by omega) ?_)⟩
    have hsum : items + 1 + count + count' = items + (count + 1 + count') := by omega
    rwa [hsum]

theorem scan_of_item {nesting count : Nat} (h : Items (fun _ => True) 1 nesting count bytes)
    (hdepth : nesting ≤ maxCborDepth) (hcount : count ≤ maxCborItems) : scan bytes = .ok () := by
  have hscan : scanLoop (bytes ++ []) 0 [1] = .ok () :=
    scanLoop_of_items h hdepth (by omega) (scanLoop_nil_eq_ok.mpr rfl)
  rwa [append_nil] at hscan

/-- What the scan passes over on one level is a list of items. -/
theorem items_of_scanLoop {items n : Nat}
    (hlevels : pending.length ≤ maxCborDepth) (hitems : items ≤ maxCborItems)
    (h : scanLoop bytes items (n :: pending) = .ok ()) :
    ∃ nesting count inner rest, Items (fun _ => True) n nesting count inner ∧ bytes = inner ++ rest ∧
      nesting + pending.length ≤ maxCborDepth ∧ items + count ≤ maxCborItems ∧
      scanLoop rest (items + count) pending = .ok () := by
  -- the levels above are read on what an inner level leaves, which is shorter
  induction hlength : bytes.length using Nat.strongRecOn generalizing bytes items n pending with
  | ind length ih =>
    subst hlength
    cases n with
    | zero =>
      rw [scanLoop] at h
      exact ⟨0, 0, [], bytes, .nil, rfl, by omega, by omega, h⟩
    | succ n =>
      obtain ⟨hroom, pending', rest, hturn, hloop⟩ := scanLoop_succ_eq_ok.mp h
      have hshort := length_lt_of_scanItem hturn
      obtain ⟨own, children, hown, hpush, rfl⟩ := run_scanItem_eq_ok.mp hturn
      cases children with
      | none =>
        cases hpush
        obtain ⟨nesting, count, inner, rest, hinner, rfl, hdepth, hcount, hrest⟩ :=
          ih _ hshort hlevels hroom hloop rfl
        refine ⟨nesting, count + 1, own ++ inner, rest, .leaf hown hinner, by simp, hdepth,
          by omega, ?_⟩
        rwa [Nat.add_right_comm, Nat.add_assoc] at hrest
      | some k =>
        obtain ⟨hlevel, -, rfl⟩ := pushChildren_eq_ok.mp hpush
        replace hlevel : (n :: pending).length ≤ maxCborDepth := hlevel
        obtain ⟨nesting, count, inner, rest, hinner, rfl, hdepth, hcount, hrest⟩ :=
          ih _ hshort hlevel hroom hloop rfl
        have hshorter : rest.length < (own ++ (inner ++ rest)).length := by
          simp only [length_append] at hshort ⊢
          omega
        obtain ⟨nesting', count', after, rest, hafter, rfl, hdepth', hcount', hrest'⟩ :=
          ih _ hshorter hlevels hcount hrest rfl
        rw [length_cons] at hdepth
        refine ⟨max (nesting + 1) nesting', count + 1 + count', own ++ inner ++ after, rest,
          .nest hown hinner hafter, by simp, by omega, by omega, ?_⟩
        have hsum : items + 1 + count + count' = items + (count + 1 + count') := by omega
        rwa [hsum] at hrest'

/-- The scan accepts one data item within the limits, with nothing behind it. A turn of its loop
takes bytes off, at least one, and looks at no others. -/
theorem scan_exact (bytes : List UInt8) :
    (scan bytes = .ok () ↔ ∃ nesting count, Items (fun _ => True) 1 nesting count bytes ∧
      nesting ≤ maxCborDepth ∧ count ≤ maxCborItems) ∧
    ∀ pending pending' left rest, (scanItem pending).run left = .ok (pending', rest) →
      ∃ own, own ≠ [] ∧ left = own ++ rest ∧
        ∀ other, (scanItem pending).run (own ++ other) = .ok (pending', other) := by
  refine ⟨⟨fun h => ?_, fun ⟨nesting, count, h, hdepth, hcount⟩ => ?_⟩,
    fun pending pending' left rest h => ?_⟩
  · obtain ⟨nesting, count, inner, rest, hinner, rfl, hdepth, hcount, hrest⟩ :=
      items_of_scanLoop (Nat.zero_le _) (Nat.zero_le _) h
    cases scanLoop_nil_eq_ok.mp hrest
    rw [append_nil]
    exact ⟨nesting, count, hinner, hdepth, by omega⟩
  · exact scan_of_item h hdepth hcount
  · obtain ⟨own, children, hown, hpush, rfl⟩ := run_scanItem_eq_ok.mp h
    refine ⟨own, ?_, rfl, fun other => run_scanItem_eq_ok.mpr ⟨own, children, hown, hpush, rfl⟩⟩
    cases hown
    exact cons_ne_nil _ _

/-- RFC 8949 has no value of two bytes below 32. The scan does not look at the second byte. -/
theorem short_simple_accepted : scan [0xf8, 0] = .ok () ∧
    ¬∃ nesting count, Items (32 ≤ ·) 1 nesting count [0xf8, 0] := by
  constructor
  · have hown : Opening (fun _ => True) (0xf8 :: ([0] ++ [])) none :=
      .mk (.following (by decide)) rfl fun _ _ => trivial
    exact scan_of_item (.leaf hown .nil) (by decide) (by decide)
  · rintro ⟨nesting, count, h⟩
    have hopening : ∀ own tail children, Opening (32 ≤ ·) own children →
        [0xf8, 0] ≠ own ++ tail := by
      rintro _ tail _ @⟨b, arg, content, n, _, harg, -, hsimple⟩ hbytes
      obtain ⟨rfl, hrest⟩ := cons.inj hbytes
      have hn := hsimple rfl rfl
      cases harg with
      | direct hdirect => exact absurd hdirect (by decide)
      | following _ =>
        cases arg with
        | nil => exact absurd hn (by decide)
        | cons x arg =>
          obtain ⟨rfl, hrest⟩ := cons.inj hrest
          cases arg with
          | nil => exact absurd hn (by decide)
          | cons => cases hrest
    generalize hbytes : ([0xf8, 0] : List UInt8) = bytes at h
    cases h with
    | leaf hown _ => exact hopening _ _ _ hown hbytes
    | nest hown _ _ => exact hopening _ _ _ hown (hbytes.trans (append_assoc _ _ _))

end AuxCommon.WebAuthn
