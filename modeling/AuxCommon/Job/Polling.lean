import AuxCommon.Job.Record

/-!
# Polling jobs

`model/polling.rs`: a job that polls a source page by page continues itself, and keeps the history
of its polling in front of the application's checkpoint.

- **The envelope** (`decodePollCheckpoint`). A header, the number of empty cycles in a row, a byte
  that says whether the unfinished cycle has found work, and the application's bytes
  (`decode_envelope`).
- **The delay** (`idlePollDelay`). After a cycle, 80 to 100 percent of the base doubled once for
  each empty cycle, at most five minutes or the base. No step of the computation overflows
  (`asMillis_idlePollDelay`).
- **Runs** (`PollRun`). Each execution sees the checkpoint that the one before has returned.
  `poll_history_exact` says what a run has stored.

Durations are in whole milliseconds once the delay is computed, as in the source.
-/

namespace AuxCommon

/-! ## The envelope -/

/-- `POLL_CHECKPOINT_HEADER`. -/
def pollCheckpointHeader : Bytes := [0x41, 0x55, 0x58, 0x50, 0x4f, 0x4c, 0x4c, 0x31]

/-- `POLL_CHECKPOINT_PREFIX_BYTES`. -/
def pollCheckpointPrefixBytes : Nat := 13

/-- `MAX_IDLE_POLL_DELAY_MS`. -/
def maxIdlePollDelayMs : U64 := 300000

/-- `decode_poll_checkpoint`. -/
def decodePollCheckpoint (bytes : Bytes) : Option (U32 × Bool × Bytes) :=
  if bytes.length < pollCheckpointPrefixBytes ∨ ¬pollCheckpointHeader <+: bytes then none
  else
    let emptyCycles := BitVec.ofNat 32 (fromBe ((bytes.drop 8).take 4))
    match (bytes[12]? : Option UInt8) with
    | some 0 => some (emptyCycles, false, bytes.drop pollCheckpointPrefixBytes)
    | some 1 => some (emptyCycles, true, bytes.drop pollCheckpointPrefixBytes)
    | _ => none

/-- `poll_checkpoint_payload`. -/
def pollCheckpointPayload (bytes : Bytes) : Bytes :=
  ((decodePollCheckpoint bytes).map fun decoded => decoded.2.2).getD bytes

/-! ## Continuing a poll -/

/-- What a poll reads of its `ExecutionContext`. -/
structure PollContext where
  jobId : JobId
  wallNow : Timestamp
  checkpoint : Option Bytes
  pollWorkFound : Bool

/-- `JobOutcome::Continue`. -/
structure Continue where
  notBefore : Timestamp
  checkpoint : Bytes
  deriving DecidableEq

namespace PollContext

/-- `poll_checkpoint`. -/
def pollCheckpoint (context : PollContext) : Option Bytes :=
  context.checkpoint.map pollCheckpointPayload

/-- The seed of the jitter. -/
def entropy (context : PollContext) : U64 :=
  context.jobId.bytes.toList.foldl (fun seed byte => seed * 31 + BitVec.ofNat 64 byte.toNat)
    context.wallNow.millis.toBitVec

/-- `idle_poll_delay`. -/
def idlePollDelay (context : PollContext) (base : Duration) (emptyCycles : U32) : Duration :=
  let baseMs : U64 :=
    if base.asMillis < 2 ^ 64 then BitVec.ofNat 64 base.asMillis else BitVec.allOnes 64
  let cap := maxIdlePollDelayMs.umax baseMs
  let delay := (baseMs.satMul (1#64 <<< (emptyCycles.umin 32).toNat)).umin cap
  .fromMillis ((delay.setWidth 128 * (80 + context.entropy % 21).setWidth 128 / 100).setWidth 64)

/-- `continue_poll`. -/
def continuePoll (context : PollContext) (checkpoint : Bytes) (delay : Duration)
    (cycleComplete : Bool) : Except ValidationError Continue := do
  require (checkpoint.length + pollCheckpointPrefixBytes ≤ maxCheckpointBytes)
    (.invalidValue "poll checkpoint bytes")
  let (emptyCycles, previousWork, _) :=
    (context.checkpoint.bind decodePollCheckpoint).getD (0, false, [])
  let foundWork := previousWork || context.pollWorkFound
  let emptyCycles :=
    if cycleComplete then (if foundWork then 0 else emptyCycles.satAdd 1) else emptyCycles
  let delay := if cycleComplete then context.idlePollDelay delay emptyCycles else delay
  let encoded := pollCheckpointHeader ++ beBytes 4 emptyCycles.toNat ++
    (if !cycleComplete && foundWork then 1 else 0) :: checkpoint
  return ⟨← context.wallNow.checkedAdd delay, encoded⟩

end PollContext

/-! ## What is stored is read again -/

/-- The bytes of a poll checkpoint. -/
def pollEnvelope (emptyCycles : U32) (foundWork : Bool) (checkpoint : Bytes) : Bytes :=
  pollCheckpointHeader ++ beBytes 4 emptyCycles.toNat ++ (if foundWork then 1 else 0) :: checkpoint

theorem decode_envelope (emptyCycles : U32) (foundWork : Bool) (checkpoint : Bytes) :
    decodePollCheckpoint (pollEnvelope emptyCycles foundWork checkpoint) =
      some (emptyCycles, foundWork, checkpoint) := by
  have hcycles : BitVec.ofNat 32 (fromBe (beBytes 4 emptyCycles.toNat)) = emptyCycles := by
    rw [fromBe_beBytes emptyCycles.isLt, BitVec.ofNat_toNat, BitVec.setWidth_eq]
  obtain ⟨c₀, c₁, c₂, c₃, hword⟩ : ∃ c₀ c₁ c₂ c₃, beBytes 4 emptyCycles.toNat = [c₀, c₁, c₂, c₃] :=
    ⟨_, _, _, _, rfl⟩
  rw [hword] at hcycles
  unfold pollEnvelope decodePollCheckpoint pollCheckpointHeader pollCheckpointPrefixBytes
  rw [hword]
  cases foundWork <;> simp [hcycles]

/-! ## The delay -/

namespace PollContext

/-- The largest delay of a cycle, in milliseconds. -/
def idleBound (base emptyCycles : Nat) : Nat :=
  min (max base 300000) (base * 2 ^ emptyCycles)

/-- A shift by 32 is as good as a longer one: it reaches the cap, unless the base is zero. -/
theorem shifted_eq_idleBound {b : Nat} (hb : b < 2 ^ 64) (k : Nat) :
    min (min (b * 2 ^ min k 32) (2 ^ 64 - 1)) (max 300000 b) = idleBound b k := by
  unfold idleBound
  by_cases hk : k ≤ 32
  · have hmin : min k 32 = k := by omega
    rw [hmin]
    omega
  · have hmin : min k 32 = 32 := by omega
    have hpow : 2 ^ 32 ≤ 2 ^ k := Nat.pow_le_pow_right (by decide) (by omega)
    have hlong : b * 2 ^ 32 ≤ b * 2 ^ k := Nat.mul_le_mul_left b hpow
    rw [hmin]
    rcases Nat.eq_zero_or_pos b with rfl | hpos
    · simp
    · omega

/-- The delay is exact, with a base that is cut at 64 bits. -/
theorem asMillis_idlePollDelay (context : PollContext) (base : Duration) (emptyCycles : U32) :
    (context.idlePollDelay base emptyCycles).asMillis =
      idleBound (min base.asMillis (2 ^ 64 - 1)) emptyCycles.toNat *
        (80 + context.entropy.toNat % 21) / 100 := by
  unfold idlePollDelay
  dsimp only
  generalize hb : min base.asMillis (2 ^ 64 - 1) = b
  generalize hms : (if base.asMillis < 2 ^ 64 then BitVec.ofNat 64 base.asMillis
    else BitVec.allOnes 64) = baseMs
  have hbase : baseMs.toNat = b := by
    rw [← hms]
    split
    · rw [BitVec.toNat_ofNat, Nat.mod_eq_of_lt (by assumption)]
      omega
    · rw [BitVec.toNat_allOnes]
      omega
  have hshift : (1#64 <<< (emptyCycles.umin 32).toNat).toNat = 2 ^ min emptyCycles.toNat 32 := by
    have hle : min emptyCycles.toNat 32 < 64 := by omega
    rw [← BitVec.twoPow_eq, BitVec.toNat_twoPow, BitVec.toNat_umin]
    exact Nat.mod_eq_of_lt (Nat.pow_lt_pow_right (by decide) hle)
  have hpercent : (80 + context.entropy % 21).toNat = 80 + context.entropy.toNat % 21 := by
    rw [BitVec.toNat_add, BitVec.toNat_umod]
    exact Nat.mod_eq_of_lt (by simp; omega)
  generalize hd : (baseMs.satMul (1#64 <<< (emptyCycles.umin 32).toNat)).umin
    (maxIdlePollDelayMs.umax baseMs) = delay
  have hdelay : delay.toNat = idleBound b emptyCycles.toNat := by
    rw [← hd, BitVec.toNat_umin, BitVec.toNat_satMul, BitVec.toNat_umax, hbase, hshift]
    exact shifted_eq_idleBound (by omega) emptyCycles.toNat
  -- the product has 71 bits at most, and the quotient is no longer than the delay
  have hproduct : delay.toNat * (80 + context.entropy.toNat % 21) ≤ delay.toNat * 100 :=
    Nat.mul_le_mul_left _ (by omega)
  rw [Duration.asMillis_fromMillis, BitVec.toNat_setWidth, BitVec.toNat_udiv, BitVec.toNat_mul,
    BitVec.toNat_widen (by decide), BitVec.toNat_widen (by decide), hpercent, ← hdelay,
    Nat.mod_eq_of_lt (by omega : delay.toNat * (80 + context.entropy.toNat % 21) < 2 ^ 128)]
  exact Nat.mod_eq_of_lt (by simp; omega)

/-- A delay that a timestamp can be moved by has a base that was not cut. -/
theorem idlePollDelay_bounds {context : PollContext} {base : Duration} {emptyCycles : U32}
    (h : (context.idlePollDelay base emptyCycles).asMillis < 2 ^ 63) :
    idleBound base.asMillis emptyCycles.toNat * 80 / 100 ≤
        (context.idlePollDelay base emptyCycles).asMillis ∧
      (context.idlePollDelay base emptyCycles).asMillis ≤
        idleBound base.asMillis emptyCycles.toNat := by
  rw [asMillis_idlePollDelay] at h ⊢
  have hle : min base.asMillis (2 ^ 64 - 1) ≤
      idleBound (min base.asMillis (2 ^ 64 - 1)) emptyCycles.toNat := by
    have := Nat.le_mul_of_pos_right (min base.asMillis (2 ^ 64 - 1))
      (Nat.two_pow_pos emptyCycles.toNat)
    unfold idleBound
    omega
  have hlow : ∀ n : Nat, n * 80 / 100 ≤ n * (80 + context.entropy.toNat % 21) / 100 := fun n =>
    Nat.div_le_div_right (Nat.mul_le_mul_left n (by omega))
  have hhigh : ∀ n : Nat, n * (80 + context.entropy.toNat % 21) / 100 ≤ n := fun n =>
    Nat.div_le_of_le_mul (Nat.mul_comm n 100 ▸ Nat.mul_le_mul_left n (by omega))
  have hbase : min base.asMillis (2 ^ 64 - 1) = base.asMillis := by
    have := hlow (idleBound (min base.asMillis (2 ^ 64 - 1)) emptyCycles.toNat)
    omega
  rw [hbase]
  exact ⟨hlow _, hhigh _⟩

end PollContext

/-! ## Runs -/

/-- One execution: its time, whether it records work, and how it continues the poll. -/
structure PollPage where
  wallNow : Timestamp
  work : Bool
  checkpoint : Bytes
  delay : Duration
  complete : Bool

/-- The context of the execution, with the checkpoint that it sees. -/
def PollPage.context (page : PollPage) (jobId : JobId) (checkpoint : Option Bytes) : PollContext :=
  ⟨jobId, page.wallNow, checkpoint, page.work⟩

def PollPage.execute (page : PollPage) (jobId : JobId) (checkpoint : Option Bytes) :
    Except ValidationError Continue :=
  (page.context jobId checkpoint).continuePoll page.checkpoint page.delay page.complete

/-- The executions of one job so far, and the checkpoint that the next one sees. -/
inductive PollRun (jobId : JobId) : List PollPage → Option Bytes → Prop
  | start : PollRun jobId [] none
  | page {pages : List PollPage} {checkpoint : Option Bytes} {page : PollPage} {result : Continue} :
    PollRun jobId pages checkpoint → page.execute jobId checkpoint = .ok result →
      PollRun jobId (pages ++ [page]) (some result.checkpoint)

/-- The pages as cycles: the completed ones, the last one first, and the one under way. -/
structure PollCycles where
  completed : List (List PollPage) := []
  current : List PollPage := []

namespace PollCycles

def add (cycles : PollCycles) (page : PollPage) : PollCycles :=
  if page.complete then ⟨(cycles.current ++ [page]) :: cycles.completed, []⟩
  else { cycles with current := cycles.current ++ [page] }

def ofPages (pages : List PollPage) : PollCycles := pages.foldl add {}

/-- A page of the cycle recorded work. -/
def foundWork (cycle : List PollPage) : Bool := cycle.any PollPage.work

/-- The completed cycles since the last one with work. -/
def idle (cycles : PollCycles) : Nat := (cycles.completed.takeWhile fun c => !foundWork c).length

theorem foundWork_append (cycle : List PollPage) (page : PollPage) :
    foundWork (cycle ++ [page]) = (foundWork cycle || page.work) := by
  simp [foundWork]

theorem idle_add_complete {cycles : PollCycles} {page : PollPage} (h : page.complete = true) :
    (cycles.add page).idle =
      if foundWork cycles.current || page.work then 0 else cycles.idle + 1 := by
  unfold add idle
  rw [if_pos h, List.takeWhile_cons, foundWork_append]
  cases foundWork cycles.current || page.work <;> rfl

/-- What a checkpoint says about the cycles. -/
structure Stored (cycles : PollCycles) (emptyCycles : U32) (foundWork : Bool) : Prop where
  emptyCycles : emptyCycles.toNat = min cycles.idle (2 ^ 32 - 1)
  foundWork : foundWork = PollCycles.foundWork cycles.current

/-- One page: the counter and the mark move with the cycles. -/
theorem Stored.execute {cycles : PollCycles} {jobId : JobId} {checkpoint : Option Bytes}
    {page : PollPage} {result : Continue} {emptyCycles : U32} {foundWork : Bool} {rest : Bytes}
    (hdecode : (checkpoint.bind decodePollCheckpoint).getD (0, false, []) =
      (emptyCycles, foundWork, rest))
    (h : cycles.Stored emptyCycles foundWork) (hpage : page.execute jobId checkpoint = .ok result) :
    ∃ emptyCycles' foundWork', (cycles.add page).Stored emptyCycles' foundWork' ∧
      result.checkpoint = pollEnvelope emptyCycles' foundWork' page.checkpoint ∧
      page.wallNow.checkedAdd (if page.complete then
        (page.context jobId checkpoint).idlePollDelay page.delay emptyCycles' else page.delay) =
        .ok result.notBefore := by
  obtain ⟨_, -, hpage⟩ := Except.bind_eq_ok.mp hpage
  have hcontext : ((page.context jobId checkpoint).checkpoint.bind decodePollCheckpoint).getD
      (0, false, []) = (emptyCycles, foundWork, rest) := hdecode
  rw [hcontext] at hpage
  obtain ⟨notBefore, htime, hpage⟩ := Except.bind_eq_ok.mp hpage
  cases hpage
  refine ⟨_, !page.complete && (foundWork || page.work), ⟨?_, ?_⟩, rfl, htime⟩
  · cases hcomplete : page.complete with
    | false =>
      have hidle : (cycles.add page).idle = cycles.idle := by simp [add, idle, hcomplete]
      rw [hidle]
      exact h.emptyCycles
    | true =>
      have hwork : (foundWork || (page.context jobId checkpoint).pollWorkFound) =
          (PollCycles.foundWork cycles.current || page.work) := by rw [h.foundWork]; rfl
      rw [idle_add_complete hcomplete, hwork, if_pos rfl]
      split
      · rfl
      · have hone : (1 : U32).toNat = 1 := rfl
        rw [BitVec.toNat_satAdd, h.emptyCycles, hone]
        omega
  · cases hcomplete : page.complete with
    | false => simp [add, hcomplete, foundWork_append, h.foundWork]
    | true => simp [add, hcomplete, PollCycles.foundWork]

/-- After each page the checkpoint says what the cycles are, in front of the page's own bytes. -/
theorem stored_of_run {jobId : JobId} {pages : List PollPage} {checkpoint : Option Bytes}
    (h : PollRun jobId pages checkpoint) :
    ∃ emptyCycles foundWork rest,
      (checkpoint.bind decodePollCheckpoint).getD (0, false, []) = (emptyCycles, foundWork, rest) ∧
      (ofPages pages).Stored emptyCycles foundWork := by
  induction h with
  | start => exact ⟨0, false, [], rfl, rfl, rfl⟩
  | @page pages checkpoint page result hrun hpage ih =>
    obtain ⟨emptyCycles, foundWork, rest, hdecode, hstored⟩ := ih
    obtain ⟨emptyCycles', foundWork', hnext, hresult, -⟩ := hstored.execute hdecode hpage
    refine ⟨emptyCycles', foundWork', page.checkpoint, ?_, ?_⟩
    · rw [hresult, Option.bind_some, decode_envelope]
      rfl
    · rwa [ofPages, List.foldl_append]

end PollCycles

/-- The next execution reads the application's bytes as they were returned; the counter is the
number of completed cycles since the last one with work, and the mark says whether the unfinished
one has found any; a completed cycle is followed by 80 to 100 percent of its bound. The delay is the
one of exact arithmetic for every base and counter. -/
theorem poll_history_exact (jobId : JobId) (pages : List PollPage) (checkpoint : Option Bytes)
    (page : PollPage) (result : Continue) (hrun : PollRun jobId pages checkpoint)
    (hpage : page.execute jobId checkpoint = .ok result) :
    let cycles := PollCycles.ofPages (pages ++ [page])
    (∀ next : PollPage, (next.context jobId (some result.checkpoint)).pollCheckpoint =
      some page.checkpoint) ∧
    ∃ k : U32, decodePollCheckpoint result.checkpoint =
        some (k, PollCycles.foundWork cycles.current, page.checkpoint) ∧
      k.toNat = min cycles.idle (2 ^ 32 - 1) ∧
      (page.complete = true → ∃ delay : Nat,
        result.notBefore.millis.toInt = page.wallNow.millis.toInt + delay ∧
        PollContext.idleBound page.delay.asMillis k.toNat * 80 / 100 ≤ delay ∧
        delay ≤ PollContext.idleBound page.delay.asMillis k.toNat) ∧
      ∀ (context : PollContext) (base : Duration) (k : U32),
        (context.idlePollDelay base k).asMillis =
          PollContext.idleBound (min base.asMillis (2 ^ 64 - 1)) k.toNat *
            (80 + context.entropy.toNat % 21) / 100 := by
  intro cycles
  obtain ⟨emptyCycles, foundWork, rest, hdecode, hstored⟩ := PollCycles.stored_of_run hrun
  obtain ⟨k, mark, hnext, hresult, htime⟩ := hstored.execute hdecode hpage
  have hcycles : cycles = (PollCycles.ofPages pages).add page := List.foldl_append
  rw [← hcycles] at hnext
  have hread : decodePollCheckpoint result.checkpoint = some (k, mark, page.checkpoint) := by
    rw [hresult, decode_envelope]
  refine ⟨fun next => ?_, k, hnext.foundWork ▸ hread, hnext.emptyCycles, fun hcomplete => ?_,
    PollContext.asMillis_idlePollDelay⟩
  · simp [PollContext.pollCheckpoint, PollPage.context, pollCheckpointPayload, hread]
  · rw [if_pos hcomplete, Timestamp.checkedAdd_eq_ok] at htime
    exact ⟨_, htime.2, PollContext.idlePollDelay_bounds htime.1⟩

namespace Sample

/-- A page that polls every second. -/
def pollPage (work complete : Bool) : PollPage := ⟨⟨0⟩, work, [1], .fromSecs 1, complete⟩

end Sample

open Sample in
/-- An idle cycle, and one whose first page finds work: the mark is carried to the second page, which
finds none, and the cycle counts as one with work. -/
theorem poll_history_exact_carried : ∃ idle found last,
    (pollPage false true).execute (.repeated 1) none = .ok idle ∧
    (pollPage true false).execute (.repeated 1) (some idle.checkpoint) = .ok found ∧
    (pollPage false true).execute (.repeated 1) (some found.checkpoint) = .ok last ∧
    (∃ k, decodePollCheckpoint found.checkpoint = some (k, true, [1]) ∧ k.toNat = 1) ∧
    ∃ k, decodePollCheckpoint last.checkpoint = some (k, false, [1]) ∧ k.toNat = 0 := by
  have hruns : (do
      let idle ← (pollPage false true).execute (.repeated 1) none
      let found ← (pollPage true false).execute (.repeated 1) (some idle.checkpoint)
      let last ← (pollPage false true).execute (.repeated 1) (some found.checkpoint)
      return decide (last.notBefore ≤ ⟨2000⟩)) = (.ok true : Except ValidationError Bool) := by
    decide +kernel
  obtain ⟨idle, hidle, hruns⟩ := Except.bind_eq_ok.mp hruns
  obtain ⟨found, hfound, hruns⟩ := Except.bind_eq_ok.mp hruns
  obtain ⟨last, hlast, -⟩ := Except.bind_eq_ok.mp hruns
  have hrun : PollRun (.repeated 1) [pollPage false true] (some idle.checkpoint) :=
    .page .start hidle
  obtain ⟨-, k, hread, hk, -⟩ := poll_history_exact _ _ _ _ found hrun hfound
  obtain ⟨-, k', hread', hk', -⟩ := poll_history_exact _ _ _ _ last (hrun.page hfound) hlast
  exact ⟨idle, found, last, hidle, hfound, hlast, ⟨k, hread, hk⟩, k', hread', hk'⟩

end AuxCommon
