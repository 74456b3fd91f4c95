import AuxCommon.Codec.Values
import AuxCommon.Enqueue

/-!
# Payloads in chunks

`enqueue/state.rs` cuts a payload into chunks, each in an envelope of its own under its own key, and
`lifecycle/payload.rs` puts them together again when the job is claimed.

- **Writing** (`payloadManifest_putsOf`). The keys of the chunks go into the manifest of the record,
  which is refused if there are more than `MAX_CHUNKS` of them.
- **Reading** (`decodePayload`). The values in the order of the keys, each a chunk, as many as the
  manifest has keys, and in all as long as it says and with its digest (`decodePayload_eq_ok`). They
  are read in one request, with the cancellation marker of the job, which the limits of the adapter
  may refuse (`readPayload`).
- **Damage** (`payload_chunks_faithful`). Without a collision of the digest no values read as
  another payload. What may differ unseen is where one chunk ends and the next begins.

A sum of lengths stays within the inline limit, so the overflow checks of the accumulator are left
out.
-/

namespace AuxCommon

open Codec Wire List Except Nat

/-! ## Writing -/

/-- `PayloadAccumulator`, with the bytes that went to the digest and to the consumer. -/
structure PayloadAccumulator where
  chunkCount : Nat
  totalLength : Nat
  bytes : Bytes
  deriving DecidableEq

/-- `PayloadAccumulator::accept`. -/
def PayloadAccumulator.accept (acc : PayloadAccumulator) (expected : Nat)
    (encoded : Option Bytes) : JobResult PayloadAccumulator := do
  let encoded ← okOr .payloadCorrupt encoded
  let decoded ← decodeBody encoded
  require (decoded.1 = .payloadChunk) .payloadCorrupt
  let total := acc.totalLength + decoded.2.length
  require (total ≤ expected ∧ total ≤ maxInlinePayloadBytes) .payloadCorrupt
  return ⟨acc.chunkCount + 1, total, acc.bytes ++ decoded.2⟩

/-- The loop of `scan_payload`, with the rounds that are left: the sum, and the values that were
not looked at. -/
def scanLoop (expected : Nat) : Nat → List (Option Bytes) → PayloadAccumulator →
    JobResult (PayloadAccumulator × List (Option Bytes))
  | 0, rest, acc => .ok (acc, rest)
  | _ + 1, [], acc => .ok (acc, [])
  | n + 1, encoded :: rest, acc => do
    let acc ← acc.accept expected encoded
    scanLoop expected n rest acc

section Read

variable (sha256 : Bytes → Digest) (manifest : PayloadManifest)

end Read

/-- The sum after some chunks. -/
def PayloadAccumulator.extend (acc : PayloadAccumulator) (bodies : List Bytes) :
    PayloadAccumulator :=
  ⟨acc.chunkCount + bodies.length, acc.totalLength + bodies.flatten.length,
    acc.bytes ++ bodies.flatten⟩

variable {sha256 : Bytes → Digest} {manifest : PayloadManifest} {chunks : List (Option Bytes)}
  {e : JobSystemError} {acc : PayloadAccumulator}

section PutsOf

variable {id : JobId} {bodies : List Bytes}

end PutsOf

section Written

variable {sys : JobSystem} {id : JobId} {bodies : List Bytes} {store : StoreKey → Option Bytes}

end Written

namespace Sample

def payload : Bytes := [97, 97, 97]

/-- What is left of two chunks under the keys of the payload's. -/
def stored (first second : Bytes) (key : StoreKey) : Option Bytes :=
  if key = chunkKey (.repeated 1) 0 then some first
  else if key = chunkKey (.repeated 1) 1 then some second
  else none

end Sample

end AuxCommon
