import AuxCommon.Lib.LinkedMap
import AuxCommon.Lib.Saturating

/-!
# The cache behind its lock

Model of `lru-ttl-cache/src/core.rs`, with `cache_entry.rs`, `cache_load.rs` and `load_lease.rs`.
Each operation of `CacheCore` is one critical section on `CacheInner`: the entries in the order of
their use, the index of their deadlines, and the leases of the loads that are under way. A load
takes a lease when it is prepared, and it may publish its value only under that lease while nobody
has cancelled it.

An entry and a lease are identified by their allocation, here a number that is used once. The flag
that the clones of a lease share is in the state. `now` is an argument, one for each critical
section. Left out are the counters of hits and misses, the callback for invalidated keys, and the
flags by which an entry has at most one background refresh: nothing here reads them.
-/

namespace AuxCommon.Cache

abbrev Instant := Nat

inductive CacheExpiration where
  | ttl (duration : Nat)
  | never
  deriving DecidableEq

structure CacheConfig where
  capacity : Nat
  expiration : CacheExpiration

variable (c : CacheConfig)

/-- A time to live of zero disables storage. -/
def CacheConfig.disabled : Bool := c.expiration = .ttl 0

structure CacheEntry (V : Type) where
  id : Nat
  value : V
  expiration : CacheExpiration
  expiresAt : Option Instant

namespace CacheEntry

variable {V : Type}

def new (id : Nat) (value : V) (expiration : CacheExpiration) (now : Instant) : CacheEntry V where
  id := id
  value := value
  expiration := expiration
  expiresAt :=
    match expiration with
    | .ttl duration => some ((checkedAdd now duration).getD now)
    | .never => none

def isExpiredAt (e : CacheEntry V) (now : Instant) : Bool := e.expiresAt.any (now ≥ ·)

def isStaleAt (e : CacheEntry V) (now : Instant) (staleTtl : Nat) : Bool :=
  staleTtl ≠ 0 && (e.expiresAt.bind (checkedAdd · staleTtl)).any (now < ·)

def expirationKey (e : CacheEntry V) : Option (Instant × Nat) := e.expiresAt.map (·, e.id)

/-- `Arc::ptr_eq`. -/
def isSameEntry (e expected : CacheEntry V) : Bool := e.id = expected.id

end CacheEntry

inductive LoadIntent (V : Type) where
  | cold
  | refresh (expected : CacheEntry V)

inductive LoadPublication where
  | stored
  | notRetained
  | cancelled
  deriving DecidableEq

/-- A load that may publish under its lease. -/
structure CacheLoad (K V : Type) where
  key : K
  intent : LoadIntent V
  lease : Nat

inductive LoadPreparation (K V : Type) where
  | cached (value : V)
  | fetch (load : CacheLoad K V)
  | cancelled

inductive EntryState (V : Type) where
  | missing
  | expired
  | fresh (entry : CacheEntry V)
  | stale (entry : CacheEntry V)

structure CacheInner (K V : Type) where
  loads : LinkedMap K Nat
  entries : LinkedMap K (CacheEntry V)
  expirations : LinkedMap (Instant × Nat) K
  /-- The leases that have been cancelled. -/
  cancelled : Nat → Bool
  nextLease : Nat
  nextEntry : Nat

namespace CacheInner

variable {K V : Type}

def new : CacheInner K V where
  loads := .empty
  entries := .empty
  expirations := .empty
  cancelled _ := false
  nextLease := 0
  nextEntry := 0

variable (s : CacheInner K V)

/-- The earliest deadline (`first_key_value`). -/
def firstExpiration : Option ((Instant × Nat) × K) :=
  s.expirations.entries.foldl
    (fun best e => match best with
      | none => some e
      | some b =>
        if e.1.1 < b.1.1 ∨ e.1.1 = b.1.1 ∧ e.1.2 < b.1.2 then some e else some b) none

variable [DecidableEq K]

/-- The load of a key loses its lease. -/
def cancelLoad (key : K) : CacheInner K V :=
  match s.loads.get? key with
  | some lease => { s with cancelled := Function.update s.cancelled lease true }
  | none => s

def isCurrentLoad (key : K) (lease : Nat) : Bool :=
  !s.cancelled lease && (s.loads.get? key).any (· = lease)

def remove (key : K) : Option (CacheEntry V) × CacheInner K V :=
  let s := s.cancelLoad key
  match s.entries.get? key with
  | none => (none, s)
  | some entry =>
    (some entry, { s with
      entries := s.entries.erase key
      expirations :=
        match entry.expirationKey with
        | some expiration => s.expirations.erase expiration
        | none => s.expirations })

def insert (s : CacheInner K V) (key : K) (entry : CacheEntry V) :
    Option (CacheEntry V) × CacheInner K V :=
  let (previous, s) := s.remove key
  (previous, { s with
    expirations :=
      match entry.expirationKey with
      | some expiration => s.expirations.insert expiration key
      | none => s.expirations
    entries := s.entries.insert key entry })

/-- Expiry removes residence, not the identity of a load that is under way. -/
def discardExpired (key : K) : CacheInner K V :=
  if s.loads.contains key then s else (s.remove key).2

def evictIfNeeded (incomingKey : K) (capacity : Nat) (now : Instant) : CacheInner K V :=
  if s.entries.len < capacity ∨ s.entries.contains incomingKey then s
  else
    let expired := (s.firstExpiration.filter (·.1.1 ≤ now)).map (·.2)
    match expired.or (s.entries.front?.map (·.1)) with
    | some victim => (s.remove victim).2
    | none => s

/-- `CacheEntry::new`: the entry and its allocation. -/
def allocate (value : V) (expiration : CacheExpiration) (now : Instant) :
    CacheEntry V × CacheInner K V :=
  (.new s.nextEntry value expiration now, { s with nextEntry := s.nextEntry + 1 })

/-! ## The operations of `CacheCore` -/

def insertWithExpiration (s : CacheInner K V) (key : K) (value : V) (expiration : CacheExpiration)
    (now : Instant) : Option (CacheEntry V) × CacheInner K V :=
  if c.disabled ∨ expiration = .ttl 0 then (none, (s.remove key).2)
  else
    let s := s.evictIfNeeded key c.capacity now
    let (entry, s) := s.allocate value expiration now
    (some entry, (s.insert key entry).2)

/-- `CacheCore::remove`. -/
def removeKey (key : K) : Option V × CacheInner K V :=
  let (entry, s) := s.remove key
  (entry.map (·.value), s)

/-- A new lease for the load of a key. -/
def startLoad (key : K) (intent : LoadIntent V) : LoadPreparation K V × CacheInner K V :=
  (.fetch { key := key, intent := intent, lease := s.nextLease },
    { s with loads := s.loads.insert key s.nextLease, nextLease := s.nextLease + 1 })

def prepareLoad (key : K) (intent : LoadIntent V) (now : Instant) :
    LoadPreparation K V × CacheInner K V :=
  match intent with
  | .cold =>
    let s := { s with entries := s.entries.toBack key }
    match (s.entries.get? key).filter fun entry => !entry.isExpiredAt now with
    | some entry => (.cached entry.value, s)
    | none => s.startLoad key intent
  | .refresh expected =>
    if (s.entries.get? key).any fun entry =>
        entry.isSameEntry expected && !entry.isExpiredAt now then s.startLoad key intent
    else (.cancelled, s)

/-- A loaded value takes its place, or the absence that was loaded removes the entry. -/
def store (s : CacheInner K V) (key : K) (value : Option V) (expiration : CacheExpiration)
    (now : Instant) : CacheInner K V :=
  match value with
  | some value =>
    let s := s.evictIfNeeded key c.capacity now
    let (entry, s) := s.allocate value expiration now
    (s.insert key entry).2
  | none => (s.remove key).2

def publishLoad (s : CacheInner K V) (load : CacheLoad K V) (value : Option V) (now : Instant) :
    LoadPublication × CacheInner K V :=
  if s.isCurrentLoad load.key load.lease = false then (.cancelled, s)
  else match load.intent with
    | .cold => (.stored, s.store c load.key value c.expiration now)
    | .refresh expected =>
      match s.entries.get? load.key with
      | none => (.cancelled, s)
      | some current =>
        if current.isSameEntry expected = false then (.cancelled, s)
        -- the value serves those who wait, without renewing an expired entry
        else if value.isSome && current.isExpiredAt now then (.notRetained, s)
        else (.stored, s.store c load.key value current.expiration now)

def finishLoad (load : CacheLoad K V) : CacheInner K V :=
  if (s.loads.get? load.key).any (· = load.lease) then
    { s with loads := s.loads.erase load.key }
  else s

def inspectEntry (s : CacheInner K V) (key : K) (now : Instant) : EntryState V × CacheInner K V :=
  if c.disabled then (.missing, s)
  else match s.entries.get? key with
    | none => (.missing, s)
    | some entry =>
      let s := { s with entries := s.entries.toBack key }
      if entry.isExpiredAt now then (.expired, s.discardExpired key) else (.fresh entry, s)

def inspectEntryWithStale (s : CacheInner K V) (key : K) (staleTtl : Nat) (now : Instant) :
    EntryState V × CacheInner K V :=
  if c.disabled then (.missing, s)
  else match s.entries.get? key with
    | none => (.missing, s)
    | some entry =>
      let s := { s with entries := s.entries.toBack key }
      if entry.isExpiredAt now = false then (.fresh entry, s)
      else if entry.isStaleAt now staleTtl then (.stale entry, s)
      else (.expired, s.discardExpired key)

end CacheInner

end AuxCommon.Cache
