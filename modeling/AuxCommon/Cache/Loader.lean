import AuxCommon.Cache.Core

/-!
# Reads through the cache

Model of `get_or_fetch` (`lru-ttl-cache/src/cache.rs`), with `cache_loader.rs` and
`shared_load.rs`. A read that finds no fresh entry joins the flight of its key, or starts one. The
one who starts it prepares the load, fetches from the source, publishes under the lease of the load,
sends the outcome to those who wait and takes the flight off the table. The entries have one lock
and the flights another, and each critical section is one step, as are the beginning and the end of
a fetch.

A value is kept with its `Source`: the caller, or the fetch that began at a time. `changes` has the
times of the insertions and removals of each key, `began` the time of each call.

A background refresh is a call that any task can make at any time over any entry. The priority of a
flight is left out.
-/

namespace AuxCommon.Cache

/-- Who made a value: the caller, or the fetch that began at a time. -/
inductive Source where
  | caller
  | fetch (began : Nat)
  deriving DecidableEq

inductive LoadUnavailable where
  | full
  | cancelled

/-- `E` with its `From<LoadUnavailable>`. -/
structure Loader (E : Type) where
  config : CacheConfig
  unavailable : LoadUnavailable → E

namespace Loader

variable {E : Type} (L : Loader E)

/-- `MAX_LOAD_KEYS`, after `SharedLoad::new`. -/
def maxKeys : Nat := max 1 (min L.config.capacity 128)

/-- `MAX_LOAD_WAITERS`. -/
def maxWaiters : Nat := 4096

end Loader

/-- What a fetch returns, with its source. -/
abbrev Outcome (V E : Type) := Except E (Option V × Source)

/-- The channel of a flight. -/
structure Flight (K V E : Type) where
  key : K
  outcome : Option (Outcome V E)
  closed : Bool

def Flight.new {K V E : Type} (key : K) : Flight K V E where
  key := key
  outcome := none
  closed := false

/-- Where the leader of a flight is. -/
inductive Stage (K V E : Type) where
  | preparing (intent : LoadIntent (V × Source))
  | prepared (load : CacheLoad K (V × Source))
  | fetching (load : CacheLoad K (V × Source)) (began : Nat)
  | fetched (load : CacheLoad K (V × Source)) (value : Option V) (began : Nat)
  | landed (load : CacheLoad K (V × Source)) (outcome : Outcome V E)
  | sending (outcome : Outcome V E)
  | sent (outcome : Outcome V E)
  -- its future has been dropped, and the load and the flight are on their way out
  | aborting (load : CacheLoad K (V × Source))
  | aborted

/-- Where a call is. -/
inductive Phase (K V E : Type) where
  | idle
  | inspecting (key : K)
  | admitting (key : K) (intent : LoadIntent (V × Source))
  | direct (key : K)
  | fetchingDirectly (key : K) (began : Nat)
  | leading (key : K) (channel : Nat) (stage : Stage K V E)
  | waiting (key : K) (channel : Nat)
  | returned (key : K) (outcome : Outcome V E)

structure State (τ K V E : Type) where
  inner : CacheInner K (V × Source)
  flights : LinkedMap K Nat
  channels : List (Flight K V E)
  waiters : Nat
  phase : τ → Phase K V E
  began : τ → Nat
  time : Nat
  changes : K → List Nat

/-- What a step gets from outside: the clock, and what the source returned, if the task did not see
the cancellation of its lease first. -/
structure Input (V E : Type) where
  now : Instant
  source : Option (Except E (Option V))

inductive Turn (τ K V E : Type) where
  | insert (key : K) (value : V) (expiration : CacheExpiration) (now : Instant)
  | remove (key : K)
  | getOrFetch (task : τ) (key : K)
  | refresh (task : τ) (key : K) (expected : CacheEntry (V × Source))
  | advance (task : τ) (input : Input V E)
  | abandon (task : τ)

namespace Loader

variable {τ K V E : Type} (L : Loader E)

def inspected (key : K) : EntryState (V × Source) → Phase K V E
  | .fresh entry => .returned key (.ok (some entry.value.1, entry.value.2))
  | .missing | .expired | .stale _ =>
    if L.config.disabled then .direct key else .admitting key .cold

def prepared : LoadPreparation K (V × Source) → Stage K V E
  | .cached value => .sending (.ok (some value.1, value.2))
  | .cancelled => .sending (.error (L.unavailable .cancelled))
  | .fetch load => .prepared load

def published (result : Option V × Source) : LoadPublication → Outcome V E
  | .stored | .notRetained => .ok result
  | .cancelled => .error (L.unavailable .cancelled)

/-- What the source returned, with its time. -/
def directly (began : Nat) : Except E (Option V) → Outcome V E
  | .ok value => .ok (value, .fetch began)
  | .error error => .error error

end Loader

namespace State

variable {τ K V E : Type}

def new : State τ K V E where
  inner := .new
  flights := .empty
  channels := []
  waiters := 0
  phase _ := .idle
  began _ := 0
  time := 0
  changes _ := []

variable [DecidableEq τ] [DecidableEq K] (L : Loader E) (s : State τ K V E) (t : τ) (key : K)
  (channel : Nat)

def goto (p : Phase K V E) : State τ K V E := { s with phase := Function.update s.phase t p }

def inspect (now : Instant) : State τ K V E :=
  let r := s.inner.inspectEntry L.config key now
  { s with inner := r.2 }.goto t (L.inspected key r.1)

/-- `SharedLoad::admit_fetch`. -/
def admitLoad (intent : LoadIntent (V × Source)) : State τ K V E :=
  match s.flights.get? key with
  | some channel =>
    if s.waiters < Loader.maxWaiters then
      { s with waiters := s.waiters + 1 }.goto t (.waiting key channel)
    else s.goto t (.returned key (.error (L.unavailable .full)))
  | none =>
    if L.maxKeys ≤ s.flights.len then s.goto t (.returned key (.error (L.unavailable .full)))
    else
      { s with
        flights := s.flights.insert key s.channels.length
        channels := s.channels ++ [Flight.new key] }.goto t
          (.leading key s.channels.length (.preparing intent))

/-- A subscriber gets the outcome, or the end of the channel. -/
def receive : Option (State τ K V E) :=
  (s.channels[channel]?).bind fun flight =>
    match flight.outcome with
    | some outcome => some ({ s with waiters := s.waiters - 1 }.goto t (.returned key outcome))
    | none =>
      if flight.closed then
        some ({ s with waiters := s.waiters - 1 }.goto t
          (.returned key (.error (L.unavailable .cancelled))))
      else none

def prepare (intent : LoadIntent (V × Source)) (now : Instant) : State τ K V E :=
  let r := s.inner.prepareLoad key intent now
  { s with inner := r.2 }.goto t (.leading key channel (L.prepared r.1))

variable (load : CacheLoad K (V × Source))

/-- The select of the lease's cancellation and the source. -/
def select (began : Nat) : Option (Except E (Option V)) → Option (State τ K V E)
  | some (.ok value) => some (s.goto t (.leading key channel (.fetched load value began)))
  | some (.error error) => some (s.goto t (.leading key channel (.landed load (.error error))))
  | none =>
    if s.inner.cancelled load.lease then
      some (s.goto t
        (.leading key channel (.landed load (.error (L.unavailable .cancelled)))))
    else none

def publish (value : Option V) (began : Nat) (now : Instant) : State τ K V E :=
  let r := s.inner.publishLoad L.config load (value.map (·, .fetch began)) now
  { s with inner := r.2 }.goto t
    (.leading key channel (.landed load (L.published (value, .fetch began) r.1)))

/-- The drop of the load. -/
def finish (stage : Stage K V E) : State τ K V E :=
  { s with inner := s.inner.finishLoad load }.goto t (.leading key channel stage)

def send (outcome : Outcome V E) : State τ K V E :=
  { s with channels := s.channels.modify channel ({ · with outcome := some outcome }) }.goto t
    (.leading key channel (.sent outcome))

/-- The drop of the leader. -/
def unregister (p : Phase K V E) : State τ K V E :=
  { s with
    flights := s.flights.erase key
    channels := s.channels.modify channel ({ · with closed := true }) }.goto t p

def advance (i : Input V E) : Option (State τ K V E) :=
  match s.phase t with
  | .idle | .returned _ _ => none
  | .inspecting key => some (s.inspect L t key i.now)
  | .admitting key intent => some (s.admitLoad L t key intent)
  | .direct key => some (s.goto t (.fetchingDirectly key s.time))
  | .fetchingDirectly key began =>
    i.source.map fun result => s.goto t (.returned key (Loader.directly began result))
  | .waiting key channel => s.receive L t key channel
  | .leading key channel stage =>
    match stage with
    | .preparing intent => some (s.prepare L t key channel intent i.now)
    | .prepared load => some (s.goto t (.leading key channel (.fetching load s.time)))
    | .fetching load began => s.select L t key channel load began i.source
    | .fetched load value began => some (s.publish L t key channel load value began i.now)
    | .landed load outcome => some (s.finish t key channel load (.sending outcome))
    | .sending outcome => some (s.send t key channel outcome)
    | .sent outcome => some (s.unregister t key channel (.returned key outcome))
    | .aborting load => some (s.finish t key channel load .aborted)
    | .aborted => some (s.unregister t key channel .idle)

/-- The future of a call is dropped where it waits. -/
def abandon : Option (State τ K V E) :=
  match s.phase t with
  | .fetchingDirectly _ _ => some (s.goto t .idle)
  | .waiting _ _ => some ({ s with waiters := s.waiters - 1 }.goto t .idle)
  | .leading key channel (.fetching load _) =>
    some (s.goto t (.leading key channel (.aborting load)))
  | _ => none

/-- A task without a call makes one. -/
def call (p : Phase K V E) : Option (State τ K V E) :=
  match s.phase t with
  | .idle | .returned _ _ =>
    some ({ s with began := Function.update s.began t s.time }.goto t p)
  | _ => none

/-- The caller changes a key. -/
def change (inner : CacheInner K (V × Source)) : State τ K V E :=
  { s with
    inner := inner
    changes := Function.update s.changes key (s.time :: s.changes key) }

def apply : Turn τ K V E → Option (State τ K V E)
  | .insert key value expiration now =>
    some (s.change key (s.inner.insertWithExpiration L.config key (value, .caller) expiration now).2)
  | .remove key => some (s.change key (s.inner.removeKey key).2)
  | .getOrFetch t key => s.call t (.inspecting key)
  | .refresh t key expected => s.call t (.admitting key (.refresh expected))
  | .advance t i => s.advance L t i
  | .abandon t => s.abandon t

def step (a : Turn τ K V E) : Option (State τ K V E) :=
  (s.apply L a).map fun s' => { s' with time := s.time + 1 }

end State

end AuxCommon.Cache
