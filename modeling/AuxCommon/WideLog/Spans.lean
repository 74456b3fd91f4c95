import AuxCommon.WideLog.Fields
import Mathlib.Order.Basic
import Mathlib.Order.Lattice

/-!
# Spans, snapshots and lines

Model of `telemetry/src/wide_log/span_state.rs`, `trace_rule.rs` and `otel_log_entry.rs`: what an
open span has collected, the snapshot that it leaves when it closes, the passes over the tree of
snapshots, and the entry that is written for a root.

`flatten` changes the depth and the parent's target of each child before it descends; here the two
are arguments of the descent (`flattenAt`).
-/

namespace AuxCommon.WideLog

open SpanFields

/-- The levels, the most severe first. -/
inductive Level where
  | error
  | warn
  | info
  | debug
  | trace
  deriving DecidableEq

namespace Level

def verbosity : Level → Nat
  | .error => 0
  | .warn => 1
  | .info => 2
  | .debug => 3
  | .trace => 4

theorem verbosity_injective : Function.Injective verbosity := by
  intro a b h
  cases a <;> cases b <;> first | rfl | cases h

instance : LinearOrder Level := LinearOrder.lift' verbosity verbosity_injective

def asStr : Level → String
  | .error => "ERROR"
  | .warn => "WARN"
  | .info => "INFO"
  | .debug => "DEBUG"
  | .trace => "TRACE"

def severityNumber : Level → Nat
  | .error => 17
  | .warn => 13
  | .info => 9
  | .debug => 5
  | .trace => 1

end Level

/-- The static description of a span or an event. -/
structure Metadata where
  target : String
  name : String
  level : Level
  deriving DecidableEq

structure SpanEvent (F : Type) where
  level : Level
  name : String
  target : String
  fields : SpanFields F

structure SpanSnapshot (F : Type) where
  target : String
  name : String
  level : Level
  durationMs : F
  fields : SpanFields F
  events : List (SpanEvent F)
  children : List (SpanSnapshot F)
  parentTarget : Option String
  depth : Nat

structure SpanState (F : Type) where
  target : String
  name : String
  level : Level
  /-- The name of a reading of the clock. -/
  startedAt : Nat
  fields : SpanFields F
  events : List (SpanEvent F)
  children : List (SpanSnapshot F)

variable {F : Type} [Floats F]

namespace SpanState

omit [Floats F] in
def new (metadata : Metadata) (now : Nat) (fields : SpanFields F) : SpanState F where
  target := metadata.target
  name := metadata.name
  level := metadata.level
  startedAt := now
  fields := fields
  events := []
  children := []

variable (state : SpanState F)

def recordEvent (metadata : Metadata) (fields : SpanFields F) : Option (SpanState F) :=
  (fields.insertStr "type" "log").map fun fields => { state with
    level := min state.level metadata.level
    events := state.events ++ [⟨metadata.level, metadata.name, metadata.target, fields⟩] }

def mergeChild (child : SpanSnapshot F) (allowlist : List String) : Option (SpanState F) :=
  (state.fields.extendAllowlist child.fields allowlist).map fun fields => { state with
    level := min state.level child.level
    fields := fields
    events := state.events ++ child.events
    children := state.children ++ [child] }

def intoSnapshot (now : Nat) : SpanSnapshot F where
  target := state.target
  name := state.name
  level := state.level
  durationMs := Floats.elapsedMs state.startedAt now
  fields := state.fields
  events := state.events
  children := state.children
  parentTarget := none
  depth := 0

end SpanState

/-! ## Passes over the snapshots -/

structure SpanSnapshotMinimal (F : Type) where
  level : Level
  durationMs : F
  fields : SpanFields F
  name : String

inductive SpanSnapshotChild (F : Type) where
  | full (spans : List (SpanSnapshot F))
  | minimal (spans : List (SpanSnapshotMinimal F))

structure TraceRule where
  feature : String
  level : Level

/-- The key of the feature, `FIELD_FEATURE`. -/
def fieldFeature : String := "feature"

def TraceRule.matchesEvent (rule : TraceRule) (name : String) (level : Level)
    (fields : SpanFields F) : Bool :=
  if rule.level < level then false
  else if name.startsWith rule.feature then true
  else (fields.valueAsString fieldFeature).any fun value => value.startsWith rule.feature

namespace SpanSnapshot

omit [Floats F] in
def minimal (snapshot : SpanSnapshot F) : SpanSnapshotMinimal F where
  level := snapshot.level
  durationMs := snapshot.durationMs
  fields := snapshot.fields
  name := snapshot.name

omit [Floats F] in
def flattenMinimal : SpanSnapshot F → List (SpanSnapshotMinimal F)
  | snapshot@⟨_, _, _, _, _, _, children, _, _⟩ => snapshot.minimal :: flattenMinimals children
where
  flattenMinimals : List (SpanSnapshot F) → List (SpanSnapshotMinimal F)
    | [] => []
    | child :: rest => child.flattenMinimal ++ flattenMinimals rest

omit [Floats F] in
/-- `flatten` of a snapshot whose parent's target and depth have been set. -/
def flattenAt (parentTarget : Option String) (depth : Nat) : SpanSnapshot F → List (SpanSnapshot F)
  | ⟨target, name, level, durationMs, fields, events, children, _, _⟩ =>
    ⟨target, name, level, durationMs, fields, events, [], parentTarget, depth⟩ ::
      flattenAll (some target) (depth + 1) children
where
  /-- The children one after the other, each with the target and the depth that it is given. -/
  flattenAll (parentTarget : Option String) (depth : Nat) :
      List (SpanSnapshot F) → List (SpanSnapshot F)
    | [] => []
    | child :: rest => child.flattenAt parentTarget depth ++ flattenAll parentTarget depth rest

def matchesTraceRule (rule : TraceRule) : SpanSnapshot F → Bool
  | ⟨_, name, level, _, fields, events, children, _, _⟩ =>
    if rule.level < level then false
    else if name.startsWith rule.feature then true
    else if (fields.valueAsString fieldFeature).any fun value => value.startsWith rule.feature then
      true
    else if events.any fun event => rule.matchesEvent event.name event.level event.fields then true
    else anyMatches rule children
where
  anyMatches (rule : TraceRule) : List (SpanSnapshot F) → Bool
    | [] => false
    | child :: rest => child.matchesTraceRule rule || anyMatches rule rest

end SpanSnapshot

/-! ## The entry of a root -/

structure RootLogEntry (F : Type) where
  target : String
  name : String
  level : Level
  durationMs : F
  fields : SpanFields F
  events : List (SpanEvent F)
  spans : SpanSnapshotChild F

structure LogBody (F : Type) where
  message : String
  events : List (SpanEvent F)
  spans : SpanSnapshotChild F

/-- What is serialised into a line. -/
structure OtelLogEntry (F : Type) where
  timeUnixNano : Nat
  observedTimeUnixNano : Nat
  severityText : String
  severityNumber : Nat
  traceId : Option String
  spanId : Option String
  traceFlags : Option String
  resource : Option (List (String × String))
  attributes : SpanFields F
  body : LogBody F

def fieldTraceId : String := "trace_id"

def fieldSpanId : String := "span_id"

def fieldTraceFlags : String := "trace_flags"

omit [Floats F] in
def collectEventErrors (events : List (SpanEvent F)) : List (Value F) :=
  events.filterMap fun event => event.fields.get "error"

/-- The fields of the root, inserted again under the default policy, and what the root adds. -/
def attributesFromRoot (root : RootLogEntry F) (errors : List (Value F)) :
    Option (SpanFields F) := do
  let has := root.fields.containsKey
  let attributes ← root.fields.values.foldlM
    (fun attributes field =>
      attributes.insertUnless (field.1 == "errors") field.1 field.2 .structured)
    (SpanFields.new .default)
  let attributes ← attributes.insertUnless (has "target") "target" (.string root.target) .freeText
  let attributes ← attributes.insertUnless (has "name") "name" (.string root.name) .freeText
  let attributes ←
    attributes.insertUnless (has "level") "level" (.string root.level.asStr) .freeText
  let attributes ←
    attributes.insertUnless (has "duration_ms") "duration_ms" (.float root.durationMs) .structured
  attributes.insertUnless errors.isEmpty "errors" (.array errors) .structured

/-- The default policy has no blocklist, so nothing panics here. -/
theorem attributesFromRoot_isSome (root : RootLogEntry F) (errors : List (Value F)) :
    (attributesFromRoot root errors).isSome = true := by
  have hkeeps : Keeps .default (attributesFromRoot root errors) := by
    refine (Yields.foldlM (P := fun f : SpanFields F => f.policy = .default)
      (fun _ field hp => insertUnless_keeps hp _ field.1 field.2 _) rfl
      root.fields.values).bind fun _ hp => ?_
    refine (insertUnless_keeps hp ..).bind fun _ hp => ?_
    refine (insertUnless_keeps hp ..).bind fun _ hp => ?_
    refine (insertUnless_keeps hp ..).bind fun _ hp => ?_
    refine (insertUnless_keeps hp ..).bind fun _ hp => ?_
    exact insertUnless_keeps hp ..
  exact hkeeps.isSome List.not_mem_nil

/-- `encode_otel_log_entry` up to the serialisation, with the two readings of the clock. -/
def encodeOtelLogEntry (entry : RootLogEntry F) (resource : Option (List (String × String)))
    (time observed : Nat) : Option (OtelLogEntry F) := do
  let attributes ← attributesFromRoot entry (collectEventErrors entry.events)
  return {
    timeUnixNano := time
    observedTimeUnixNano := observed
    severityText := entry.level.asStr
    severityNumber := entry.level.severityNumber
    traceId := attributes.valueAsString fieldTraceId
    spanId := attributes.valueAsString fieldSpanId
    traceFlags := attributes.valueAsString fieldTraceFlags
    resource
    attributes
    body := ⟨entry.name, entry.events, entry.spans⟩ }

end AuxCommon.WideLog
