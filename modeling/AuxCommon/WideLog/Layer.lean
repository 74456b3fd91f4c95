import AuxCommon.WideLog.Spans
import Mathlib.Logic.Function.Basic

/-!
# The wide-log layer

Model of `WideLogLayer` (`telemetry/src/wide_log/wide_log_impl.rs`) over the registry of the
spans: an `Action` is a call that the subscriber makes into the layer, and `step` is what the layer
does with it. What a program records under the layer is a list of actions; the calls of several
threads are in the order in which they take the locks of the spans.

An event comes with the span that the registry finds for it (its explicit parent or else the span
its thread is in). A span leaves the registry when it has closed. A line is the entry that is
serialised, a function of it; the layer's own message about a failed serialisation is left out.

A call that panics ends the program: what the registry does with a span whose lock was held then is
not of this crate. `run` stops there, with the state before the call.

* `lines_eq_of_alike` : two programs that differ only in what the policy hides have the same lines.
-/

namespace AuxCommon.WideLog

open Option SpanFields

variable {F : Type}

/-- What the layer is built with. -/
structure WideLogLayer where
  resourceAttributes : Option (List (String × String))
  traceRules : List TraceRule
  policy : Policy
  rootSpanNames : List String
  rootFeaturePrefixes : List String

/-- A span of the registry, with the extension that the layer keeps in it. -/
structure Span (F : Type) where
  parent : Option Nat
  metadata : Metadata
  state : Option (SpanState F)

structure LayerState (F : Type) where
  spans : Nat → Option (Span F)
  /-- How often the clock has been read. -/
  clock : Nat
  /-- What the sink has been handed. -/
  lines : List (OtelLogEntry F)

def LayerState.init : LayerState F := ⟨fun _ => none, 0, []⟩

inductive Action (F : Type) where
  | newSpan (id : Nat) (parent : Option Nat) (metadata : Metadata)
      (values : List (String × Recorded F))
  | record (id : Nat) (values : List (String × Recorded F))
  | recordOn (id : Nat) (field value : String)
  | event (span : Option Nat) (metadata : Metadata) (values : List (String × Recorded F))
  | close (id : Nat)

namespace LayerState

def setState (s : LayerState F) (id : Nat) (span : Span F) (state : SpanState F) : LayerState F :=
  { s with spans := Function.update s.spans id (some { span with state := some state }) }

/-- A span of the registry by its id, if there is one. -/
def find (s : LayerState F) (id : Option Nat) : Option (Nat × Span F) :=
  id.bind fun id => (s.spans id).map fun span => (id, span)

/-- A reading of the clock. -/
def tick (s : LayerState F) : LayerState F := { s with clock := s.clock + 1 }

theorem find_eq_some {s : LayerState F} {id? : Option Nat} {id : Nat} {span : Span F} :
    s.find id? = some (id, span) ↔ id? = some id ∧ s.spans id = some span := by
  simp only [find, bind_eq_some_iff, map_eq_some_iff, Prod.mk.injEq]
  constructor
  · rintro ⟨_, rfl, _, hspan, rfl, rfl⟩
    exact ⟨rfl, hspan⟩
  · rintro ⟨rfl, hspan⟩
    exact ⟨id, rfl, span, hspan, rfl, rfl⟩

end LayerState

namespace WideLogLayer

variable [Floats F]

variable (layer : WideLogLayer)

omit [Floats F] in
def newSpanFields : SpanFields F := .new layer.policy

def emitEntry (s : LayerState F) (entry : RootLogEntry F) : Option (LayerState F) :=
  (encodeOtelLogEntry entry layer.resourceAttributes s.clock (s.clock + 1)).map fun line =>
    { s with clock := s.clock + 2, lines := s.lines ++ [line] }

def matchesTraceRules (root : SpanSnapshot F) : Bool :=
  layer.traceRules.any fun rule => root.matchesTraceRule rule

def matchesTraceRuleForEvent (name : String) (level : Level) (fields : SpanFields F) : Bool :=
  layer.traceRules.any fun rule => rule.matchesEvent name level fields

/-- Whether the root is one that is written at every level. -/
def isAllowedRoot (root : SpanSnapshot F) : Bool :=
  layer.rootSpanNames.any (root.name == ·) ||
    (root.fields.valueAsString fieldFeature).any fun feature =>
      layer.rootFeaturePrefixes.any fun start => feature.startsWith start

def includeDetails (root : SpanSnapshot F) : Bool :=
  decide (root.level ≤ .warn) || layer.matchesTraceRules root

/-- The entry that is written for a root. -/
def rootEntry (root : SpanSnapshot F) : RootLogEntry F where
  target := root.target
  name := root.name
  level := root.level
  durationMs := root.durationMs
  fields := root.fields
  events := if layer.includeDetails root then root.events else []
  spans :=
    if layer.includeDetails root then
      .full (SpanSnapshot.flattenAt.flattenAll (some root.target) 1 root.children)
    else .minimal (SpanSnapshot.flattenMinimal.flattenMinimals root.children)

def emitRoot (s : LayerState F) (root : SpanSnapshot F) : Option (LayerState F) :=
  if !layer.isAllowedRoot root && decide (.warn < root.level) then some s
  else layer.emitEntry s (layer.rootEntry root)

def emitSpanlessEvent (s : LayerState F) (metadata : Metadata)
    (values : List (String × Recorded F)) : Option (LayerState F) := do
  let fields ← layer.newSpanFields.visitAll values
  let fields ← fields.insertStr "type" "log"
  if decide (.warn < metadata.level) &&
      !layer.matchesTraceRuleForEvent metadata.name metadata.level fields then return s
  else
    layer.emitEntry s
      { target := metadata.target
        name := metadata.name
        level := metadata.level
        durationMs := Floats.zero
        fields := layer.newSpanFields
        events := [⟨metadata.level, metadata.name, metadata.target, fields⟩]
        spans := .minimal [] }

/-- Values recorded on a span, as a change of its fields; a span without the layer's extension
gets one. -/
def onRecord (s : LayerState F) (id : Nat) (change : SpanFields F → Option (SpanFields F)) :
    Option (LayerState F) :=
  match s.spans id with
  | none => some s
  | some span =>
    match span.state with
    | some state => (change state.fields).map fun fields => s.setState id span { state with fields }
    | none => (change layer.newSpanFields).map fun fields =>
      s.tick.setState id span (.new span.metadata s.clock fields)

def onEvent (s : LayerState F) (span? : Option Nat) (metadata : Metadata)
    (values : List (String × Recorded F)) : Option (LayerState F) :=
  match s.find span? with
  | some (id, span) =>
    match span.state with
    | some state => do
      let fields ← layer.newSpanFields.visitAll values
      let state ← state.recordEvent metadata fields
      return s.setState id span state
    | none => some s
  | none => layer.emitSpanlessEvent s metadata values

/-- Where the snapshot of a closed span goes: into its parent or, of a root, to the sink. -/
def deliver (s : LayerState F) (parent : Option Nat) (snapshot : SpanSnapshot F) :
    Option (LayerState F) :=
  match s.find parent with
  | some (id, span) =>
    match span.state with
    | some state =>
      (state.mergeChild snapshot layer.policy.fieldAllowlist).map (s.setState id span)
    | none => some s
  | none => layer.emitRoot s snapshot

def onClose (s : LayerState F) (id : Nat) : Option (LayerState F) :=
  match s.spans id with
  | none => some s
  | some span =>
    let removed := { s with spans := Function.update s.spans id none }
    match span.state with
    | none => some removed
    | some state => layer.deliver removed.tick span.parent (state.intoSnapshot s.clock)

/-- One call, unless it panics. -/
def step (s : LayerState F) : Action F → Option (LayerState F)
  | .newSpan id parent metadata values =>
    (layer.newSpanFields.visitAll values).map fun fields =>
      s.tick.setState id ⟨parent, metadata, none⟩ (.new metadata s.clock fields)
  | .record id values => layer.onRecord s id fun fields => fields.visitAll values
  | .recordOn id field value => layer.onRecord s id fun fields => fields.visitSafe field value
  | .event span metadata values => layer.onEvent s span metadata values
  | .close id => layer.onClose s id

def runFrom (layer : WideLogLayer) (s : LayerState F) : List (Action F) → LayerState F
  | [] => s
  | a :: rest =>
    match layer.step s a with
    | none => s
    | some s' => layer.runFrom s' rest

def run (actions : List (Action F)) : LayerState F :=
  layer.runFrom .init actions

end WideLogLayer

/-! ## Two programs -/

/-- The same call of the same program, except for values that the policy hides. -/
inductive Action.Alike (policy : Policy) : Action F → Action F → Prop
  | newSpan {id : Nat} {parent : Option Nat} {metadata : Metadata}
      {values values' : List (String × Recorded F)}
      (h : List.Forall₂ (WideLog.Alike policy) values values') :
      Alike policy (.newSpan id parent metadata values) (.newSpan id parent metadata values')
  | record {id : Nat} {values values' : List (String × Recorded F)}
      (h : List.Forall₂ (WideLog.Alike policy) values values') :
      Alike policy (.record id values) (.record id values')
  | recordOn {id : Nat} {field value value' : String} (h : value = value' ∨ policy.Hides field) :
      Alike policy (.recordOn id field value) (.recordOn id field value')
  | event {span : Option Nat} {metadata : Metadata} {values values' : List (String × Recorded F)}
      (h : List.Forall₂ (WideLog.Alike policy) values values') :
      Alike policy (.event span metadata values) (.event span metadata values')
  | close {id : Nat} : Alike policy (.close id) (.close id)

namespace WideLogLayer

variable [Floats F] {layer : WideLogLayer} {s s' : LayerState F}

/-- Every span's fields have the layer's policy, so that it is the layer's policy that each value
passes when it is recorded. -/
def Uniform (layer : WideLogLayer) (s : LayerState F) : Prop :=
  ∀ id span state, s.spans id = some span → span.state = some state →
    state.fields.policy = layer.policy

omit [Floats F] in
theorem Uniform.init : layer.Uniform (LayerState.init : LayerState F) := by
  intro id span state h
  cases h

omit [Floats F] in
theorem Uniform.setState (h : layer.Uniform s) (id : Nat) (span : Span F) {state : SpanState F}
    (hp : state.fields.policy = layer.policy) : layer.Uniform (s.setState id span state) := by
  intro other span' state' hs hst
  simp only [LayerState.setState, Function.update_apply] at hs
  split at hs
  · obtain rfl := some.inj hs
    obtain rfl := some.inj hst
    exact hp
  · exact h _ _ _ hs hst

omit [Floats F] in
/-- Spans may leave, and the clock and the lines are not asked. -/
theorem Uniform.anti (h : layer.Uniform s)
    (hs : ∀ id span, s'.spans id = some span → s.spans id = some span) : layer.Uniform s' :=
  fun id _ _ hid hst => h id _ _ (hs _ _ hid) hst

theorem newSpanFields_keeps (layer : WideLogLayer) (values : List (String × Recorded F)) :
    SpanFields.Keeps layer.policy (layer.newSpanFields.visitAll values) :=
  visitAll_keeps (show layer.newSpanFields.policy = layer.policy from rfl) values

section Lines

variable {c : Prop} (s : LayerState F)

/-- A line can always be written, and changes no span. -/
theorem emitEntry_yields (entry : RootLogEntry F) :
    Yields (·.spans = s.spans) c (layer.emitEntry s entry) := by
  refine Yields.map (P := fun _ => True) ⟨fun _ _ => trivial, fun _ => ?_⟩ fun _ _ => rfl
  obtain ⟨attributes, hattributes⟩ := isSome_iff_exists.mp
    (attributesFromRoot_isSome entry (collectEventErrors entry.events))
  rw [encodeOtelLogEntry, hattributes]
  rfl

theorem emitRoot_yields (root : SpanSnapshot F) :
    Yields (·.spans = s.spans) c (layer.emitRoot s root) := by
  unfold emitRoot
  split
  · exact .some rfl
  · exact emitEntry_yields s _

theorem emitSpanlessEvent_yields (metadata : Metadata) (values : List (String × Recorded F)) :
    Yields (·.spans = s.spans) layer.policy.Total (layer.emitSpanlessEvent s metadata values) := by
  refine (newSpanFields_keeps layer values).bind fun fields hf => ?_
  refine (insert_keeps hf "type" _ _).bind fun logged _ => ?_
  split
  · exact .some rfl
  · exact emitEntry_yields s _

end Lines

/-- After a call the policies are still the layer's, and without an empty entry of the blocklist no
call panics. -/
abbrev Keeps (layer : WideLogLayer) : Option (LayerState F) → Prop :=
  Yields layer.Uniform layer.policy.Total

omit [Floats F] in
/-- What changes no span changes no policy. -/
theorem Uniform.keeps (h : layer.Uniform s) {result : Option (LayerState F)}
    (hr : Yields (·.spans = s.spans) layer.policy.Total result) : layer.Keeps result :=
  ⟨fun s' hs => h.anti fun _ _ hid => hr.value s' hs ▸ hid, hr.isSome⟩

omit [Floats F] in
theorem Uniform.onRecord (h : layer.Uniform s) (id : Nat)
    {change : SpanFields F → Option (SpanFields F)}
    (hc : ∀ fields, fields.policy = layer.policy → SpanFields.Keeps layer.policy (change fields)) :
    layer.Keeps (layer.onRecord s id change) := by
  unfold WideLogLayer.onRecord
  split
  · exact .some h
  · rename_i span hspan
    split
    · rename_i state hstate
      exact (hc _ (h _ _ _ hspan hstate)).map fun _ hf => h.setState id span hf
    · exact (hc _ rfl).map fun _ hf => Uniform.setState (s := s.tick) h id span hf

/-- What `on_event` records on a span. -/
theorem Uniform.onEvent (h : layer.Uniform s) (span? : Option Nat) (metadata : Metadata)
    (values : List (String × Recorded F)) :
    layer.Keeps (layer.onEvent s span? metadata values) := by
  unfold WideLogLayer.onEvent
  split
  · rename_i id span hfound
    obtain ⟨-, hspan⟩ := LayerState.find_eq_some.mp hfound
    split
    · rename_i state hstate
      refine (newSpanFields_keeps layer values).bind fun fields hf => ?_
      refine Yields.bind (P := fun state => state.fields.policy = layer.policy) ?_ fun _ hp =>
        .some (h.setState id span hp)
      exact (insert_keeps hf "type" _ _).map fun _ _ => h _ _ state hspan hstate
    · exact .some h
  · exact h.keeps (emitSpanlessEvent_yields s metadata values)

theorem Uniform.deliver (h : layer.Uniform s) (parent : Option Nat) {snapshot : SpanSnapshot F}
    (hsnapshot : snapshot.fields.policy = layer.policy) :
    layer.Keeps (layer.deliver s parent snapshot) := by
  unfold WideLogLayer.deliver
  split
  · rename_i id span hfound
    obtain ⟨-, hspan⟩ := LayerState.find_eq_some.mp hfound
    split
    · rename_i state hstate
      rw [SpanState.mergeChild, map_map]
      exact (extendAllowlist_keeps (h _ _ state hspan hstate) hsnapshot _).map
        fun _ hf => h.setState id span hf
    · exact .some h
  · exact h.keeps (emitRoot_yields s snapshot)

theorem Uniform.onClose (h : layer.Uniform s) (id : Nat) : layer.Keeps (layer.onClose s id) := by
  have hremoved : layer.Uniform { s with spans := Function.update s.spans id none } :=
    h.anti fun other span hs => by
      simp only [Function.update_apply] at hs
      split at hs
      · cases hs
      · exact hs
  unfold WideLogLayer.onClose
  split
  · exact .some h
  · rename_i span hspan
    split
    · exact .some hremoved
    · rename_i state hstate
      exact Uniform.deliver (s := LayerState.tick _) hremoved _ (h _ _ _ hspan hstate)

theorem Uniform.step (h : layer.Uniform s) (a : Action F) : layer.Keeps (layer.step s a) := by
  cases a with
  | newSpan id parent metadata values =>
    exact (newSpanFields_keeps layer values).map fun _ hf =>
      Uniform.setState (s := s.tick) h id _ hf
  | record id values => exact h.onRecord id fun _ hp => visitAll_keeps hp values
  | recordOn id field value =>
    exact h.onRecord id fun _ hp => visit_keeps hp _ field (.str value)
  | event span metadata values => exact h.onEvent span metadata values
  | close id => exact h.onClose id

omit [Floats F] in
/-- Two changes that agree on fields of the layer's policy do the same to a span. -/
theorem onRecord_congr (h : layer.Uniform s) (id : Nat)
    {change change' : SpanFields F → Option (SpanFields F)}
    (hc : ∀ fields, fields.policy = layer.policy → change fields = change' fields) :
    layer.onRecord s id change = layer.onRecord s id change' := by
  unfold onRecord
  split
  · rfl
  · rename_i span hspan
    split
    · rename_i state hstate
      rw [hc _ (h _ _ _ hspan hstate)]
    · rw [hc layer.newSpanFields rfl]

theorem newSpanFields_alike {values values' : List (String × Recorded F)}
    (hv : List.Forall₂ (WideLog.Alike layer.policy) values values') :
    layer.newSpanFields.visitAll values = layer.newSpanFields.visitAll values' :=
  visitAll_alike rfl hv

/-- What the policy hides leaves no trace in the layer. -/
theorem step_alike (h : layer.Uniform s) {a a' : Action F} (ha : a.Alike layer.policy a') :
    layer.step s a = layer.step s a' := by
  cases ha with
  | newSpan hv => simp only [step, newSpanFields_alike hv]
  | record hv => exact onRecord_congr h _ fun fields hp => visitAll_alike hp hv
  | recordOn hv =>
    rcases hv with rfl | hv
    · rfl
    · exact onRecord_congr h _ fun fields hp => visitSafe_hidden (hp ▸ hv) _ _
  | event hv => simp only [step, onEvent, emitSpanlessEvent, newSpanFields_alike hv]
  | close => rfl

theorem runFrom_alike {actions actions' : List (Action F)}
    (ha : List.Forall₂ (Action.Alike layer.policy) actions actions') (h : layer.Uniform s) :
    layer.runFrom s actions = layer.runFrom s actions' := by
  induction ha generalizing s with
  | nil => rfl
  | @cons a a' _ _ hstep _ ih =>
    rw [runFrom, runFrom, step_alike h hstep]
    cases hs : layer.step s a' with
    | none => rfl
    | some s' => exact ih ((h.step a').value s' hs)

/-- Two runs of a program that differ only in values that the policy hides hand the same lines to
the sink. -/
theorem lines_eq_of_alike {actions actions' : List (Action F)}
    (h : List.Forall₂ (Action.Alike layer.policy) actions actions') :
    (layer.run actions).lines = (layer.run actions').lines :=
  congrArg LayerState.lines (runFrom_alike h .init)

/-! ## A trial -/

namespace Trial

/-- Numbers without a fraction, enough to run the layer. -/
@[reducible] def floats : Floats Nat where
  isFinite _ := true
  text := toString
  zero := 0
  elapsedMs start stop := stop - start

/-- Typed values only, of which the session token is a sensitive one. -/
def typed : WideLogLayer where
  resourceAttributes := some [("service.name", "api")]
  traceRules := []
  policy := ⟨.typedOnly, ["status_code", "session_token"], ["token"]⟩
  rootSpanNames := []
  rootFeaturePrefixes := []

/-- A request that records its token, the number of its session and a free text. -/
def actions (token : String) (session : Int) (message : String) : List (Action Nat) :=
  [.newSpan 1 none ⟨"api", "request", .info⟩ [("session_token", .i64 session)],
    .recordOn 1 "session_token" token,
    .event (some 1) ⟨"api", "denied", .warn⟩ [("status_code", .str message), ("status_code", .u64 403)],
    .close 1]

end Trial

/-- Two requests with different tokens and texts leave one line each, and the same one. -/
theorem lines_eq_of_alike_trial :
    (@WideLogLayer.run Nat Trial.floats Trial.typed (Trial.actions "a" 1 "x")).lines.length = 1 ∧
      (@WideLogLayer.run Nat Trial.floats Trial.typed (Trial.actions "a" 1 "x")).lines =
        (@WideLogLayer.run Nat Trial.floats Trial.typed (Trial.actions "b" 2 "y")).lines := by
  have htoken : Trial.typed.policy.isSensitiveKey "session_token" ≠ some false := by decide +kernel
  refine ⟨by decide +kernel, @lines_eq_of_alike Nat Trial.floats _ _ _ ?_⟩
  refine .cons (.newSpan (.cons (.sensitive htoken fun _ => trivial) .nil)) ?_
  refine .cons (.recordOn (.inr (.inr htoken))) ?_
  refine .cons (.event (.cons (.text rfl trivial trivial) (.cons (.same _) .nil))) ?_
  exact .cons .close .nil

end WideLogLayer

end AuxCommon.WideLog
