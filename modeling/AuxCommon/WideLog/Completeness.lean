import AuxCommon.WideLog.Layer
import Mathlib.Order.MinMax

/-!
# What a line says about the tree of a root

The specification is a recorder that builds the tree of each open span: an event is added to the
span that it is recorded on, and a span that closes becomes a child of its parent. When spans close
after their children, the tree of a root that closes is all that was recorded under it.

* `Agrees` : what the layer has collected on each open span is right for the tree of the span
  (`Collects`): its level is the most severe one of the tree, it has the events of the tree, each
  once, and the children give the places of the spans below.
* `root_line_complete` : so it is after every program, and with it the line of a root that closes,
  if no entry of the blocklist is empty. An empty one makes the first event panic
  (`root_line_lost`).
-/

namespace AuxCommon.WideLog

open List Option Function WideLogLayer LayerState SpanSnapshot

variable {F : Type} {id : Nat}

/-! ## The tree that was recorded -/

/-- A span with what was recorded on it and its closed children. -/
structure Tree (F : Type) where
  metadata : Metadata
  events : List (SpanEvent F)
  children : List (Tree F)

/-- A span as it is listed: with its depth below the root and its parent's target. -/
structure SpanPlace where
  target : String
  name : String
  parentTarget : Option String
  depth : Nat
  deriving DecidableEq

variable (parentTarget : Option String)

namespace Tree

/-- The events of a tree. -/
def allEvents : Tree F → List (SpanEvent F)
  | ⟨_, events, children⟩ => events ++ eventsOf children
where
  eventsOf : List (Tree F) → List (SpanEvent F)
    | [] => []
    | child :: rest => child.allEvents ++ eventsOf rest

/-- The levels of the spans and the events of a tree. -/
def levels : Tree F → List Level
  | ⟨metadata, events, children⟩ => metadata.level :: (events.map (·.level) ++ levelsOf children)
where
  levelsOf : List (Tree F) → List Level
    | [] => []
    | child :: rest => child.levels ++ levelsOf rest

/-- The spans of a tree whose root stands at a depth below a parent. -/
def placesAt (parentTarget : Option String) (depth : Nat) : Tree F → List SpanPlace
  | ⟨metadata, _, children⟩ =>
    ⟨metadata.target, metadata.name, parentTarget, depth⟩ ::
      placesOf (some metadata.target) (depth + 1) children
where
  placesOf (parentTarget : Option String) (depth : Nat) : List (Tree F) → List SpanPlace
    | [] => []
    | child :: rest => child.placesAt parentTarget depth ++ placesOf parentTarget depth rest

variable (t : Tree F)

/-- The spans below the root. -/
def descendants : List SpanPlace := placesAt.placesOf (some t.metadata.target) 1 t.children

def addEvent (event : SpanEvent F) : Tree F := { t with events := t.events ++ [event] }

def addChild (t child : Tree F) : Tree F := { t with children := t.children ++ [child] }

theorem allEvents_eq : t.allEvents = t.events ++ allEvents.eventsOf t.children := by
  cases t
  rfl

theorem levels_eq :
    t.levels = t.metadata.level :: (t.events.map (·.level) ++ levels.levelsOf t.children) := by
  cases t
  rfl

theorem placesAt_eq (depth : Nat) (t : Tree F) :
    t.placesAt parentTarget depth = ⟨t.metadata.target, t.metadata.name, parentTarget, depth⟩ ::
      placesAt.placesOf (some t.metadata.target) (depth + 1) t.children := by
  cases t
  rfl

theorem eventsOf_append (ts us : List (Tree F)) :
    allEvents.eventsOf (ts ++ us) = allEvents.eventsOf ts ++ allEvents.eventsOf us := by
  induction ts with
  | nil => rfl
  | cons t ts ih => simp [allEvents.eventsOf, ih]

theorem levelsOf_append (ts us : List (Tree F)) :
    levels.levelsOf (ts ++ us) = levels.levelsOf ts ++ levels.levelsOf us := by
  induction ts with
  | nil => rfl
  | cons t ts ih => simp [levels.levelsOf, ih]

theorem placesOf_append (depth : Nat) (ts us : List (Tree F)) :
    placesAt.placesOf parentTarget depth (ts ++ us) =
      placesAt.placesOf parentTarget depth ts ++ placesAt.placesOf parentTarget depth us := by
  induction ts with
  | nil => rfl
  | cons t ts ih => simp [placesAt.placesOf, ih]

theorem mem_levels_addEvent {t : Tree F} {event : SpanEvent F} {level : Level} :
    level ∈ (t.addEvent event).levels ↔ level ∈ t.levels ∨ level = event.level := by
  simp only [levels_eq, addEvent, map_append, mem_cons, mem_append, map_cons,
    map_nil, not_mem_nil, or_false]
  tauto

theorem mem_levels_addChild {t child : Tree F} {level : Level} :
    level ∈ (t.addChild child).levels ↔ level ∈ t.levels ∨ level ∈ child.levels := by
  have hone : levels.levelsOf [child] = child.levels := append_nil _
  rw [levels_eq, levels_eq t]
  simp only [addChild, levelsOf_append, hone, mem_cons, mem_append]
  tauto

theorem allEvents_addEvent (event : SpanEvent F) :
    (t.addEvent event).allEvents.Perm (t.allEvents ++ [event]) := by
  simp only [allEvents_eq, addEvent, append_assoc]
  exact List.Perm.append_left _ perm_append_comm

theorem allEvents_addChild (t child : Tree F) :
    (t.addChild child).allEvents = t.allEvents ++ child.allEvents := by
  have hone : allEvents.eventsOf [child] = child.allEvents := append_nil _
  rw [allEvents_eq, allEvents_eq t]
  simp only [addChild, eventsOf_append, hone, append_assoc]

end Tree

/-- A span that has not closed. -/
structure OpenSpan (F : Type) where
  parent : Option Nat
  tree : Tree F

/-- The trees of the open spans. -/
abbrev History (F : Type) := Nat → Option (OpenSpan F)

namespace History

/-- A change of the tree of an open span. -/
def modify (h : History F) (id : Nat) (change : Tree F → Tree F) : History F :=
  Function.update h id ((h id).map fun span => { span with tree := change span.tree })

theorem modify_absent {h : History F} (hid : h id = none) (change : Tree F → Tree F) :
    h.modify id change = h := by
  rw [modify, hid, map_none, ← hid, update_eq_self]

theorem modify_open {h : History F} {span : OpenSpan F} (hid : h id = some span)
    (change : Tree F → Tree F) :
    h.modify id change = update h id (some { span with tree := change span.tree }) := by
  rw [modify, hid, map_some]

variable [Floats F]

variable (layer : WideLogLayer)

/-- The event that a call records. -/
def eventOf (metadata : Metadata) (values : List (String × Recorded F)) : Option (SpanEvent F) := do
  let fields ← layer.newSpanFields.visitAll values
  let fields ← fields.insertStr "type" "log"
  return ⟨metadata.level, metadata.name, metadata.target, fields⟩

def step (h : History F) : Action F → History F
  | .newSpan id parent metadata _ => Function.update h id (some ⟨parent, ⟨metadata, [], []⟩⟩)
  | .record _ _ | .recordOn _ _ _ | .event none _ _ => h
  | .event (some id) metadata values =>
    (eventOf layer metadata values).elim h fun event => h.modify id (·.addEvent event)
  | .close id =>
    match h id with
    | none => h
    | some span =>
      match span.parent with
      | none => Function.update h id none
      | some parent => modify (Function.update h id none) parent (·.addChild span.tree)

def run (actions : List (Action F)) : History F :=
  actions.foldl (step layer) fun _ => none

end History

/-! ## What the layer has collected -/

def SpanSnapshot.place (snapshot : SpanSnapshot F) : SpanPlace :=
  ⟨snapshot.target, snapshot.name, snapshot.parentTarget, snapshot.depth⟩

/-- A level is the most severe one of a list. -/
def MostSevere (level : Level) (levels : List Level) : Prop :=
  level ∈ levels ∧ ∀ other ∈ levels, level ≤ other

/-- What the layer has on a span is right for a tree. -/
structure Collects (state : SpanState F) (t : Tree F) : Prop where
  target : state.target = t.metadata.target
  name : state.name = t.metadata.name
  level : MostSevere state.level t.levels
  events : state.events.Perm t.allEvents
  places (parentTarget : Option String) (depth : Nat) :
    (SpanSnapshot.flattenAt.flattenAll parentTarget depth state.children).map SpanSnapshot.place =
      Tree.placesAt.placesOf parentTarget depth t.children

namespace SpanSnapshot

theorem flattenAll_append (depth : Nat) (children more : List (SpanSnapshot F)) :
    flattenAt.flattenAll parentTarget depth (children ++ more) =
      flattenAt.flattenAll parentTarget depth children ++
        flattenAt.flattenAll parentTarget depth more := by
  induction children with
  | nil => rfl
  | cons child rest ih => simp [flattenAt.flattenAll, ih]

end SpanSnapshot

/-- The more severe of two levels is the most severe one of both lists. -/
theorem MostSevere.join {a b : Level} {as bs cs : List Level} (ha : MostSevere a as)
    (hb : MostSevere b bs) (hc : ∀ level, level ∈ cs ↔ level ∈ as ∨ level ∈ bs) :
    MostSevere (min a b) cs := by
  refine ⟨(hc _).mpr ?_, fun other ho => ?_⟩
  · rcases le_total a b with h | h
    · exact .inl ((min_eq_left h).symm ▸ ha.1)
    · exact .inr ((min_eq_right h).symm ▸ hb.1)
  · rcases (hc _).mp ho with h | h
    · exact (min_le_left a b).trans (ha.2 _ h)
    · exact (min_le_right a b).trans (hb.2 _ h)

namespace Collects

variable {state : SpanState F} {t : Tree F}

theorem new (metadata : Metadata) (now : Nat) (fields : SpanFields F) :
    Collects (.new metadata now fields) ⟨metadata, [], []⟩ where
  target := rfl
  name := rfl
  level := by simp [MostSevere, SpanState.new, Tree.levels, Tree.levels.levelsOf]
  events := .refl _
  places _ _ := rfl

theorem withFields (h : Collects state t) (fields : SpanFields F) :
    Collects { state with fields := fields } t :=
  ⟨h.target, h.name, h.level, h.events, h.places⟩

variable [Floats F]

theorem recordEvent (h : Collects state t) {layer : WideLogLayer} {metadata : Metadata}
    {values : List (String × Recorded F)} {fields : SpanFields F} {state' : SpanState F}
    (hfields : layer.newSpanFields.visitAll values = some fields)
    (hs : state.recordEvent metadata fields = some state') :
    ∃ event, History.eventOf layer metadata values = some event ∧
      Collects state' (t.addEvent event) := by
  obtain ⟨logged, hlogged, rfl⟩ := map_eq_some_iff.mp hs
  refine ⟨⟨metadata.level, metadata.name, metadata.target, logged⟩, ?_, h.target, h.name, ?_, ?_,
    h.places⟩
  · rw [History.eventOf, hfields, bind_eq_bind, bind_some, hlogged]
    rfl
  · exact h.level.join (show MostSevere metadata.level [metadata.level] by simp [MostSevere])
      fun level => by rw [Tree.mem_levels_addEvent, mem_singleton]
  · exact (h.events.append_right _).trans (Tree.allEvents_addEvent _ _).symm

theorem mergeChild (h : Collects state t) {child : SpanState F} {u : Tree F} (hu : Collects child u)
    {now : Nat} {allowlist : List String} {state' : SpanState F}
    (hs : state.mergeChild (child.intoSnapshot now) allowlist = some state') :
    Collects state' (t.addChild u) := by
  obtain ⟨fields, -, rfl⟩ := map_eq_some_iff.mp hs
  refine ⟨h.target, h.name, h.level.join hu.level fun _ => Tree.mem_levels_addChild,
    Tree.allEvents_addChild t u ▸ h.events.append hu.events, fun parentTarget depth => ?_⟩
  simp only [Tree.addChild, flattenAll_append, Tree.placesOf_append, map_append, h.places]
  simp only [flattenAt.flattenAll, SpanState.intoSnapshot, flattenAt, Tree.placesAt.placesOf,
    Tree.placesAt_eq, append_nil, map_cons, hu.target, hu.places, place, hu.name]

end Collects

/-- Each open span of the recorder is one of the registry, with what the layer should have
collected on it, and there are no others. -/
structure Agrees (h : History F) (s : LayerState F) : Prop where
  collected {id : Nat} {recorded : OpenSpan F} : h id = some recorded →
    ∃ span state, s.spans id = some span ∧ span.parent = recorded.parent ∧
      span.state = some state ∧ Collects state recorded.tree
  closed {id : Nat} : h id = none → s.spans id = none

namespace Agrees

variable {h : History F} {s s' : LayerState F} {layer : WideLogLayer}

theorem init : Agrees (fun _ => none) (init : LayerState F) where
  collected hid := by cases hid
  closed _ := rfl

/-- Only the spans of the registry matter. -/
theorem congr (ha : Agrees h s) (hs : s'.spans = s.spans) : Agrees h s' where
  collected hid := hs ▸ ha.collected hid
  closed hid := hs ▸ ha.closed hid

/-- A span and its tree change together. -/
theorem update (ha : Agrees h s) (id : Nat) {span : Span F} {state : SpanState F} {t : Tree F}
    (hc : Collects state t) :
    Agrees (update h id (some ⟨span.parent, t⟩)) (s.setState id span state) where
  collected {other recorded} hother := by
    simp only [setState, update_apply] at hother ⊢
    split at hother
    · obtain rfl := some.inj hother
      exact ⟨_, state, if_pos ‹_›, rfl, rfl, hc⟩
    · rw [if_neg ‹_›]
      exact ha.collected hother
  closed {other} hother := by
    simp only [setState, update_apply] at hother ⊢
    split at hother
    · cases hother
    · rw [if_neg ‹_›]
      exact ha.closed hother

theorem remove (ha : Agrees h s) (id : Nat) :
    Agrees (Function.update h id none) { s with spans := Function.update s.spans id none } where
  collected {other recorded} hother := by
    simp only [update_apply] at hother ⊢
    split at hother
    · cases hother
    · rw [if_neg ‹_›]
      exact ha.collected hother
  closed {other} hother := by
    simp only [update_apply] at hother ⊢
    split
    · rfl
    · rw [if_neg ‹_›] at hother
      exact ha.closed hother

/-- A span that the registry has is open, with the tree that the layer has collected. -/
theorem opened (ha : Agrees h s) {span : Span F} (hs : s.spans id = some span) :
    ∃ t state, h id = some ⟨span.parent, t⟩ ∧ span.state = some state ∧ Collects state t := by
  cases hid : h id with
  | none => rw [ha.closed hid] at hs; cases hs
  | some recorded =>
    obtain ⟨span', state, hs', hp, hst, hc⟩ := ha.collected hid
    obtain rfl := some.inj (hs.symm.trans hs')
    exact ⟨recorded.tree, state, by rw [hp], hst, hc⟩

/-- A span that the registry does not have is not open. -/
theorem absent (ha : Agrees h s) (hs : s.spans id = none) : h id = none := by
  cases hid : h id with
  | none => rfl
  | some recorded =>
    obtain ⟨span, _, hs', -⟩ := ha.collected hid
    rw [hs] at hs'
    cases hs'

theorem onRecord (ha : Agrees h s) {id : Nat} {change : SpanFields F → Option (SpanFields F)}
    (hs : layer.onRecord s id change = some s') : Agrees h s' := by
  unfold WideLogLayer.onRecord at hs
  split at hs
  · cases hs
    exact ha
  · rename_i span hspan
    obtain ⟨t, state, hid, hst, hc⟩ := ha.opened hspan
    simp only [hst] at hs
    obtain ⟨fields, -, rfl⟩ := map_eq_some_iff.mp hs
    have hsame : Function.update h id (some ⟨span.parent, t⟩) = h := by
      rw [← hid, Function.update_eq_self]
    exact hsame ▸ ha.update id (hc.withFields _)

variable [Floats F]

theorem onEvent (ha : Agrees h s) {span? : Option Nat} {metadata : Metadata}
    {values : List (String × Recorded F)}
    (hs : layer.onEvent s span? metadata values = some s') :
    Agrees (h.step layer (.event span? metadata values)) s' := by
  cases span? with
  | none => exact ha.congr ((WideLogLayer.emitSpanlessEvent_yields ..).value s' hs)
  | some id =>
    simp only [WideLogLayer.onEvent, find, bind_some] at hs
    cases hspan : s.spans id with
    | none =>
      rw [hspan] at hs
      have hsame : h.step layer (.event (some id) metadata values) = h := by
        rw [History.step]
        cases History.eventOf layer metadata values with
        | none => rfl
        | some event => exact History.modify_absent (ha.absent hspan) (·.addEvent event)
      rw [hsame]
      exact ha.congr ((WideLogLayer.emitSpanlessEvent_yields ..).value s' hs)
    | some span =>
      obtain ⟨t, state, hid, hst, hc⟩ := ha.opened hspan
      simp only [hspan, map_some, hst] at hs
      obtain ⟨fields, hfields, hs⟩ := bind_eq_some_iff.mp hs
      obtain ⟨state', hstate', hs⟩ := bind_eq_some_iff.mp hs
      cases hs
      obtain ⟨event, hevent, hc'⟩ := hc.recordEvent hfields hstate'
      rw [History.step, hevent, elim_some, History.modify_open hid]
      exact ha.update id hc'

theorem deliver (ha : Agrees h s) {parent : Option Nat} {state : SpanState F} {t : Tree F}
    (hc : Collects state t) {now : Nat}
    (hs : layer.deliver s parent (state.intoSnapshot now) = some s') :
    Agrees (match parent with
        | none => h
        | some parent => h.modify parent (·.addChild t)) s' := by
  cases parent with
  | none => exact ha.congr ((WideLogLayer.emitRoot_yields (c := True) ..).value s' hs)
  | some id =>
    simp only [WideLogLayer.deliver, find, bind_some] at hs
    change Agrees (h.modify id (·.addChild t)) s'
    cases hspan : s.spans id with
    | none =>
      rw [hspan] at hs
      rw [History.modify_absent (ha.absent hspan)]
      exact ha.congr ((WideLogLayer.emitRoot_yields (c := True) ..).value s' hs)
    | some span =>
      obtain ⟨u, state', hid, hst, hu⟩ := ha.opened hspan
      simp only [hspan, map_some, hst] at hs
      obtain ⟨merged, hmerged, rfl⟩ := map_eq_some_iff.mp hs
      rw [History.modify_open hid]
      exact ha.update id (hu.mergeChild hc hmerged)

theorem onClose (ha : Agrees h s) {id : Nat} (hs : layer.onClose s id = some s') :
    Agrees (h.step layer (.close id)) s' := by
  cases hspan : s.spans id with
  | none =>
    simp only [WideLogLayer.onClose, hspan, some.injEq] at hs
    simpa only [History.step, ha.absent hspan, ← hs] using ha
  | some span =>
    obtain ⟨t, state, hid, hst, hc⟩ := ha.opened hspan
    simp only [WideLogLayer.onClose, hspan, hst] at hs
    have hremoved : Agrees (Function.update h id none)
        (tick { s with spans := Function.update s.spans id none }) :=
      (ha.remove id).congr rfl
    have hdelivered := hremoved.deliver hc hs
    simp only [History.step, hid]
    cases hp : span.parent <;> rw [hp] at hdelivered <;> exact hdelivered

theorem step (ha : Agrees h s) {a : Action F} (hs : layer.step s a = some s') :
    Agrees (h.step layer a) s' := by
  cases a with
  | newSpan id parent metadata values =>
    obtain ⟨fields, -, rfl⟩ := map_eq_some_iff.mp hs
    have htick : Agrees h s.tick := ha.congr rfl
    exact @update _ _ _ htick id ⟨parent, metadata, none⟩ _ _ (.new _ _ _)
  | record id values =>
    have hs : layer.onRecord s id (·.visitAll values) = some s' := hs
    exact ha.onRecord hs
  | recordOn id field value =>
    have hs : layer.onRecord s id (·.visitSafe field value) = some s' := hs
    exact ha.onRecord hs
  | event span metadata values => exact ha.onEvent hs
  | close id => exact ha.onClose hs

/-- Without an empty entry of the blocklist, no program panics, and the recorder and the layer agree
after it. -/
theorem runFrom (hp : layer.policy.Total) (ha : Agrees h s) (hu : layer.Uniform s)
    (actions : List (Action F)) :
    actions.foldlM layer.step s = some (layer.runFrom s actions) ∧
      Agrees (actions.foldl (History.step layer) h) (layer.runFrom s actions) := by
  induction actions generalizing h s with
  | nil => exact ⟨rfl, ha⟩
  | cons a rest ih =>
    obtain ⟨s', hs, hu'⟩ := (hu.step a).exists_eq hp
    rw [foldlM_cons, runFrom, hs]
    exact ih (ha.step hs) hu'

end Agrees

/-! ## The line of a root -/

section Root

variable [Floats F] {layer : WideLogLayer} {s : LayerState F}

/-- A root is written or not. With a warning or an error it is, whatever its name and its
feature. -/
theorem emitRoot_lines (layer : WideLogLayer) (s : LayerState F) (root : SpanSnapshot F) : ∃ line,
    encodeOtelLogEntry (layer.rootEntry root) layer.resourceAttributes s.clock (s.clock + 1) =
      some line ∧
    ∀ s', layer.emitRoot s root = some s' → (s'.lines = s.lines ∨ s'.lines = s.lines ++ [line]) ∧
        (root.level ≤ .warn → s'.lines = s.lines ++ [line]) := by
  obtain ⟨emitted, hemitted, -⟩ :=
    (layer.emitEntry_yields s (layer.rootEntry root)).exists_eq trivial
  obtain ⟨line, hline, rfl⟩ := map_eq_some_iff.mp hemitted
  refine ⟨line, hline, fun s' hs => ?_⟩
  unfold emitRoot at hs
  split at hs
  · rename_i hquiet
    cases hs
    refine ⟨.inl rfl, fun hwarn => ?_⟩
    simp [not_lt.mpr hwarn] at hquiet
  · cases hemitted.symm.trans hs
    exact ⟨.inr rfl, fun _ => rfl⟩

/-- A root that closes goes to the sink. -/
theorem close_root {span : Span F} {state : SpanState F} (hs : s.spans id = some span)
    (hp : span.parent = none) (hst : span.state = some state) :
    layer.step s (.close id) = layer.emitRoot (tick { s with spans := update s.spans id none })
        (state.intoSnapshot s.clock) := by
  simp only [step, onClose, hs, hst, hp]
  rfl

/-- What is listed of a tree when details are included. -/
structure Details (t : Tree F) (line : OtelLogEntry F) : Prop where
  /-- Every event of the tree, each as often as it was recorded. -/
  events : line.body.events.Perm t.allEvents
  /-- Every span below the root, with its depth and its parent's target. -/
  spans : ∃ spans, line.body.spans = .full spans ∧ spans.map SpanSnapshot.place = t.descendants

theorem Collects.details {state : SpanState F} {t : Tree F} (hc : Collects state t) {now : Nat}
    (hd : layer.includeDetails (state.intoSnapshot now) = true) {time observed : Nat}
    {line : OtelLogEntry F}
    (hline : encodeOtelLogEntry (layer.rootEntry (state.intoSnapshot now)) layer.resourceAttributes
      time observed = some line) : Details t line := by
  obtain ⟨attributes, -, hline⟩ := bind_eq_some_iff.mp hline
  cases hline
  constructor
  · simp only [rootEntry, hd, if_true]
    exact hc.events
  · simp only [rootEntry, hd, if_true]
    exact ⟨_, rfl, (hc.places _ _).trans (by rw [Tree.descendants, ← hc.target]; rfl)⟩

end Root

/-- If no entry of the blocklist is empty, no call panics, and after any program the snapshot of an
open root has the most severe level of its tree. Closing the root writes one line or none; with a
warning or an error in the tree it writes one, and a line with details lists every event of the tree
and every span below the root exactly once. -/
theorem root_line_complete [Floats F] (layer : WideLogLayer)
    (hblocklist : "" ∉ layer.policy.sensitiveFieldBlocklist) (actions : List (Action F)) {id : Nat}
    {t : Tree F} (hroot : History.run layer actions id = some ⟨none, t⟩) :
    (actions ++ [Action.close id]).foldlM layer.step .init =
        some (layer.run (actions ++ [.close id])) ∧
      ∃ (root : SpanSnapshot F) (line : OtelLogEntry F),
        (∃ span state, (layer.run actions).spans id = some span ∧ span.state = some state ∧
          root = state.intoSnapshot (layer.run actions).clock) ∧
        MostSevere root.level t.levels ∧
        ((layer.run (actions ++ [.close id])).lines = (layer.run actions).lines ∨
          (layer.run (actions ++ [.close id])).lines = (layer.run actions).lines ++ [line]) ∧
        ((∃ level ∈ t.levels, level ≤ .warn) →
          (layer.run (actions ++ [.close id])).lines = (layer.run actions).lines ++ [line]) ∧
        (layer.includeDetails root = true → Details t line) := by
  obtain ⟨hruns, hagrees⟩ := Agrees.runFrom hblocklist .init .init actions
  obtain ⟨span, state, hs, hp, hst, hc⟩ := hagrees.collected hroot
  have hall := (Agrees.runFrom hblocklist .init .init (actions ++ [.close id])).1
  have hclose : layer.emitRoot (tick { layer.run actions with
        spans := update (layer.run actions).spans id none })
      (state.intoSnapshot (layer.run actions).clock) = some (layer.run (actions ++ [.close id])) := by
    rw [← close_root (s := layer.run actions) hs hp hst]
    have hlast : [Action.close id].foldlM layer.step (layer.run actions) =
        some (layer.run (actions ++ [.close id])) := by
      rw [foldlM_append, hruns] at hall
      exact hall
    rw [foldlM_cons] at hlast
    obtain ⟨last, hstep, hsame⟩ := bind_eq_some_iff.mp hlast
    rw [hstep]
    exact hsame
  obtain ⟨line, hline, hlines⟩ := emitRoot_lines layer (tick { layer.run actions with
      spans := update (layer.run actions).spans id none })
    (state.intoSnapshot (layer.run actions).clock)
  obtain ⟨hany, hwarn⟩ := hlines _ hclose
  refine ⟨hall, _, line, ⟨span, state, hs, hst, rfl⟩, hc.level, hany, ?_, fun hd =>
    hc.details hd hline⟩
  rintro ⟨level, hl, hle⟩
  exact hwarn ((hc.level.2 level hl).trans hle)

namespace Trial

/-- A request whose query warns and closes before the request has logged its answer. -/
def actions : List (Action Nat) :=
  [.newSpan 1 none ⟨"api", "request", .info⟩ [],
    .newSpan 2 (some 1) ⟨"db", "query", .debug⟩ [],
    .event (some 2) ⟨"db", "slow", .warn⟩ [],
    .close 2,
    .event (some 1) ⟨"api", "answered", .info⟩ []]

/-- A layer that writes no root for its name or its feature. -/
def plain (blocklist : List String) : WideLogLayer where
  resourceAttributes := none
  traceRules := []
  policy := ⟨.redactSensitive, [], blocklist⟩
  rootSpanNames := []
  rootFeaturePrefixes := []

/-- The fields of an event without values. -/
def logged : SpanFields Nat := ⟨(plain ["token"]).policy, [("type", .string "log")]⟩

def request : Tree Nat where
  metadata := ⟨"api", "request", .info⟩
  events := [⟨.info, "answered", "api", logged⟩]
  children := [⟨⟨"db", "query", .debug⟩, [⟨.warn, "slow", "db", logged⟩], []⟩]

def start : Action Nat := .newSpan 1 none ⟨"api", "request", .info⟩ []

def failed : Action Nat := .event (some 1) ⟨"api", "failed", .error⟩ []

/-- The request is open. -/
def opened : LayerState Nat :=
  @WideLogLayer.run Nat WideLogLayer.Trial.floats (plain [""]) [start]

end Trial

/-- The warning of the query brings the request's line, with the query one level below it. -/
theorem root_line_complete_query :
    ∃ line : OtelLogEntry Nat,
      (@WideLogLayer.run Nat WideLogLayer.Trial.floats (Trial.plain ["token"])
        (Trial.actions ++ [.close 1])).lines = [line] ∧
      Details Trial.request line ∧ Trial.request.descendants = [⟨"db", "query", some "api", 1⟩] := by
  obtain ⟨-, root, line, -, hlevel, -, hline, hdetails⟩ :=
    @root_line_complete Nat Trial.floats (Trial.plain ["token"]) (by decide)
      Trial.actions 1 Trial.request rfl
  have hwarn : .warn ∈ Trial.request.levels := by decide
  refine ⟨line, hline ⟨.warn, hwarn, le_refl _⟩, hdetails ?_, rfl⟩
  simp [includeDetails, hlevel.2 _ hwarn]

/-- With an empty entry in the blocklist the error of a request panics and no line comes, nor does one
if the request closes after that. -/
theorem root_line_lost :
    @WideLogLayer.step Nat WideLogLayer.Trial.floats (Trial.plain [""]) Trial.opened Trial.failed =
        none ∧
      (@WideLogLayer.run Nat WideLogLayer.Trial.floats (Trial.plain [""])
        [Trial.start, Trial.failed, .close 1]).lines = [] ∧
      ∃ s, @WideLogLayer.step Nat WideLogLayer.Trial.floats (Trial.plain [""]) Trial.opened
        (.close 1) = some s ∧ s.lines = [] := by
  refine ⟨isNone_iff_eq_none.mp (by decide +kernel), isEmpty_iff.mp (by decide +kernel), ?_⟩
  have hclosed : (@step Nat Trial.floats (Trial.plain [""]) Trial.opened
      (.close 1)).any (·.lines.isEmpty) = true := by decide +kernel
  obtain ⟨s, hs, hempty⟩ := (any_eq_true _ _).mp hclosed
  exact ⟨s, hs, isEmpty_iff.mp hempty⟩

end AuxCommon.WideLog
