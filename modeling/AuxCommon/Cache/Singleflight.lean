import AuxCommon.Lib.Refs
import AuxCommon.Lib.System
import Mathlib.Data.Fintype.Basic

/-!
# The keyed single flight

Model of `lru-ttl-cache/src/singleflight.rs`. `KeyedSingleflight` keeps a map from keys to weak
references of gates; a gate is a reference-counted asynchronous mutex. `lock` takes the gate of
its key out of the map, or puts a new one in, and waits for the gate. The drop of a guard unlocks
the gate and removes the map's entry when its own reference is the only one left.

* `Phase` is the place of one call of `lock`, from the call to the end of the guard's drop. Every
  access to what calls share is a step of its own (`Effect`): the map's mutex, the map, a clone
  or a drop of a reference, the gate's mutex. The strong count is read by a step of its own too.
* `next` is the code of a call, `step` lets one call take one step.
* `Orderly` is the order under which the code keeps its purpose: no call adopts a gate that a drop
  has decided to remove, a drop that finds the gate shared, and so leaves the entry in the map, shares
  it with a call that will clean up, and a waiter gives up only if it leaves such a call behind. The
  reference of a drop that has read the count is shared with the next one, but cleans up nothing.

The std mutex never stays poisoned (`lock_unpoisoned`), so poisoning is left out. A task that has
several calls of `lock` at once is several calls here.
-/

namespace AuxCommon.Singleflight

open Option Function

/-- The address of a gate (`Arc<AsyncMutex<()>>`). -/
abbrev Gate := Nat

/-- Where a call that has its reference to a gate is. -/
inductive Place where
  /-- In `lock`, with the map locked. -/
  | found
  /-- The map is unlocked, before `lock_owned`. -/
  | ready
  /-- In `lock_owned`, with a second reference. -/
  | waiting
  /-- The guard is alive. -/
  | holding
  /-- In the guard's drop: the gate is unlocked, the `OwnedMutexGuard` has its reference. -/
  | unlocked
  /-- Before the read of the strong count. -/
  | counting
  /-- The count was one; before the map's lock. -/
  | removing
  /-- The map is locked. -/
  | checking
  /-- The map has a weak reference for the key. -/
  | weighing (weak : Gate)
  /-- The weak reference was upgraded. -/
  | comparing (current : Gate)
  /-- The map's gate is this one. -/
  | deleting
  /-- Before the map's unlock. -/
  | leaving
  /-- The end of the drop: the field `gate` is dropped last. -/
  | returning
  deriving DecidableEq

/-- Where a call is. -/
inductive Phase (K : Type) where
  | idle
  /-- In `lock`, before the map's lock. -/
  | entering (key : K)
  /-- The map is locked. -/
  | looking (key : K)
  /-- The map has a weak reference for the key. -/
  | upgrading (key : K) (weak : Gate)
  /-- There is no live gate for the key. -/
  | creating (key : K)
  | own (place : Place) (key : K) (gate : Gate)
  deriving DecidableEq

/-- What a step does to what the calls share. -/
inductive Effect (K : Type) where
  | silent
  | lockMap
  | unlockMap
  | clone (gate : Gate)
  | drop (gate : Gate)
  /-- `gates.insert` of a new gate. -/
  | insert (key : K)
  /-- `gates.remove`. -/
  | remove (key : K)
  | acquire (gate : Gate)
  | release (gate : Gate)
  deriving DecidableEq

/-- What a call does when it is its turn. -/
inductive Turn (K : Type) where
  /-- The caller calls `lock`. -/
  | call (key : K)
  /-- The next step of the code; with a guard, the start of its drop. -/
  | proceed
  /-- The future of `lock` is dropped while it waits. -/
  | cancel
  deriving DecidableEq

structure State (K τ : Type) where
  gates : K → Option Gate
  /-- The call that has the map locked. -/
  owner : Option τ
  refs : Refs Gate τ
  /-- The call that has the gate locked. -/
  holder : Gate → Option τ
  /-- The address of the next new gate. -/
  fresh : Gate
  phase : τ → Phase K

variable {K τ : Type}

/-- `KeyedSingleflight::default`, before any call. -/
def State.default : State K τ where
  gates _ := none
  owner := none
  refs _ := []
  holder _ := none
  fresh := 0
  phase _ := .idle

variable [DecidableEq τ]

/-- The step of a call at its turn, and its effect; `none` if it has to wait. -/
def next (s : State K τ) (t : τ) (a : Turn K) : Option (Phase K × Effect K) :=
  match a, s.phase t with
  | .call k, .idle => some (.entering k, .silent)
  -- `KeyedSingleflight::lock`
  | .proceed, .entering k => if s.owner = none then some (.looking k, .lockMap) else none
  | .proceed, .looking k =>
    match s.gates k with
    | some w => some (.upgrading k w, .silent)
    | none => some (.creating k, .silent)
  | .proceed, .upgrading k w =>
    if s.refs.live w then some (.own .found k w, .clone w) else some (.creating k, .silent)
  | .proceed, .creating k => some (.own .found k s.fresh, .insert k)
  | .proceed, .own .found k g => some (.own .ready k g, .unlockMap)
  | .proceed, .own .ready k g => some (.own .waiting k g, .clone g)
  | .proceed, .own .waiting k g =>
    if s.holder g = none then some (.own .holding k g, .acquire g) else none
  | .cancel, .own .waiting k g => some (.own .returning k g, .drop g)
  -- `KeyedSingleflightGuard::drop`
  | .proceed, .own .holding k g => some (.own .unlocked k g, .release g)
  | .proceed, .own .unlocked k g => some (.own .counting k g, .drop g)
  | .proceed, .own .counting k g =>
    if s.refs.strongCount g = 1 then some (.own .removing k g, .silent)
    else some (.own .returning k g, .silent)
  | .proceed, .own .removing k g =>
    if s.owner = none then some (.own .checking k g, .lockMap) else none
  | .proceed, .own .checking k g =>
    match s.gates k with
    | some w => some (.own (.weighing w) k g, .silent)
    | none => some (.own .leaving k g, .silent)
  | .proceed, .own (.weighing w) k g =>
    if s.refs.live w then some (.own (.comparing w) k g, .clone w)
    else some (.own .leaving k g, .silent)
  | .proceed, .own (.comparing c) k g =>
    if c = g then some (.own .deleting k g, .drop c) else some (.own .leaving k g, .drop c)
  | .proceed, .own .deleting k g => some (.own .leaving k g, .remove k)
  | .proceed, .own .leaving k g => some (.own .returning k g, .unlockMap)
  | .proceed, .own .returning _ g => some (.idle, .drop g)
  | _, _ => none

variable [DecidableEq K] {g : Gate} {k : K}

/-- The effect of a step of `t`, which is at `p` after it. -/
def State.apply (s : State K τ) (t : τ) (p : Phase K) : Effect K → State K τ
  | .silent => { s with phase := Function.update s.phase t p }
  | .lockMap => { s with owner := some t, phase := Function.update s.phase t p }
  | .unlockMap => { s with owner := none, phase := Function.update s.phase t p }
  | .clone g => { s with refs := s.refs.clone g t, phase := Function.update s.phase t p }
  | .drop g => { s with refs := s.refs.drop g t, phase := Function.update s.phase t p }
  | .insert k =>
    { s with
      gates := Function.update s.gates k (some s.fresh)
      refs := s.refs.clone s.fresh t
      fresh := s.fresh + 1
      phase := Function.update s.phase t p }
  | .remove k =>
    { s with gates := Function.update s.gates k none, phase := Function.update s.phase t p }
  | .acquire g =>
    { s with
      holder := Function.update s.holder g (some t), phase := Function.update s.phase t p }
  | .release g =>
    { s with holder := Function.update s.holder g none, phase := Function.update s.phase t p }

@[simp] theorem State.apply_phase (s : State K τ) (t : τ) (p : Phase K) (e : Effect K) :
    (s.apply t p e).phase = update s.phase t p := by
  cases e <;> rfl

theorem State.apply_insert_gates (s : State K τ) (t : τ) (p : Phase K) (k k' : K) :
    (s.apply t p (.insert k)).gates k' = if k' = k then some s.fresh else s.gates k' :=
  update_apply ..

theorem State.apply_remove_gates (s : State K τ) (t : τ) (p : Phase K) (k k' : K) :
    (s.apply t p (.remove k)).gates k' = if k' = k then none else s.gates k' :=
  update_apply ..

/-- Only an insertion and a removal change the map. -/
theorem State.apply_gates (s : State K τ) (t : τ) (p : Phase K) {e : Effect K}
    (he : ∀ k, e ≠ .insert k ∧ e ≠ .remove k) :
    (s.apply t p e).gates = s.gates ∧ (s.apply t p e).fresh = s.fresh := by
  cases e with
  | insert k => exact absurd rfl (he k).1
  | remove k => exact absurd rfl (he k).2
  | _ => exact ⟨rfl, rfl⟩

/-- One call takes one step. -/
def step (s : State K τ) (l : τ × Turn K) : Option (State K τ) :=
  (next s l.1 l.2).map fun r => s.apply l.1 r.1 r.2

/-! ## What a phase holds -/

/-- The strong references of a call at a place with gate `g`. -/
def Place.refs (g : Gate) : Place → Gate → Nat
  | .waiting, h | .holding, h | .unlocked, h => if h = g then 2 else 0
  | .comparing c, h => (if h = g then 1 else 0) + if h = c then 1 else 0
  | _, h => if h = g then 1 else 0

def Phase.refs : Phase K → Gate → Nat
  | .own p _ g, h => p.refs g h
  | _, _ => 0

/-- Whether the call has the map locked. -/
def Phase.inMap : Phase K → Bool
  | .looking _ | .upgrading .. | .creating _ | .own .found .. | .own .checking ..
  | .own (.weighing _) .. | .own (.comparing _) .. | .own .deleting .. | .own .leaving .. => true
  | _ => false

/-- The gate that the call has locked. -/
def Phase.holds : Phase K → Option Gate
  | .own .holding _ g => some g
  | _ => none

/-- The weak reference that the call has read from the map. -/
def Phase.sees : Phase K → Option (K × Gate)
  | .upgrading k w | .own (.weighing w) k _ => some (k, w)
  | _ => none

/-- The key and the gate of a call whose cleanup is still to come. -/
def Phase.uses : Phase K → Option (K × Gate)
  | .own .leaving .. | .own .returning .. => none
  | .own _ k g => some (k, g)
  | _ => none

/-- The key and the gate of a drop that has decided to remove the map's entry. -/
def Phase.removes : Phase K → Option (K × Gate)
  | .own .removing k g | .own .checking k g | .own (.weighing _) k g | .own (.comparing _) k g
  | .own .deleting k g => some (k, g)
  | _ => none

/-- The guard of a call is alive. -/
def Phase.Guards (k : K) (p : Phase K) : Prop := ∃ g, p = .own .holding k g

/-- The call waits for `k`, has its guard or is dropping it. -/
def Phase.Concerns (k : K) : Phase K → Prop
  | .looking k' | .upgrading k' _ | .creating k' | .own _ k' _ => k' = k
  | _ => False

/-- A call has `n` references to `g` before the step; how many after it. -/
def Effect.count (fresh g : Gate) (n : Nat) : Effect K → Nat
  | .clone g' => n + if g = g' then 1 else 0
  | .drop g' => n - if g = g' then 1 else 0
  | .insert _ => n + if g = fresh then 1 else 0
  | _ => n

/-- Whether a call has the map locked after a step. -/
def Effect.mapped (b : Bool) : Effect K → Bool
  | .lockMap => true
  | .unlockMap => false
  | _ => b

/-- The gate that a call has locked after a step. -/
def Effect.locked (g : Option Gate) : Effect K → Option Gate
  | .acquire g' => some g'
  | .release _ => none
  | _ => g

section Next

omit [DecidableEq τ] [DecidableEq K]

theorem Phase.refs_of_uses {p : Phase K} (h : p.uses = some (k, g)) : 0 < p.refs g := by
  unfold uses at h
  split at h
  case h_3 p k' g' _ _ =>
    cases h
    cases p <;> (simp only [refs, Place.refs, if_true]; omega)
  all_goals cases h

theorem Phase.uses_of_removes {p : Phase K} (h : p.removes = some (k, g)) :
    p.uses = some (k, g) := by
  unfold removes at h
  split at h <;> cases h <;> rfl

theorem Phase.inMap_of_sees {p : Phase K} (h : p.sees = some (k, g)) : p.inMap = true := by
  unfold sees at h
  split at h <;> cases h <;> rfl

variable {s : State K τ} {t : τ} {a : Turn K} {p : Phase K} {e : Effect K}

/-- What `next` lets a call do from the phase `q`. -/
inductive Next (s : State K τ) : Turn K → Phase K → Phase K → Effect K → Prop
  | call (k : K) : Next s (.call k) .idle (.entering k) .silent
  | enter {k : K} (h : s.owner = none) : Next s .proceed (.entering k) (.looking k) .lockMap
  | found {k : K} {w : Gate} (h : s.gates k = some w) :
      Next s .proceed (.looking k) (.upgrading k w) .silent
  | missing {k : K} (h : s.gates k = none) : Next s .proceed (.looking k) (.creating k) .silent
  | upgrade {k : K} {w : Gate} (h : s.refs.live w = true) :
      Next s .proceed (.upgrading k w) (.own .found k w) (.clone w)
  | expired {k : K} {w : Gate} (h : s.refs.live w = false) :
      Next s .proceed (.upgrading k w) (.creating k) .silent
  | create {k : K} : Next s .proceed (.creating k) (.own .found k s.fresh) (.insert k)
  | unlock {k : K} {g : Gate} : Next s .proceed (.own .found k g) (.own .ready k g) .unlockMap
  | wait {k : K} {g : Gate} : Next s .proceed (.own .ready k g) (.own .waiting k g) (.clone g)
  | acquire {k : K} {g : Gate} (h : s.holder g = none) :
      Next s .proceed (.own .waiting k g) (.own .holding k g) (.acquire g)
  | cancel {k : K} {g : Gate} : Next s .cancel (.own .waiting k g) (.own .returning k g) (.drop g)
  | release {k : K} {g : Gate} :
      Next s .proceed (.own .holding k g) (.own .unlocked k g) (.release g)
  | forget {k : K} {g : Gate} : Next s .proceed (.own .unlocked k g) (.own .counting k g) (.drop g)
  | last {k : K} {g : Gate} (h : s.refs.strongCount g = 1) :
      Next s .proceed (.own .counting k g) (.own .removing k g) .silent
  | shared {k : K} {g : Gate} (h : s.refs.strongCount g ≠ 1) :
      Next s .proceed (.own .counting k g) (.own .returning k g) .silent
  | lock {k : K} {g : Gate} (h : s.owner = none) :
      Next s .proceed (.own .removing k g) (.own .checking k g) .lockMap
  | check {k : K} {g w : Gate} (h : s.gates k = some w) :
      Next s .proceed (.own .checking k g) (.own (.weighing w) k g) .silent
  | removed {k : K} {g : Gate} (h : s.gates k = none) :
      Next s .proceed (.own .checking k g) (.own .leaving k g) .silent
  | weigh {k : K} {g w : Gate} (h : s.refs.live w = true) :
      Next s .proceed (.own (.weighing w) k g) (.own (.comparing w) k g) (.clone w)
  | dead {k : K} {g w : Gate} (h : s.refs.live w = false) :
      Next s .proceed (.own (.weighing w) k g) (.own .leaving k g) .silent
  | same {k : K} {g : Gate} : Next s .proceed (.own (.comparing g) k g) (.own .deleting k g) (.drop g)
  | other {k : K} {g c : Gate} (h : c ≠ g) :
      Next s .proceed (.own (.comparing c) k g) (.own .leaving k g) (.drop c)
  | delete {k : K} {g : Gate} : Next s .proceed (.own .deleting k g) (.own .leaving k g) (.remove k)
  | leave {k : K} {g : Gate} : Next s .proceed (.own .leaving k g) (.own .returning k g) .unlockMap
  | back {k : K} {g : Gate} : Next s .proceed (.own .returning k g) .idle (.drop g)

/-- The only case split of `next`: everything below goes by the constructors of `Next`. -/
theorem next_cases (h : next s t a = some (p, e)) : Next s a (s.phase t) p e := by
  unfold next at h
  generalize s.phase t = q at h ⊢
  split at h
  all_goals try split at h
  all_goals cases h
  all_goals first
    | exact .call _ | exact .enter ‹_› | exact .found ‹_› | exact .missing ‹_› | exact .upgrade ‹_›
    | exact .expired (Bool.eq_false_iff.mpr ‹_›) | exact .create | exact .unlock | exact .wait
    | exact .acquire ‹_› | exact .cancel | exact .release | exact .forget | exact .last ‹_›
    | exact .shared ‹_› | exact .lock ‹_› | exact .check ‹_› | exact .removed ‹_› | exact .weigh ‹_›
    | exact .dead (Bool.eq_false_iff.mpr ‹_›) | (subst ‹_ = _›; exact .same)
    | exact .other ‹_› | exact .delete | exact .leave | exact .back

variable {q : Phase K}

theorem next_refs (h : Next s a q p e) (g : Gate) : p.refs g = e.count s.fresh g (q.refs g) := by
  cases h <;> simp only [Phase.refs, Place.refs, Effect.count] <;> (try split_ifs) <;> omega

theorem next_inMap (h : Next s a q p e) : p.inMap = e.mapped q.inMap := by
  cases h <;> rfl

theorem next_holds (h : Next s a q p e) : p.holds = e.locked q.holds := by
  cases h <;> rfl

theorem next_lockMap (h : Next s a q p .lockMap) : s.owner = none := by
  cases h with
  | enter hfree | lock hfree => exact hfree

theorem next_inMap_of_change (h : Next s a q p e)
    (he : e = .unlockMap ∨ ∃ k, e = .insert k ∨ e = .remove k) : q.inMap = true := by
  cases h <;> first | rfl | simp at he

theorem next_acquire (h : Next s a q p (.acquire g)) : s.holder g = none := by
  cases h with
  | acquire hfree => exact hfree

theorem next_release (h : Next s a q p (.release g)) : q.holds = some g := by
  cases h with
  | release => rfl

theorem next_sees {w : Gate} (h : Next s a q p e)
    (hw : p.sees = some (k, w)) : s.gates k = some w ∧ e = .silent := by
  cases h with
  | found hk | check hk => cases hw; exact ⟨hk, rfl⟩
  | _ => cases hw

theorem next_creates (h : Next s a q (.creating k) e) : e = .silent ∧
      (s.gates k = none ∨ ∃ w, q = .upgrading k w ∧ s.refs.live w = false) := by
  cases h with
  | missing hk => exact ⟨rfl, .inl hk⟩
  | expired hw => exact ⟨rfl, .inr ⟨_, rfl, hw⟩⟩

theorem next_compares {g c : Gate} (h : Next s a q (.own (.comparing c) k g) e) :
    q = .own (.weighing c) k g := by
  cases h with
  | weigh => rfl

end Next

/-- The order in which calls may take their steps. -/
def Orderly (s : State K τ) (l : τ × Turn K) : Prop :=
  match l.2, s.phase l.1 with
  | .proceed, .upgrading k w => ∀ u, (s.phase u).removes ≠ some (k, w)
  | .proceed, .own .counting k g =>
    s.refs.strongCount g = 1 ∨ ∃ u, u ≠ l.1 ∧ (s.phase u).uses = some (k, g)
  | .cancel, .own .waiting k g => ∃ u, u ≠ l.1 ∧ (s.phase u).uses = some (k, g)
  | _, _ => True

instance [Fintype τ] (s : State K τ) (l : τ × Turn K) : Decidable (Orderly s l) := by
  unfold Orderly
  split <;> infer_instance

/-- What holds of the calls, the references and the map in every orderly run. -/
structure Inv (s : State K τ) : Prop where
  accounts : Refs.Accounts (Phase.refs ∘ s.phase) s.refs
  inMap : ∀ u, (s.phase u).inMap = true → s.owner = some u
  holds : ∀ u g, (s.phase u).holds = some g → s.holder g = some u
  sees : ∀ u k w, (s.phase u).sees = some (k, w) → s.gates k = some w
  creates : ∀ u k, s.phase u = .creating k → s.gates k = none
  compares : ∀ u k g c, s.phase u = .own (.comparing c) k g → c = g
  fresh : ∀ k g, s.gates k = some g → g < s.fresh
  distinct : ∀ k k' g, s.gates k = some g → s.gates k' = some g → k = k'
  /-- The map has the gate of every call that still has to clean up. -/
  points : ∀ u k g, (s.phase u).uses = some (k, g) → s.gates k = some g
  /-- A drop that removes the entry is the last call of its gate. -/
  alone : ∀ u v k g, (s.phase u).removes = some (k, g) → (s.phase v).uses = some (k, g) → v = u
  /-- Some call will clean up each entry. -/
  kept : ∀ k g, s.gates k = some g → ∃ u, (s.phase u).uses = some (k, g)

namespace Inv

variable {s : State K τ} {t : τ} {a : Turn K} {p : Phase K} {e : Effect K}

omit [DecidableEq K] in
theorem live (hi : Inv s) {u : τ} (hu : (s.phase u).uses = some (k, g)) : s.refs.live g = true :=
  hi.accounts.live_iff.mpr ⟨u, Phase.refs_of_uses hu⟩

/-- What a step does to the map and to the calls that have to clean up after themselves. -/
inductive Kind (s : State K τ) (t : τ) (p : Phase K) (e : Effect K) : Prop
  | calm : p.uses = (s.phase t).uses → p.removes = (s.phase t).removes →
      (∀ k, e ≠ .insert k ∧ e ≠ .remove k) → Kind s t p e
  | adopt (k : K) (g : Gate) : s.gates k = some g → (∀ u, (s.phase u).removes ≠ some (k, g)) →
      (s.phase t).uses = none → p.uses = some (k, g) → p.removes = none → e = .clone g →
      Kind s t p e
  | create (k : K) : s.gates k = none → (s.phase t).uses = none → p.uses = some (k, s.fresh) →
      p.removes = none → e = .insert k → Kind s t p e
  | decide (k : K) (g : Gate) : (∀ u, (s.phase u).uses = some (k, g) → u = t) →
      (s.phase t).uses = some (k, g) → p.uses = some (k, g) → p.removes = some (k, g) →
      e = .silent → Kind s t p e
  | leave (k : K) (g : Gate) : (∃ u, u ≠ t ∧ (s.phase u).uses = some (k, g)) →
      (s.phase t).uses = some (k, g) → p.uses = none → p.removes = none →
      (∀ k, e ≠ .insert k ∧ e ≠ .remove k) → Kind s t p e
  | delete (k : K) (g : Gate) : (s.phase t).removes = some (k, g) → p.uses = none →
      p.removes = none → e = .remove k → Kind s t p e

omit [DecidableEq K] in
theorem kind (hi : Inv s) (ho : Orderly s (t, a)) (h : Next s a (s.phase t) p e) :
    Kind s t p e := by
  unfold Orderly at ho
  generalize hp : s.phase t = q at h
  have huses : ∀ k g, q.uses = some (k, g) → (s.phase t).uses = some (k, g) := by
    intro k g hq
    rwa [hp]
  cases h with
  | @upgrade k w hlive =>
    simp only [hp] at ho
    exact .adopt k w (hi.sees t k w (by rw [hp]; rfl)) ho (by rw [hp]; rfl) rfl rfl rfl
  | @expired k w hdead =>
    -- the entry of the key has a call that will clean it up, so its gate is alive
    obtain ⟨u, hu⟩ := hi.kept k w (hi.sees t k w (by rw [hp]; rfl))
    rw [hi.live hu] at hdead
    cases hdead
  | @create k => exact .create k (hi.creates t k hp) (by rw [hp]; rfl) rfl rfl rfl
  | @cancel k g =>
    simp only [hp] at ho
    exact .leave k g ho (by rw [hp]; rfl) rfl rfl (by simp)
  | @last k g hone =>
    have ht := huses k g rfl
    refine .decide k g (fun u hu => ?_) ht rfl rfl rfl
    exact hi.accounts.sole hone (Phase.refs_of_uses ht) (Phase.refs_of_uses hu)
  | @shared k g hone =>
    simp only [hp] at ho
    exact .leave k g (ho.resolve_left hone) (huses k g rfl) rfl rfl (by simp)
  | @removed k g hnone =>
    -- the map has the gate of a call that still has to remove it
    rw [hi.points t k g (huses k g rfl)] at hnone
    cases hnone
  | @dead k g w hdead =>
    have hw := hi.sees t k w (by rw [hp]; rfl)
    rw [hi.points t k g (huses k g rfl)] at hw
    cases hw
    rw [hi.live (huses k g rfl)] at hdead
    cases hdead
  | @other k g c hne => exact absurd (hi.compares t k g c hp) hne
  | @delete k g => exact .delete k g (by rw [hp]; rfl) rfl rfl rfl
  | _ => exact .calm (by rw [hp]; rfl) (by rw [hp]; rfl) (by simp)

/-- The calls after a step of `t`. -/
theorem phase_update (s : State K τ) (t u : τ) (p : Phase K) (e : Effect K) :
    (s.apply t p e).phase u = if u = t then p else s.phase u := by
  rw [State.apply_phase, update_apply]

theorem accounts_step (hi : Inv s) (h : Next s a (s.phase t) p e) :
    Refs.Accounts (Phase.refs ∘ (s.apply t p e).phase) (s.apply t p e).refs := by
  have hn := next_refs h
  rw [State.apply_phase, comp_update]
  cases e with
  | clone g => exact hi.accounts.clone hn
  | drop g => exact hi.accounts.drop hn
  | insert k => exact hi.accounts.clone hn
  | _ => exact hi.accounts.keep hn

theorem inMap_step (hi : Inv s) (h : Next s a (s.phase t) p e) (u : τ)
    (hu : ((s.apply t p e).phase u).inMap = true) : (s.apply t p e).owner = some u := by
  have hn := next_inMap h
  have hlock := fun he : e = .lockMap => next_lockMap (he ▸ h)
  have hunlock := fun he : e = .unlockMap => hi.inMap t (next_inMap_of_change h (.inl he))
  have hold := hi.inMap u
  rw [phase_update] at hu
  cases e <;> simp only [State.apply, Effect.mapped] at * <;> grind

theorem holds_step (hi : Inv s) (h : Next s a (s.phase t) p e) (u : τ) (g : Gate)
    (hu : ((s.apply t p e).phase u).holds = some g) : (s.apply t p e).holder g = some u := by
  have hn := next_holds h
  have hacquire := fun g' (he : e = .acquire g') => next_acquire (he ▸ h)
  have hrelease := fun g' (he : e = .release g') => hi.holds t g' (next_release (he ▸ h))
  have hold := hi.holds u g
  rw [phase_update] at hu
  cases e <;> simp only [State.apply, Effect.locked] at * <;> grind

/-- A call that has the map locked keeps the others from changing it. -/
theorem gates_step (hi : Inv s) (h : Next s a (s.phase t) p e) {u : τ} (hne : u ≠ t)
    (hu : (s.phase u).inMap = true) : (s.apply t p e).gates = s.gates := by
  refine (s.apply_gates t p fun k => ?_).1
  by_contra hchange
  have ht := hi.inMap t (next_inMap_of_change h (.inr ⟨k, by tauto⟩))
  rw [hi.inMap u hu] at ht
  exact hne (some.inj ht)

theorem sees_step (hi : Inv s) (h : Next s a (s.phase t) p e) (u : τ) (k : K) (w : Gate)
    (hu : ((s.apply t p e).phase u).sees = some (k, w)) : (s.apply t p e).gates k = some w := by
  rw [phase_update] at hu
  split at hu
  · obtain ⟨hw, rfl⟩ := next_sees h hu
    exact hw
  · rename_i hne
    rw [hi.gates_step h hne (Phase.inMap_of_sees hu)]
    exact hi.sees u k w hu

theorem creates_step (hi : Inv s) (h : Next s a (s.phase t) p e) (u : τ) (k : K)
    (hu : (s.apply t p e).phase u = .creating k) : (s.apply t p e).gates k = none := by
  rw [phase_update] at hu
  split at hu
  · subst hu
    obtain ⟨rfl, hk | ⟨w, hp, hdead⟩⟩ := next_creates h
    · exact hk
    · -- the entry of the key still has a call that will clean it up, so its gate is alive
      obtain ⟨v, hv⟩ := hi.kept k w (hi.sees t k w (by rw [hp]; rfl))
      rw [hi.live hv] at hdead
      cases hdead
  · rename_i hne
    rw [hi.gates_step h hne (by rw [hu]; rfl)]
    exact hi.creates u k hu

theorem compares_step (hi : Inv s) (h : Next s a (s.phase t) p e) (u : τ) (k : K) (g c : Gate)
    (hu : (s.apply t p e).phase u = .own (.comparing c) k g) : c = g := by
  rw [phase_update] at hu
  split at hu
  · subst hu
    have hp := next_compares h
    have hc := hi.sees t k c (by rw [hp]; rfl)
    rw [hi.points t k g (by rw [hp]; rfl)] at hc
    exact (some.inj hc).symm
  · exact hi.compares u k g c hu

theorem fresh_step (hi : Inv s) (hk : Kind s t p e) (k : K) (g : Gate)
    (hg : (s.apply t p e).gates k = some g) : g < (s.apply t p e).fresh := by
  have hold := hi.fresh k g
  cases hk with
  | calm _ _ he | leave _ _ _ _ _ _ he => grind [State.apply_gates]
  | adopt _ _ _ _ _ _ _ he | create _ _ _ _ _ he | decide _ _ _ _ _ _ he
  | delete _ _ _ _ _ he =>
    grind [State.apply, State.apply_insert_gates, State.apply_remove_gates]

theorem distinct_step (hi : Inv s) (hk : Kind s t p e) (k k' : K) (g : Gate)
    (hg : (s.apply t p e).gates k = some g) (hg' : (s.apply t p e).gates k' = some g) :
    k = k' := by
  have hold := hi.distinct k k' g
  have hf := hi.fresh k g
  have hf' := hi.fresh k' g
  cases hk with
  | calm _ _ he | leave _ _ _ _ _ _ he => grind [State.apply_gates]
  | adopt _ _ _ _ _ _ _ he | create _ _ _ _ _ he | decide _ _ _ _ _ _ he
  | delete _ _ _ _ _ he =>
    grind [State.apply, State.apply_insert_gates, State.apply_remove_gates]

theorem points_step (hi : Inv s) (hk : Kind s t p e) (u : τ) (k : K) (g : Gate)
    (hu : ((s.apply t p e).phase u).uses = some (k, g)) : (s.apply t p e).gates k = some g := by
  rw [phase_update] at hu
  have hold := hi.points u k g
  cases hk with
  | calm _ _ he | leave _ _ _ _ _ _ he => grind [State.apply_gates]
  | adopt _ _ _ _ _ _ _ he | create _ _ _ _ _ he | decide _ _ _ _ _ _ he =>
    grind [State.apply, State.apply_insert_gates]
  | delete k' g' hr _ _ he =>
    subst he
    have := hi.points t k' g' (Phase.uses_of_removes hr)
    have := hi.alone t u k' g' hr
    grind [State.apply_remove_gates]

theorem alone_step (hi : Inv s) (hk : Kind s t p e) (u v : τ) (k : K) (g : Gate)
    (hu : ((s.apply t p e).phase u).removes = some (k, g))
    (hv : ((s.apply t p e).phase v).uses = some (k, g)) : v = u := by
  rw [phase_update] at hu hv
  have hold := hi.alone u v k g
  cases hk with
  | calm | adopt | decide | leave | delete => grind
  | create k' _ _ hp _ _ =>
    -- no call has the address of the new gate
    have hf := hi.fresh k g
    have := fun hr => hi.points u k g (Phase.uses_of_removes hr)
    grind

theorem kept_step (hi : Inv s) (hk : Kind s t p e) (k : K) (g : Gate)
    (hg : (s.apply t p e).gates k = some g) :
    ∃ u, ((s.apply t p e).phase u).uses = some (k, g) := by
  simp only [phase_update]
  have hold := hi.kept k g
  cases hk with
  | calm _ _ he | leave _ _ _ _ _ _ he => grind [State.apply_gates]
  | adopt _ _ _ _ _ _ _ he | create _ _ _ _ _ he | decide _ _ _ _ _ _ he =>
    grind [State.apply, State.apply_insert_gates]
  | delete k' g' hr _ _ he =>
    subst he
    have := Phase.uses_of_removes hr
    grind [State.apply_remove_gates]

theorem step (hi : Inv s) (ho : Orderly s (t, a)) (h : Next s a (s.phase t) p e) :
    Inv (s.apply t p e) :=
  have hk := hi.kind ho h
  { accounts := hi.accounts_step h
    inMap := hi.inMap_step h
    holds := hi.holds_step h
    sees := hi.sees_step h
    creates := hi.creates_step h
    compares := hi.compares_step h
    fresh := hi.fresh_step hk
    distinct := hi.distinct_step hk
    points := hi.points_step hk
    alone := hi.alone_step hk
    kept := hi.kept_step hk }

omit [DecidableEq K] in
theorem default : Inv (State.default : State K τ) where
  accounts _ _ := rfl
  inMap _ h := nomatch h
  holds _ _ h := nomatch h
  sees _ _ _ h := nomatch h
  creates _ _ h := nomatch h
  compares _ _ _ _ h := nomatch h
  fresh _ _ h := nomatch h
  distinct _ _ _ h := nomatch h
  points _ _ _ h := nomatch h
  alone _ _ _ _ h := nomatch h
  kept _ _ h := nomatch h

end Inv

/-- The runs of a single flight in which the calls take the steps that `ok` allows. -/
def Reaches (ok : State K τ → τ × Turn K → Prop) (s : State K τ) : Prop :=
  Run (fun s l s' => step s l = some s') ok State.default s

theorem Inv.of_reaches {s : State K τ} (h : Reaches Orderly s) : Inv s := by
  refine h.invariant (fun s l s' hi ho hs => ?_) Inv.default
  obtain ⟨r, hr, rfl⟩ := map_eq_some_iff.mp hs
  exact hi.step ho (next_cases hr)

/-- In every orderly run two guards of one key are the same, and the map has no entry for a key
that no call concerns. -/
theorem lock_excludes_and_cleans {s : State K τ} (h : Reaches Orderly s) :
    (∀ t u k, (s.phase t).Guards k → (s.phase u).Guards k → t = u) ∧
      ∀ k, (∀ t, ¬(s.phase t).Concerns k) → s.gates k = none := by
  have hi := Inv.of_reaches h
  constructor
  · rintro t u k ⟨g, ht⟩ ⟨g', hu⟩
    -- both guards have the gate that the map has, and its mutex has one holder
    have hg := hi.points t k g (by rw [ht]; rfl)
    rw [hi.points u k g' (by rw [hu]; rfl)] at hg
    cases hg
    have hh := hi.holds t g (by rw [ht]; rfl)
    rw [hi.holds u g (by rw [hu]; rfl)] at hh
    exact (some.inj hh).symm
  · intro k hk
    by_contra hsome
    obtain ⟨g, hg⟩ := ne_none_iff_exists'.mp hsome
    obtain ⟨u, hu⟩ := hi.kept k g hg
    refine hk u ?_
    cases hp : s.phase u with
    | own p k' g' => cases p <;> simp_all [Phase.uses, Phase.Concerns]
    | _ => rw [hp] at hu; cases hu

/-- The next `n` steps of a call. -/
def proceeds (t : τ) (n : Nat) : List (τ × Turn K) := List.replicate n (t, .proceed)

/-- A second call takes the gate over and drops its guard last. -/
theorem lock_excludes_and_cleans_handover :
    ∃ s : State Unit (Fin 2), Reaches Orderly s ∧ (s.phase 1).Guards () ∧
      ∀ t, (s.phase t).Guards () → t = 1 := by
  have hrun : (Run.script step Orderly State.default
      ((0, .call ()) :: proceeds 0 6 ++ (1, .call ()) :: proceeds 1 5 ++ proceeds 0 4 ++
        proceeds 1 1)).any
      (fun s : State Unit (Fin 2) => s.phase 1 = .own .holding () 0) = true := by decide +kernel
  obtain ⟨s, h, hp⟩ := Run.ofScript hrun
  have hguard : (s.phase 1).Guards () := ⟨0, of_decide_eq_true hp⟩
  exact ⟨s, h, hguard, fun t ht => (lock_excludes_and_cleans h).1 t 1 () ht hguard⟩

/-- A call takes the gate between the read of the strong count and the removal, and the next call
finds no gate: two guards of one key. And a drop that reads the count while an earlier drop is
about to return leaves its entry behind. -/
theorem lock_admits_two_guards :
    (∃ s : State Unit (Fin 3), Reaches (fun _ _ => True) s ∧
      (s.phase 1).Guards () ∧ (s.phase 2).Guards ()) ∧
    ∃ s : State Unit (Fin 2), Reaches (fun _ _ => True) s ∧
      (∀ t, s.phase t = .idle) ∧ s.gates () ≠ none := by
  constructor
  · have hrun : (Run.script step (fun _ _ => True) State.default
        ((0, .call ()) :: proceeds 0 9 ++ (1, .call ()) :: proceeds 1 6 ++ proceeds 0 6 ++
          (2, .call ()) :: proceeds 2 6)).any
        (fun s : State Unit (Fin 3) =>
          s.phase 1 = .own .holding () 0 ∧ s.phase 2 = .own .holding () 1) = true := by
      decide +kernel
    obtain ⟨s, hs, hp⟩ := Run.ofScript hrun
    obtain ⟨h₁, h₂⟩ := of_decide_eq_true hp
    exact ⟨s, hs, ⟨0, h₁⟩, ⟨1, h₂⟩⟩
  · have hrun : (Run.script step (fun _ _ => True) State.default
        ((0, .call ()) :: proceeds 0 6 ++ (1, .call ()) :: proceeds 1 5 ++ proceeds 0 3 ++
          proceeds 1 4 ++ proceeds 0 1 ++ proceeds 1 1)).any
        (fun s : State Unit (Fin 2) => (∀ t, s.phase t = .idle) ∧ s.gates () ≠ none) = true := by
      decide +kernel
    obtain ⟨s, hs, hp⟩ := Run.ofScript hrun
    exact ⟨s, hs, of_decide_eq_true hp⟩

end AuxCommon.Singleflight
