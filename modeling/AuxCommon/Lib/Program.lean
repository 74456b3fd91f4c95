import AuxCommon.Lib.Result
import AuxCommon.Lib.Store

/-!
# Programs over a store

A **program** reads keys, reads pages of ranges, commits transactions and returns a result or an
error. A store remembers the commits that it has decided (`World`), since a program may send one
again. `Prog.run` runs a program alone, without other writers.
-/

namespace AuxCommon

open Std

/-- The answer of a store to a commit. -/
inductive CommitOutcome
  | committed | conflict | unknown
  deriving DecidableEq

/-- The error of a store that could not serve a request. A commit that ends in it did not
apply. -/
inductive AdapterError
  | failed
  deriving DecidableEq

/-- Programs over a store. -/
inductive Prog (I K V E α : Type) : Type
  | ret (r : Except E α)
  | read (ks : List K) (next : List (Except AdapterError (Option V)) → Prog I K V E α)
  | page (r : Range K) (next : Except AdapterError (Page K V) → Prog I K V E α)
  | commit (t : Transaction I K V) (next : Except AdapterError CommitOutcome → Prog I K V E α)

namespace Prog

variable {I K V E α β : Type}

def bind : Prog I K V E α → (α → Prog I K V E β) → Prog I K V E β
  | .ret (.ok a), f => f a
  | .ret (.error e), _ => .ret (.error e)
  | .read ks next, f => .read ks fun x => (next x).bind f
  | .page r next, f => .page r fun x => (next x).bind f
  | .commit t next, f => .commit t fun x => (next x).bind f

/-- The program that returns its error as a value. -/
def attempt : Prog I K V E α → Prog I K V E (Except E α)
  | .ret r => .ret (.ok r)
  | .read ks next => .read ks fun x => (next x).attempt
  | .page r next => .page r fun x => (next x).attempt
  | .commit t next => .commit t fun x => (next x).attempt

instance : Monad (Prog I K V E) where
  pure a := .ret (.ok a)
  bind := bind

instance : MonadLift (Except E) (Prog I K V E) := ⟨.ret⟩

instance : MonadExceptOf E (Prog I K V E) where
  throw e := .ret (.error e)
  tryCatch p h := p.attempt.bind fun
    | .ok a => .ret (.ok a)
    | .error e => h e

end Prog

/-- A store with the commits that it has decided: the transactions that have applied, each with the
contents that admitted it, and those that were refused. -/
structure World (I K V : Type) [Ord K] where
  contents : OrdMap K V
  applied : List (Transaction I K V × OrdMap K V)
  refused : List (Transaction I K V)

instance {I K V : Type} [Ord K] : EmptyCollection (World I K V) := ⟨⟨∅, [], []⟩⟩

section Semantics

variable {I K V E α : Type} [Ord K] [TransOrd K]
variable [DecidableEq I] [DecidableEq K] [DecidableEq V]

/-- A commit of a transaction that was decided before answers as it did then, and its identity is
not free for another transaction. -/
def World.commit (w : World I K V) (t : Transaction I K V) :
    Except AdapterError CommitOutcome × World I K V :=
  if t ∈ w.applied.map Prod.fst then (.ok .committed, w)
  else if t ∈ w.refused then (.ok .conflict, w)
  else if t.id ∈ (w.applied.map Prod.fst ++ w.refused).map (·.id) then (.error .failed, w)
  else if t.holds w.contents = true then
    (.ok .committed, ⟨t.apply w.contents, (t, w.contents) :: w.applied, w.refused⟩)
  else (.ok .conflict, { w with refused := t :: w.refused })

/-- The program alone on the store: every read sees the current contents. -/
def Prog.run : Prog I K V E α → World I K V → Except E α × World I K V
  | .ret r, w => (r, w)
  | .read ks next, w => (next (ks.map fun k => .ok w.contents[k]?)).run w
  | .page r next, w =>
    let page := r.cut w.contents r.limit (r.limit < (r.rest w.contents).length)
    (next (page.elim (.error .failed) .ok)).run w
  | .commit t next, w => (next (w.commit t).1).run (w.commit t).2

end Semantics

end AuxCommon
