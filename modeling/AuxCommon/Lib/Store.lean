import AuxCommon.Lib.OrdMap

/-!
# Conditional transactions over an ordered store

A store is an ordered map. A **transaction** is a list of checks on single keys and a list of
writes: it is admitted when every check holds, and then all of its writes apply at once. A **page** of a
range read is a run of the matching entries in key order (`Range.cut`).
-/

namespace AuxCommon

open Std

/-- A condition on one key. -/
inductive Check (K V : Type)
  | absent (key : K)
  | value (key : K) (expected : V)
  deriving DecidableEq

/-- A write to one key. -/
inductive Mutation (K V : Type)
  | put (key : K) (value : V)
  | delete (key : K)
  deriving DecidableEq

/-- An atomic conditional transaction with the identity of its commit. -/
structure Transaction (I K V : Type) where
  id : I
  checks : List (Check K V)
  mutations : List (Mutation K V)
  deriving DecidableEq

section Syntax

variable {K V : Type}

def Check.key : Check K V → K
  | .absent k => k
  | .value k _ => k

def Mutation.key : Mutation K V → K
  | .put k _ => k
  | .delete k => k

end Syntax

section Meaning

variable {I K V : Type} [Ord K] [TransOrd K]

def Check.holds [DecidableEq V] (s : OrdMap K V) : Check K V → Bool
  | .absent k => s[k]? = none
  | .value k v => s[k]? = some v

def Mutation.apply (s : OrdMap K V) : Mutation K V → OrdMap K V
  | .put k v => s.insert k v
  | .delete k => s.erase k

namespace Transaction

/-- Whether the store admits the transaction. -/
def holds [DecidableEq V] (s : OrdMap K V) (t : Transaction I K V) : Bool := t.checks.all (Check.holds s)

/-- The store after the transaction's writes. -/
def apply (s : OrdMap K V) (t : Transaction I K V) : OrdMap K V :=
  t.mutations.foldl Mutation.apply s

end Transaction

/-! ## Range reads -/

/-- A range of keys, read from `after` on, at most `limit` entries at a time. -/
structure Range (K : Type) where
  within : K → Bool
  after : Option K
  limit : Nat

/-- The entries of one answer, and the cursor from which the next read goes on. -/
structure Page (K V : Type) where
  entries : List (K × V)
  continuation : Option K

/-- The entries of a range that come after its cursor, in key order. -/
def Range.rest (r : Range K) (s : OrdMap K V) : List (K × V) :=
  s.toList.filter fun e => r.within e.1 && r.after.all fun a => compare a e.1 == .lt

/-- The page of the first `count` entries. Without `more` it must hold all of them. -/
def Range.cut (r : Range K) (s : OrdMap K V) (count : Nat) : (more : Bool) → Option (Page K V)
  | true => ((r.rest s).take (min count r.limit)).getLast?.map fun e =>
      ⟨(r.rest s).take (min count r.limit), some e.1⟩
  | false =>
    if (r.rest s).length ≤ min count r.limit then some ⟨r.rest s, none⟩ else none

end Meaning

end AuxCommon
