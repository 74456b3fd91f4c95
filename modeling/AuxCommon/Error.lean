import AuxCommon.Lib.Program
import AuxCommon.Policy

/-!
# Errors

The error types of `error.rs`. The error of a store adapter is opaque to the engine
(`AdapterError`).
-/

namespace AuxCommon

/-- `StoreDataError`. -/
inductive StoreDataError
  | unknownVersion (version : UInt8)
  | unknownTag (tag : UInt8)
  | truncated
  | malformed (reason : String)
  | invalidLength (field : String) (actual maximum : Nat)
  | lengthOverflow
  | trailingBytes
  deriving DecidableEq

/-- `From<IdentifierError>`. -/
def StoreDataError.ofIdentifier (_ : IdentifierError) : StoreDataError := .malformed "identifier"

/-- `StoreContractError`, the cases that the modelled code raises. -/
inductive StoreContractError
  | capabilityExceeded (field : String)
  | duplicateTransactionKey (section_ : String)
  | emptyTransaction
  deriving DecidableEq

/-- `JobSystemError`, without the failures of the wake scheduler. -/
inductive JobSystemError
  | validation (error : ValidationError)
  | storeContract (error : StoreContractError)
  | storeData (error : StoreDataError)
  | store (error : AdapterError)
  | unregisteredHandler
  | jobIdConflict
  | notFound
  | leaseConflict
  | leaseLost
  | payloadCorrupt
  | claimPublicationUnacknowledged
  | unsupportedOutcome
  | unknownCommit
  | entropyUnavailable
  deriving DecidableEq

/-- A fallible step of the engine. -/
abbrev JobResult (α : Type) := Except JobSystemError α

-- `From<ValidationError>` and `From<StoreDataError>`: what `?` does to the errors of a callee.
instance : MonadLift (Except ValidationError) JobResult := ⟨Except.mapError .validation⟩
instance : MonadLift (Except StoreDataError) JobResult := ⟨Except.mapError .storeData⟩

/-- `Option::ok_or`. -/
def okOr {ε α : Type} (e : ε) : Option α → Except ε α
  | some a => .ok a
  | none => .error e

/-- A check that ends a function early: `if !c { return Err(e) }`. -/
def require {ε : Type} (c : Prop) [Decidable c] (e : ε) : Except ε Unit :=
  if c then .ok () else .error e

theorem okOr_eq_ok {ε α : Type} {e : ε} {x : Option α} {a : α} : okOr e x = .ok a ↔ x = some a := by
  cases x <;> simp [okOr]

theorem require_eq_ok {ε : Type} {c : Prop} [Decidable c] {e : ε} {u : Unit} :
    require c e = .ok u ↔ c := by
  unfold require
  split <;> simp_all

end AuxCommon
