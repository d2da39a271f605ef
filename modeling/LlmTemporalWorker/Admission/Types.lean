/-
What an admission store keeps and is asked (admission/types.go).

An operation is admitted once: `Begin` charges its reservations and
stores it as reserved, `MarkDispatching` hands it to one attempt, and
`Continue`, `Complete` or `Fail` end that attempt. The store's answers
carry the operation back.

States and certainties are strings in the source. The constants are
constructors here, and `other` is any string that is none of them,
which a record read from a shared store may hold.
-/
import LlmTemporalWorker.Budget.Materializer

namespace LlmTemporalWorker.Admission

open Budget (WindowReservation)
open Pricing (Usd)

-- ===== states

inductive OperationState where
  | reserved
  | dispatching
  | providerPending
  | completed
  | definiteFailed
  | ambiguous
  | canceled
  | other (text : String)
deriving DecidableEq, Repr

/-- The string a state is. -/
def OperationState.text : OperationState → String
  | .reserved => "reserved"
  | .dispatching => "dispatching"
  | .providerPending => "provider_pending"
  | .completed => "completed"
  | .definiteFailed => "definite_failed"
  | .ambiguous => "ambiguous"
  | .canceled => "canceled"
  | .other text => text

def OperationState.terminal : OperationState → Bool
  | .completed | .definiteFailed | .ambiguous | .canceled => true
  | _ => false

/-- `DispatchCertainty`; `unset` is the empty string. -/
inductive DispatchCertainty where
  | unset
  | notDispatched
  | rejected
  | accepted
  | ambiguous
  | other (text : String)
deriving DecidableEq, Repr

-- ===== operations

/-- A SHA-256 digest by its 64 hexadecimal digits. -/
structure Digest where
  hex : String
  length : hex.utf8ByteSize = 64
  digits : hex.toList.all fun c =>
    ('0' ≤ c && c ≤ '9') || ('a' ≤ c && c ≤ 'f') || ('A' ≤ c && c ≤ 'F')
deriving DecidableEq, Repr

/-- `state.BlobRef`: a stored result. -/
structure BlobRef where
  digest : Digest
  size : Int
  media : String
deriving DecidableEq, Repr

structure AttemptFacts where
  (routeId endpointId provider resolvedModel providerRequestId : String)
  serviceClass : String
  dispatch : DispatchCertainty
  attemptNumber : Int
deriving DecidableEq, Repr

/-- The zero value. -/
def AttemptFacts.empty : AttemptFacts :=
  ⟨"", "", "", "", "", "", .unset, 0⟩

structure Operation where
  (id scopeKey : String)
  requestDigest : Digest
  state : OperationState
  (reservedMicroUsd incurredMicroUsd finalMicroUsd : Int)
  reservations : List WindowReservation
  (configVersion priceVersion : String)
  attempt : AttemptFacts
  resultRef : Option BlobRef
  dispatchToken : String
  (leaseUntil createdAt updatedAt expiresAt : Int)
deriving DecidableEq, Repr

-- ===== requests

/-- `BeginRequest`, the part the legacy stores read. -/
structure BeginRequest where
  (id scopeKey : String)
  requestDigest : Digest
  reservation : Int
  reservationUsd : Usd
  reservations : List WindowReservation
  (configVersion priceVersion : String)
  (leaseUntil expiresAt : Int)
deriving DecidableEq, Repr

/-- `Denial`, the part the legacy stores fill. -/
structure Denial where
  (policyId windowId : String)
  (limit active requested : Int)
deriving DecidableEq, Repr

/-- `BeginResult`: an operation, new or found, or a denial. -/
inductive BeginResult where
  | admitted (operation : Operation) (existing : Bool)
  | denied (denial : Denial)
deriving DecidableEq, Repr

end LlmTemporalWorker.Admission
