/-
The values of the durable request store and the checks on them.

Instants are nanoseconds since the zero time of the source's clock
type, so that the zero time is 0 and comparison is comparison of
integers. Texts are checked as the store checks every identifier it is
given.
-/
import LlmTemporalWorker.Lib.Digits

namespace LlmTemporalWorker.CloudState

open Lib

-- ===== instants

def nanosPerSecond : Int := 1000000000

def nanosPerMinute : Int := 60 * nanosPerSecond

/-- The first instant of the year 10000. -/
def endOfTime : Int := 315537897600 * nanosPerSecond

/-- Not the zero time, and in the years 1 to 9999. -/
def validTime (t : Int) : Bool :=
  decide (t ≠ 0) && decide (0 ≤ t) && decide (t < endOfTime)

-- ===== texts

/-- A text that is not empty, not too long, has no space at either end
and no zero byte or line break inside. -/
def safeText (value : String) (max : Nat) : Bool :=
  let runes := value.toList
  decide (value.utf8ByteSize ≤ max) && runes.head?.any (fun c => !isSpace c) &&
    runes.getLast?.any (fun c => !isSpace c) &&
    runes.all fun c => !(c == '\x00' || c == '\r' || c == '\n')

-- ===== statuses

inductive Status
  | pending
  | running
  | providerPending
  | completed
  | failed
  | outcomeUnknown
  deriving DecidableEq, Repr

namespace Status

def terminal : Status → Bool
  | .completed => true
  | .failed => true
  | _ => false

end Status

/-- The statuses a record may go to. A terminal record stays. -/
def validTransition : Status → Status → Bool
  | .pending, next =>
    next == .pending || next == .running || next == .completed || next == .failed
  | .running, next | .providerPending, next =>
    next == .running || next == .providerPending || next == .completed ||
      next == .failed || next == .outcomeUnknown
  | .outcomeUnknown, next =>
    next == .running || next == .providerPending || next == .failed || next == .outcomeUnknown
  | .completed, _ | .failed, _ => false

theorem validTransition_not_terminal {source target : Status}
    (h : validTransition source target = true) :
    source.terminal = false := by
  cases source <;> first | rfl | cases h

end LlmTemporalWorker.CloudState
