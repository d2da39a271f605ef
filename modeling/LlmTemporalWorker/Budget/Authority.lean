/-
The authority marker: `durable_authority_prepare`,
`durable_authority_commit` and `durable_authority_check`
(storage/redis/functions/admission.lua).

A namespace is prepared under the marker of one initialization receipt
and then published as ready. Calls that carry an authority envelope are
admitted only under the marker that is ready (`Keyspace.admits`).
-/
import LlmTemporalWorker.Budget.Reserve

namespace LlmTemporalWorker.Budget

/-- A character of the class `[a-f0-9]`. -/
def lowerHex (c : Char) : Bool :=
  ('a' ≤ c && c ≤ 'f') || ('0' ≤ c && c ≤ '9')

/-- The pattern `^budget%-initialization/v1:[a-f0-9%-]+:[a-f0-9]+:[a-f0-9]+$`
and the bound on the marker's length. -/
def markerValid (marker : String) : Bool :=
  boundedString marker 256 &&
    match marker.toList.splitOn ':' with
    | [head, epoch, scope, config] =>
      head = "budget-initialization/v1".toList
        && !epoch.isEmpty && epoch.all (fun c => lowerHex c || c = '-')
        && !scope.isEmpty && scope.all lowerHex
        && !config.isEmpty && config.all lowerHex
    | _ => false

/-- The three authority actions. `permitted` stands for what a commit
checks outside the ledger: that the event stream is absent, its first
hint is bounded and the access rules allow both writes. -/
inductive AuthorityArgs where
  | prepare (marker : String) (create : Bool)
  | commit (marker : String) (permitted : Bool)
  | check (marker : String)
deriving DecidableEq, Repr

def AuthorityArgs.marker : AuthorityArgs → String
  | .prepare marker _ | .commit marker _ | .check marker => marker

/-- The authority actions. -/
def durableAuthority (a : AuthorityArgs) (K : Keyspace) : Keyspace × Reply :=
  if !markerValid a.marker then (K, .invalidRequest)
  else if K.authority = some (.ready a.marker) then (K, .ready)
  else
    match a with
    | .check _ => (K, .authorityUnavailable)
    | .prepare marker create =>
      if K.authority = some (.preparing marker) then (K, .preparing)
      else if K.authority.isNone && create then
        ({ K with authority := some (.preparing marker) }, .preparing)
      else (K, .authorityUnavailable)
    | .commit marker permitted =>
      if K.authority = some (.preparing marker) && permitted then
        ({ K with authority := some (.ready marker) }, .ready)
      else (K, .authorityUnavailable)

end LlmTemporalWorker.Budget
