import Switchboard.Client.Strategy
import Switchboard.Time

/-! The loop around the attempts of a call: when to try again, and when to give up. -/
namespace Switchboard.Client

open Discovery (Node)
open Rpc (CallError)

/-- What a call lays down for its attempts. -/
structure RetryRules where
  retries : UInt32
  /-- Whether to go on after an attempt's failure. -/
  retry : UInt32 → CallError → Except CallError Bool
  backoff : UInt32 → Duration
  next : Next

inductive RetryPhase (α : Type)
  | ready
  | trying (node : Node)
  | pausing (ends : Instant)
  | done (result : Except CallError α)

structure Retry (α : Type) where
  attempt : UInt32 := 0
  phase : RetryPhase α := .ready

/-- What the loop has done that others may want to know, in this order. -/
inductive RetryNote
  | marked (node : Node) (failure : Option CallError)
  | asked (attempt : UInt32) (failure : CallError)
  | backedOff (attempt : UInt32)
deriving DecidableEq

namespace Retry
variable {α : Type}

def isFinal : CallError → Bool
  | .cancelled => true
  | .deadlineExceeded => true
  | _ => false

/-- Starts an attempt on a fresh node, unless the context has ended. -/
def start (rules : RetryRules) (check : Except CallError Unit) (r : Retry α) : Retry α :=
  match check with
  | .error e => { r with phase := .done (.error e) }
  | .ok () =>
    match rules.next r.attempt.toNat with
    | .error e => { r with phase := .done (.error e) }
    | .ok n => { r with phase := .trying n }

/-- After a failure that is neither final nor the last one allowed, the policy decides. -/
def afterFailure (rules : RetryRules) (now : Instant) (r : Retry α) (e : CallError) :
    Retry α × List RetryNote :=
  if isFinal e || rules.retries ≤ r.attempt then ({ r with phase := .done (.error e) }, [])
  else match rules.retry r.attempt e with
    | .error f => ({ r with phase := .done (.error f) }, [.asked r.attempt e])
    | .ok false => ({ r with phase := .done (.error e) }, [.asked r.attempt e])
    | .ok true =>
      let d := rules.backoff r.attempt
      (if d = 0 then ⟨r.attempt + 1, .ready⟩ else { r with phase := .pausing (now + d) },
        [.asked r.attempt e, .backedOff r.attempt])

/-- Takes the result of the attempt under way. -/
def finish (rules : RetryRules) (now : Instant) (r : Retry α) (result : Except CallError α) :
    Retry α × List RetryNote :=
  match r.phase with
  | .trying n =>
    match result with
    | .ok a => ({ r with phase := .done (.ok a) }, [.marked n none])
    | .error e =>
      let (r, notes) := afterFailure rules now r e
      (r, .marked n (some e) :: notes)
  | _ => (r, [])

/-- Ends a pause whose time is over or whose context has ended. -/
def wake (check : Except CallError Unit) (now : Instant) (r : Retry α) : Retry α :=
  match r.phase with
  | .pausing t =>
    match check with
    | .error e => { r with phase := .done (.error e) }
    | .ok () => if t ≤ now then ⟨r.attempt + 1, .ready⟩ else r
  | _ => r

end Retry
end Switchboard.Client
