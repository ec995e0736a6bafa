import Switchboard.Client.Context
import Switchboard.Rpc.Request

/-! Which failures are worth another attempt, and how long to wait before it. -/
namespace Switchboard.Client

open Rpc (CallError Request)

/-- The wait after an attempt, by its number. -/
abbrev Backoff := UInt32 → Duration

/-- Whether to go on after an attempt's failure; a policy may fail itself. -/
abbrev RetryPolicy := Context → Request → UInt32 → CallError → Except CallError Bool

def euler : Float := 2.718281828459045

def maxMillis : Nat := Nat.pow 2 64 - 1

/-- `n ^ e` tenths of a second after attempt `n`, the power cut to a whole number. -/
def exponentialBackoff : Backoff := fun attempt =>
  if attempt = 0 then 0
  else min (((Float.ofNat attempt.toNat).pow euler).toUInt64.toNat * 100) maxMillis

/-- Timeouts and internal errors. -/
def retryOnError : RetryPolicy := fun _ _ _ e => .ok (e.code? == some 408 || e.code? == some 500)

def retryAlways : RetryPolicy := fun _ _ _ _ => .ok true

/-- Any failure whose name is among the given ones. -/
def retryKinds (kinds : List String) : RetryPolicy := fun _ _ _ e => .ok (kinds.contains e.kind)

/-- A policy that cannot decide. -/
def retryFails (failure : CallError) : RetryPolicy := fun _ _ _ _ => .error failure

/-- The wait at each attempt's place; the last one also for all attempts after it. -/
def scheduledBackoff (waits : List Duration) : Backoff := fun attempt =>
  (waits[attempt.toNat]? <|> waits.getLast?).getD 0

end Switchboard.Client
