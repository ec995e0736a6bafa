import Switchboard.Client.Policy
import Switchboard.Client.Selector

/-! What a single call is told: where to go, how often to try, how long to wait. -/
namespace Switchboard.Client

structure Options where
  /-- Fixed addresses; a call with any goes to no other node. -/
  addresses : List String := []
  /-- Attempts after the first. -/
  retries : UInt32 := 5
  backoff : Backoff := exponentialBackoff
  retry : RetryPolicy := retryOnError
  requestTimeout : Duration := Duration.seconds 30
  streamTimeout : Duration := Duration.seconds 30
  dialTimeout : Duration := Duration.seconds 5
  /-- How long a response is kept for calls that ask the same. -/
  cacheFor : Option Duration := none
  selection : SelectOptions := {}

def Options.debugText (o : Options) : String :=
  Text.structText "CallOptions" [
    ("address", Text.listText (o.addresses.map Text.quoted)),
    ("retries", toString o.retries.toNat),
    ("request_timeout", o.requestTimeout.text),
    ("stream_timeout", o.streamTimeout.text),
    ("dial_timeout", o.dialTimeout.text),
    ("cache_expiry", Text.optionText (o.cacheFor.map Duration.text)),
    ("select_options", o.selection.debugText)]

end Switchboard.Client
