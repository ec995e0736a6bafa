import Switchboard.Client.Exchange
import Switchboard.Client.Pool
import Switchboard.Client.Retry
import Switchboard.Client.Stream
import Switchboard.Client.Wrapper

/-! A call as it goes on: choosing nodes, then attempt after attempt to a response or an open stream. -/
namespace Switchboard.Client

open Discovery (Node)
open Rpc

/-- What a successful call gives. -/
inductive Outcome
  | response (r : Response)
  | channel (c : Channel)

/-- An attempt under way; a stream has nothing to send yet. -/
structure Attempt where
  node : Node
  info : AttemptInfo
  outgoing : Outgoing ⊕ Agreement

inductive Stage
  | fresh
  | selecting
  | looping (loop : Retry Outcome)
  | dialling (loop : Retry Outcome) (a : Attempt)
  | exchanging (loop : Retry Outcome) (a : Attempt) (out : Outgoing) (conn : Connection)
  | judging (loop : Retry Outcome) (info : AttemptInfo) (result : Except CallError Outcome)
  | done (result : Except CallError Outcome)

structure Call where
  context : Context
  request : Request
  options : Options
  /-- Whether the call is to open a stream. -/
  opens : Bool := false
  next : Next
  stage : Stage := .fresh

/-- What happens to a call. -/
inductive CallEvent
  | proceed
  | selected (next : Except CallError Next)
  | dialled (result : Except Transport.Error Nat)
  | arrived (a : Arrival)

/-- What a call wants done; asking for nodes, dialling and exchanging are answered by an event. -/
inductive Action
  | select (service : String) (options : SelectOptions)
  | close (conn : Connection)
  | dial (address : String) (stream : Bool) (timeout : Duration)
  | exchange (conn : Connection) (frame : Frame) (timeout : Duration)
  | note (n : RetryNote)

namespace Call

/-- A call that has not begun, and knows of no nodes yet. -/
def new (context : Context) (request : Request) (options : Options) (opens : Bool) : Call where
  context
  request
  options
  opens
  next := fun _ => .error (.noneAvailable request.service)

def rules (c : Call) : RetryRules where
  retries := c.options.retries
  retry := c.options.retry c.context c.request
  backoff := c.options.backoff
  next := c.next

/-- The nodes of fixed addresses; they are taken to name a protocol. -/
def fixedService (service : String) (addresses : List String) : Discovery.Service where
  name := service
  version := ""
  nodes := addresses.map fun a => ⟨a, a, Dict.empty.insert CodecSet.protocolKey "mucp"⟩

/-- What the hooks of an attempt start from: headers of the request go before those of the context. -/
def info (c : Call) (now : Instant) (n : Node) (attempt : UInt32) : AttemptInfo where
  service := c.request.service
  endpoint := c.request.endpoint
  address := n.address
  attempt
  headers := c.context.metadata.union c.request.header
  started := now

def notStreaming (r : Request) : CallError :=
  .invalidConfiguration (r.service ++ " " ++ r.endpoint ++ " is not a streaming request")

def result? (c : Call) : Option (Except CallError Outcome) :=
  match c.stage with
  | .done r => some r
  | _ => none

/-- When a pause of the call ends. -/
def pauseEnd? (c : Call) : Option Instant :=
  match c.stage with
  | .looping { phase := .pausing t, .. } => some t
  | _ => none

end Call
end Switchboard.Client
