import Switchboard.Client.Exchange

/-! Streams of messages on a connection of their own. The first failure ends a stream for good. -/
namespace Switchboard.Client

open Rpc

/-- What has been agreed on with a node that a stream was opened to. -/
structure Channel where
  agreement : Agreement
  connection : Nat
  address : String
  timeout : Duration

structure Stream where
  id : String
  context : Context
  service : String
  endpoint : String
  header : Dict String
  envelope : Envelope
  connection : Nat
  address : String
  timeout : Duration
  /-- The number of messages sent. -/
  sent : UInt64 := 0
  failure : Option CallError := none

/-- What waiting for a message of a stream comes to. -/
inductive StreamArrival
  | ended (e : CallError)
  | arrived (a : Arrival)

namespace Stream

/-- A stream has a context of its own, which ends with its caller's. -/
def new (id : String) (context : Context) (r : Request) (ch : Channel) : Stream where
  id
  context
  service := r.service
  endpoint := r.endpoint
  header := ch.agreement.header
  envelope := { ch.agreement.envelope with stream := some id }
  connection := ch.connection
  address := ch.address
  timeout := ch.timeout

def fail (s : Stream) (e : CallError) : Stream := { s with failure := some e }

/-- The stream after a failed operation, and the error of that operation. -/
def refuse {α : Type} (s : Stream) (e : CallError) : Stream × Except CallError α := (s.fail e, .error e)

def message (s : Stream) (body : Bytes) : Message where
  id := toString s.sent.toNat
  target := s.service
  method := s.endpoint
  endpoint := s.endpoint
  header := s.header
  body

/-- The frame that carries a message, unless the stream has ended. -/
def outgoing (s : Stream) (check : Except CallError Unit) (body : Bytes) : Stream × Except CallError Frame :=
  match s.failure with
  | some e => (s, .error e)
  | none =>
    match check with
    | .error e => s.refuse e
    | .ok () =>
      let s := { s with sent := s.sent + 1 }
      match s.envelope.write (s.message body) with
      | .ok f => (s, .ok f)
      | .error e => s.refuse e

def delivered (s : Stream) : Except Transport.Error Unit → Stream × Except CallError Unit
  | .ok () => (s, .ok ())
  | .error e => s.refuse (connectionError e)

def accept (s : Stream) (m : Message) : Stream × Except CallError Response :=
  if m.error = "" then (s, .ok ⟨m.header, m.body⟩)
  else if m.error = endOfStream then s.refuse .streamClosed
  else s.refuse (.rpc (.parse m.error))

def received (s : Stream) : StreamArrival → Stream × Except CallError Response
  | .ended e => s.refuse e
  | .arrived (.failed e) => s.refuse (connectionError e)
  | .arrived .timedOut => s.refuse (streamTimeoutError s.timeout)
  | .arrived (.frame f) =>
    match s.envelope.read f .response with
    | .error e => s.refuse e
    | .ok m => s.accept m

/-- Ends the stream and its own context; the connection is to be closed. -/
def close (s : Stream) (c : Cancellation) : Cancellation × Stream :=
  (c.cancel s.context.token, { s with failure := some (s.failure.getD .streamClosed) })

def debugText (s : Stream) : String :=
  Text.structText "RpcStream" [("id", Text.quoted s.id), ("service", Text.quoted s.service),
    ("endpoint", Text.quoted s.endpoint), ("remote", Text.quoted s.address),
    ("err", Text.optionText (s.failure.map CallError.debugText))]

end Stream
end Switchboard.Client
