import Switchboard.Client.Options
import Switchboard.Rpc.CodecSet
import Switchboard.Rpc.Envelope
import Switchboard.Transport.Error

/-! One exchange of frames with a node: what is sent, and what is made of the answer. -/
namespace Switchboard.Client

open Discovery (Node)
open Rpc

/-- Who reports failures that no remote node reported. -/
def reporter : String := "meshrpc.client"

/-- Failures of the transport count as internal errors. -/
def connectionError (e : Transport.Error) : CallError :=
  .rpc (.internalServerError reporter ("connection error: " ++ e.message))

def requestTimeoutError (d : Duration) : CallError :=
  .rpc (.timeout reporter ("request timeout after " ++ toString d ++ "ms"))

def streamTimeoutError (d : Duration) : CallError :=
  .rpc (.timeout reporter ("stream receive timeout after " ++ toString d ++ "ms"))

/-- What came of waiting for a frame. -/
inductive Arrival
  | frame (f : Frame)
  | failed (e : Transport.Error)
  | timedOut
deriving DecidableEq

/-- Headers for a node, and the envelope that it understands. -/
structure Agreement where
  header : Dict String
  envelope : Envelope
deriving DecidableEq

/-- A frame that is ready to be sent, and how long to wait for the answer. -/
structure Outgoing where
  frame : Frame
  envelope : Envelope
  timeout : Duration
deriving DecidableEq

namespace Exchange

/-- Content type and timeout are the client's to say, whatever the headers said before. -/
def agree (codecs : CodecSet) (r : Request) (n : Node) (h : Dict String) (timeout : Duration) :
    Except CallError Agreement := do
  let h := (h.insert Header.contentType r.contentType).insert Header.timeout (toString timeout)
  let (header, codec) ← codecs.negotiate h n
  pure ⟨header, ⟨codec, none⟩⟩

def message (id : UInt64) (r : Request) (h : Dict String) : Message where
  id := toString id.toNat
  target := r.service
  method := r.endpoint
  endpoint := r.endpoint
  header := h
  body := r.body

def timeout (ctx : Context) (now : Instant) (o : Options) : Duration :=
  match ctx.remaining now with
  | some d => min d o.requestTimeout
  | none => o.requestTimeout

/-- The frame to send. A number is used up once a codec is agreed on. -/
def outgoing (codecs : CodecSet) (id : UInt64) (r : Request) (n : Node) (h : Dict String) (timeout : Duration) :
    UInt64 × Except CallError Outgoing :=
  match agree codecs r n h timeout with
  | .error e => (id, .error e)
  | .ok a => (id + 1, (a.envelope.write (message id r a.header)).map fun frame => ⟨frame, a.envelope, timeout⟩)

/-- The decoded answer. A connection stays usable exactly when there is one. -/
def decode (out : Outgoing) : Arrival → Except CallError Message
  | .frame f => out.envelope.read f .response
  | .failed e => .error (connectionError e)
  | .timedOut => .error (requestTimeoutError out.timeout)

/-- The error that an answer carries, or its content. -/
def accept (m : Message) : Except CallError Response :=
  if m.error = "" then .ok ⟨m.header, m.body⟩ else .error (.rpc (.parse m.error))

end Exchange
end Switchboard.Client
