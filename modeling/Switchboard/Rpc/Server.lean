import Switchboard.Rpc.CodecSet
import Switchboard.Rpc.Envelope
import Switchboard.Transport.Error

/-! The answering side of a call: one reply to each frame, in the encoding the frame came in. -/
namespace Switchboard.Rpc

/-- What a handler has to say to a request. -/
inductive Reply
  | body (b : Bytes)
  | error (s : Status)
  | endOfStream
deriving DecidableEq

abbrev Handler := Message → Reply

namespace Server

/-- Who reports the faults of a request. -/
def name : String := "meshrpc.server"

/-- An error that any caller can read: in the headers, with no body. -/
def refusal (contentType : String) (s : Status) : Frame where
  header := Header.set (Dict.empty.insert Header.contentType contentType) Header.error s.text

def response (contentType : String) (request : Message) (reply : Reply) : Message :=
  let m : Message := { request with
    error := ""
    header := Dict.empty.insert Header.contentType contentType
    body := []
    kind := .response }
  match reply with
  | .body body => { m with body }
  | .error s => { m with error := s.text, kind := .error }
  | .endOfStream => { m with error := endOfStream, kind := .error }

/-- The request that a frame holds, with the envelope to answer in. -/
def request? (codecs : CodecSet) (f : Frame) : Except CallError (Envelope × Message) := do
  let codec ← codecs.codecFor (CodecSet.contentType f.header)
  let envelope : Envelope := ⟨codec, f.header.get? Header.stream⟩
  let m ← envelope.read f .request
  pure (envelope, m)

def respond (codecs : CodecSet) (handler : Handler) (f : Frame) : Frame :=
  let type := CodecSet.contentType f.header
  match request? codecs f with
  | .error e => refusal type (.badRequest name e.message)
  | .ok (envelope, m) =>
    match envelope.write (response type m (handler m)) with
    | .ok reply => reply
    | .error e => refusal type (.internalServerError name e.message)

/-- Answers what a connection brings until the peer hangs up: the replies sent and how it ended.
`refuse` says which sends fail. -/
def serve (codecs : CodecSet) (handler : Handler) (refuse : Nat → Option Transport.Error) :
    Nat → List (Except Transport.Error Frame) → List Frame × Except Transport.Error Unit
  | _, [] => ([], .ok ())
  | _, .error .closed :: _ => ([], .ok ())
  | _, .error e :: _ => ([], .error e)
  | n, .ok f :: fs =>
    match refuse n with
    | some e => ([], .error e)
    | none =>
      let (sent, result) := serve codecs handler refuse (n + 1) fs
      (respond codecs handler f :: sent, result)

end Server
end Switchboard.Rpc
