import Switchboard.Rpc.Codec

/-! Messages as frames: what a message says of itself goes into headers, its body through a codec. -/
namespace Switchboard.Rpc

namespace Header

/-- An empty value leaves the header as it is. -/
def set (h : Dict String) (key value : String) : Dict String :=
  if value = "" then h else h.insert key value

/-- The header speaks where the message is silent. -/
def fill (h : Dict String) (key value : String) : String :=
  if value = "" then h.getD key "" else value

end Header

/-- A codec, and the stream that written messages belong to. -/
structure Envelope where
  codec : Codec
  stream : Option String := none
deriving DecidableEq

namespace Envelope

def header (e : Envelope) (m : Message) : Dict String :=
  let h := m.header
  let h := Header.set h Header.id m.id
  let h := Header.set h Header.service m.target
  let h := Header.set h Header.method m.method
  let h := Header.set h Header.endpoint m.endpoint
  let h := Header.set h Header.error m.error
  Header.set h Header.stream (e.stream.getD "")

def write (e : Envelope) (m : Message) : Except CallError Frame := do
  let body ← e.codec.marshal m
  pure ⟨e.header m, body⟩

/-- What the body does not say is taken from the headers; a message without an endpoint is meant for
the endpoint of its method's name. -/
def addHeader (h : Dict String) (m : Message) : Message :=
  let method := Header.fill h Header.method m.method
  let endpoint := Header.fill h Header.endpoint m.endpoint
  { m with
    id := Header.fill h Header.id m.id
    target := Header.fill h Header.service m.target
    method
    endpoint := if endpoint = "" then method else endpoint
    error := Header.fill h Header.error m.error
    header := h }

def read (e : Envelope) (f : Frame) (kind : MessageKind) : Except CallError Message :=
  match e.codec.unmarshal f.body { kind } with
  | (_, some fault) => .error fault
  | (m, none) => .ok (addHeader f.header m)

end Envelope
end Switchboard.Rpc
