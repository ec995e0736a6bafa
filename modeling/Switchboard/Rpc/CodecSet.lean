import Switchboard.Discovery.Service
import Switchboard.Rpc.CodecTable

/-! Which codec a content type stands for, and which one a node understands. -/
namespace Switchboard.Rpc

open Discovery (Node)

/-- Registered codecs go before the built-in ones. -/
structure CodecSet where
  custom : CodecTable := .empty
  modern : CodecTable := .modern
  legacy : CodecTable := .legacy

namespace CodecSet

def protocolKey : String := "protocol"

def register (s : CodecSet) (contentType : String) (c : Codec) : CodecSet :=
  { s with custom := s.custom.register contentType c }

def codecFor (s : CodecSet) (contentType : String) : Except CallError Codec :=
  match s.custom.get? contentType with
  | some c => .ok c
  | none =>
    match s.modern.get? contentType with
    | some c => .ok c
    | none => .error (.unsupportedContentType contentType)

def hasProtocol (n : Node) : Bool := n.metadata.getD protocolKey "" != ""

/-- The name that an older node knows a content type by. -/
def legacyType (contentType : String) : String :=
  if contentType = "application/json" then "application/json-rpc"
  else if contentType = "application/protobuf" then "application/proto-rpc"
  else contentType

def contentType (h : Dict String) : String := h.getD Header.contentType defaultContentType

/-- The headers to send to a node, with the content type it will see, and the codec to go with them. -/
def negotiate (s : CodecSet) (h : Dict String) (n : Node) : Except CallError (Dict String × Codec) := do
  let type := contentType h
  let codec ← s.codecFor type
  if hasProtocol n then pure (h.insert Header.contentType type, codec)
  else pure (h.insert Header.contentType (legacyType type), (s.legacy.get? (legacyType type)).getD codec)

def debugText (s : CodecSet) : String :=
  Text.structText "CodecSet" [("custom", s.custom.debugText), ("modern", s.modern.debugText),
    ("legacy", s.legacy.debugText)]

end CodecSet
end Switchboard.Rpc
