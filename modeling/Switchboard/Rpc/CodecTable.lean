import Switchboard.Rpc.Codec

/-! Codecs by content type, with the two tables that are built in. -/
namespace Switchboard.Rpc

structure CodecTable where
  codecs : Dict Codec

namespace CodecTable

def empty : CodecTable := ⟨.empty⟩

def register (t : CodecTable) (contentType : String) (c : Codec) : CodecTable :=
  ⟨t.codecs.insert contentType c⟩

def get? (t : CodecTable) (contentType : String) : Option Codec := t.codecs.get? contentType

def isEmpty (t : CodecTable) : Bool := t.codecs.isEmpty

def ofList (xs : List (String × Codec)) : CodecTable := ⟨.ofList xs⟩

/-- For nodes that name a protocol. -/
def modern : CodecTable := ofList [
  ("application/grpc", .grpc),
  ("application/grpc+json", .grpc),
  ("application/grpc+proto", .grpc),
  ("application/protobuf", .proto),
  ("application/json", .json),
  ("application/json-rpc", .jsonRpc),
  ("application/proto-rpc", .protoRpc),
  ("application/octet-stream", .bytes)]

/-- For nodes that name no protocol. -/
def legacy : CodecTable := ofList [
  ("application/json", .jsonRpc),
  ("application/json-rpc", .jsonRpc),
  ("application/protobuf", .protoRpc),
  ("application/proto-rpc", .protoRpc),
  ("application/octet-stream", .protoRpc)]

def debugText (t : CodecTable) : String :=
  Text.mapText (t.codecs.entries.map fun (k, c) => (Text.quoted k, Text.quoted c.name))

end CodecTable
end Switchboard.Rpc
