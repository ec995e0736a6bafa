import Switchboard.Rpc.Error
import Switchboard.Rpc.Message

/-! The encodings of a message's body: as it is, as a JSON call, as length-prefixed fields, as a gRPC
message. -/
namespace Switchboard.Rpc

open Json

inductive Codec
  | json
  | jsonRpc
  | protoRpc
  | grpc
  | proto
  | bytes
deriving DecidableEq

/-! Calls and replies as JSON objects; the body is kept as it was written. -/

namespace JsonRpc

/-- The body as one JSON value, `null` when there is none. -/
def rawBody (body : Bytes) : Except Malformed Bytes :=
  if body.isEmpty then .ok (Bytes.ofString "null")
  else match Bytes.toString? body with
    | none => .error .notText
    | some _ =>
      match document? body with
      | some raw => .ok raw
      | none => .error .notJson

def isCall : MessageKind → Bool
  | .request => true
  | .event => true
  | _ => false

def marshal (m : Message) : Except Malformed Bytes := do
  let body ← rawBody m.body
  if isCall m.kind then
    pure (Bytes.ofString ("\x7b\"id\":" ++ quote m.id ++ ",\"method\":" ++ quote m.method ++ ",\"params\":[") ++
      body ++ Bytes.ofString "]\x7d")
  else if m.error.isEmpty then
    pure (Bytes.ofString ("\x7b\"id\":" ++ quote m.id ++ ",\"result\":") ++ body ++
      Bytes.ofString ",\"error\":null\x7d")
  else
    pure (Bytes.ofString ("\x7b\"id\":" ++ quote m.id ++ ",\"result\":null,\"error\":" ++ quote m.error ++ "\x7d"))

/-- A value that is kept as written has to be text. -/
def raw? (raw : Bytes) : Option Bytes := (Bytes.toString? raw).map fun _ => raw

def call : Reader (String × String × List Bytes)
  | 0, _ => none
  | d + 1, raw => do
    let fs ← Fields.read? ["id", "method", "params"] (d + 1) raw
    let id ← fs.withDefault 0 "" string?
    let method ← fs.withDefault 1 "" string?
    let params ← fs.required 2 (list (fun _ => raw?) d)
    pure (id, method, params)

def reply : Reader (String × Option Bytes × Option String)
  | 0, _ => none
  | d + 1, raw => do
    let fs ← Fields.read? ["id", "result", "error"] (d + 1) raw
    let id ← fs.withDefault 0 "" string?
    let result ← fs.nullable 1 raw?
    let error ← fs.withDefault 2 none (orNull (fun _ => string?) d)
    pure (id, result, error)

def unmarshal (data : Bytes) (m : Message) : Except Malformed Message :=
  if isCall m.kind then
    match parseAs? call data with
    | some (id, method, params) => .ok { m with id, method, body := params.headD [] }
    | none => .error .notJson
  else
    match parseAs? reply data with
    | some (id, result, error) => .ok { m with id, error := error.getD "", body := result.getD [] }
    | none => .error .notJson

end JsonRpc

/-! Three length-prefixed texts, then the body. -/

namespace ProtoRpc

def put (s : String) : Bytes :=
  let b := Bytes.ofString s
  Bytes.be32 b.length ++ b

def take : Bytes → Except Malformed (String × Bytes)
  | a :: b :: c :: d :: r =>
    let n := Bytes.word32 a b c d
    if r.length < n then .error .truncatedEnvelope
    else match Bytes.toString? (r.take n) with
      | some s => .ok (s, r.drop n)
      | none => .error .notText
  | _ => .error .truncatedEnvelope

def marshal (m : Message) : Bytes := put m.id ++ put m.method ++ put m.error ++ m.body

/-- Fields read before a fault stay in the message. -/
def unmarshal (data : Bytes) (m : Message) : Message × Option Malformed :=
  match take data with
  | .error e => (m, some e)
  | .ok (id, r) =>
    let m := { m with id }
    match take r with
    | .error e => (m, some e)
    | .ok (method, r) =>
      let m := { m with method }
      match take r with
      | .error e => (m, some e)
      | .ok (error, r) => ({ m with error, body := r }, none)

end ProtoRpc

/-! A flag, a length and the body. -/

namespace Grpc

def marshal (body : Bytes) : Bytes := 0 :: Bytes.be32 body.length ++ body

def unmarshal : Bytes → Except Malformed Bytes
  | flag :: a :: b :: c :: d :: r =>
    if flag ≠ 0 then .error .compressedMessage
    else
      let n := Bytes.word32 a b c d
      if r.length < n then .error .truncatedMessage else .ok (r.take n)
  | _ => .error .shortMessage

end Grpc

namespace Codec

def name : Codec → String
  | json => "json"
  | jsonRpc => "json-rpc"
  | protoRpc => "proto-rpc"
  | grpc => "grpc"
  | proto => "proto"
  | bytes => "bytes"

def all : List Codec := [json, jsonRpc, protoRpc, grpc, proto, bytes]

def ofName? (s : String) : Option Codec := all.find? (·.name = s)

def marshal (c : Codec) (m : Message) : Except CallError Bytes :=
  match c with
  | jsonRpc => (JsonRpc.marshal m).mapError .codec
  | protoRpc => .ok (ProtoRpc.marshal m)
  | grpc => .ok (Grpc.marshal m.body)
  | _ => .ok m.body

/-- The message with what could be read put into it, and the fault if there was one. The kind of the
message says what is expected. -/
def unmarshal (c : Codec) (data : Bytes) (m : Message) : Message × Option CallError :=
  match c with
  | jsonRpc =>
    match JsonRpc.unmarshal data m with
    | .ok m => (m, none)
    | .error e => (m, some (.codec e))
  | protoRpc =>
    let (m, e) := ProtoRpc.unmarshal data m
    (m, e.map .codec)
  | grpc =>
    match Grpc.unmarshal data with
    | .ok body => ({ m with body }, none)
    | .error e => (m, some (.codec e))
  | _ => ({ m with body := data }, none)

end Codec
end Switchboard.Rpc
