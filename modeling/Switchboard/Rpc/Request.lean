import Switchboard.Json.Value
import Switchboard.Rpc.Error
import Switchboard.Rpc.Message

/-! Calls as their caller states them, and what comes back. -/
namespace Switchboard.Rpc

structure Request where
  service : String
  endpoint : String
  body : Bytes
  contentType : String := defaultContentType
  stream : Bool := false
  header : Dict String := .empty
deriving DecidableEq

structure Response where
  header : Dict String := .empty
  body : Bytes := []
deriving DecidableEq

namespace Request

def json (service endpoint : String) (payload : Json.Value) : Request :=
  { service, endpoint, body := Bytes.ofString payload.text }

end Request

namespace Response

def contentType? (r : Response) : Option String := r.header.get? Header.contentType

def json? (r : Response) : Except CallError Json.Value :=
  match Json.Value.parse? r.body with
  | some v => .ok v
  | none => .error (.codec .notJson)

end Response
end Switchboard.Rpc
