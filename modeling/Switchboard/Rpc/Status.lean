import Switchboard.Json.Record
import Switchboard.Text.Quoted

/-! Status errors that travel between nodes as JSON text. -/
namespace Switchboard.Rpc

open Json

structure Status where
  id : String := ""
  code : Int32 := 0
  detail : String := ""
  status : String := ""
deriving DecidableEq

namespace Status

/-- The usual name of a code, empty for a code without one. -/
def codeName (code : Int32) : String :=
  if code = 400 then "Bad Request"
  else if code = 401 then "Unauthorized"
  else if code = 403 then "Forbidden"
  else if code = 404 then "Not Found"
  else if code = 405 then "Method Not Allowed"
  else if code = 408 then "Request Timeout"
  else if code = 409 then "Conflict"
  else if code = 500 then "Internal Server Error"
  else ""

def new (id detail : String) (code : Int32) : Status := ⟨id, code, detail, codeName code⟩

def badRequest (id detail : String) : Status := new id detail 400
def unauthorized (id detail : String) : Status := new id detail 401
def forbidden (id detail : String) : Status := new id detail 403
def notFound (id detail : String) : Status := new id detail 404
def methodNotAllowed (id detail : String) : Status := new id detail 405
def timeout (id detail : String) : Status := new id detail 408
def conflict (id detail : String) : Status := new id detail 409
def internalServerError (id detail : String) : Status := new id detail 500

def text (s : Status) : String :=
  "\x7b\"id\":" ++ quote s.id ++ ",\"code\":" ++ toString s.code.toInt ++ ",\"detail\":" ++
    quote s.detail ++ ",\"status\":" ++ quote s.status ++ "\x7d"

def code? (raw : Bytes) : Option Int32 :=
  (int? raw).bind fun n => if -2147483648 ≤ n ∧ n ≤ 2147483647 then some (Int32.ofInt n) else none

def read : Reader Status := fun d raw => do
  let fs ← Fields.read? ["id", "code", "detail", "status"] d raw
  let id ← fs.withDefault 0 "" string?
  let code ← fs.withDefault 1 0 code?
  let detail ← fs.withDefault 2 "" string?
  let status ← fs.withDefault 3 "" string?
  pure ⟨id, code, detail, status⟩

/-- Text that is no status error is taken as the detail of one. -/
def parse (text : String) : Status := (parseAs? read (Bytes.ofString text)).getD { detail := text }

def debugText (s : Status) : String :=
  Text.structText "RpcError" [("id", Text.quoted s.id), ("code", toString s.code.toInt),
    ("detail", Text.quoted s.detail), ("status", Text.quoted s.status)]

end Status
end Switchboard.Rpc
