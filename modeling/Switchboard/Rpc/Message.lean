import Switchboard.Bytes
import Switchboard.Dict

/-! Messages between a caller and a node, and the frames that carry them. -/
namespace Switchboard.Rpc

inductive MessageKind
  | error
  | request
  | response
  | event
deriving DecidableEq

namespace MessageKind

def word : MessageKind → String
  | error => "error"
  | request => "request"
  | response => "response"
  | event => "event"

def ofWord? (s : String) : Option MessageKind := [error, request, response, event].find? (·.word = s)

end MessageKind

structure Message where
  id : String := ""
  target : String := ""
  method : String := ""
  endpoint : String := ""
  error : String := ""
  header : Dict String := .empty
  body : Bytes := []
  kind : MessageKind := .request
deriving DecidableEq

structure Frame where
  header : Dict String := .empty
  body : Bytes := []
deriving DecidableEq

namespace Header

def id : String := "Micro-Id"
def service : String := "Micro-Service"
def method : String := "Micro-Method"
def endpoint : String := "Micro-Endpoint"
def error : String := "Micro-Error"
def stream : String := "Micro-Stream"
def contentType : String := "Content-Type"
def timeout : String := "Timeout"

end Header

def defaultContentType : String := "application/json"

/-- The error text that ends a stream. -/
def endOfStream : String := "EOS"

end Switchboard.Rpc
