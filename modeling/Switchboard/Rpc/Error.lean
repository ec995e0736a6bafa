import Switchboard.Discovery.Error
import Switchboard.Rpc.Status

/-! What a call can fail with. -/
namespace Switchboard.Rpc

/-- What is wrong with an encoded message. -/
inductive Malformed
  | truncatedEnvelope
  | shortMessage
  | compressedMessage
  | truncatedMessage
  | notJson
  | notText
  | other (text : String)
deriving DecidableEq

def Malformed.message : Malformed → String
  | truncatedEnvelope => "truncated proto-rpc envelope"
  | shortMessage => "grpc message shorter than prefix"
  | compressedMessage => "compressed grpc messages are not supported"
  | truncatedMessage => "truncated grpc message"
  | notJson => "not a JSON document of the expected form"
  | notText => "not UTF-8 text"
  | other text => text

inductive CallError
  | notFound (service : String)
  | noneAvailable (service : String)
  | rpc (status : Status)
  | unsupportedContentType (contentType : String)
  | codec (cause : Malformed)
  | cancelled
  | deadlineExceeded
  | streamClosed
  | registry (e : Discovery.Error)
  | invalidConfiguration (reason : String)
deriving DecidableEq

namespace CallError

instance : Inhabited CallError := ⟨.cancelled⟩

def message : CallError → String
  | notFound service => "service " ++ service ++ ": not found"
  | noneAvailable service => "service " ++ service ++ ": none available"
  | rpc status => status.text
  | unsupportedContentType contentType => "unsupported Content-Type: " ++ contentType
  | codec cause => "Codec error: " ++ cause.message
  | cancelled => "call cancelled"
  | deadlineExceeded => "call deadline exceeded"
  | streamClosed => "stream closed"
  | registry e => "Registry error: " ++ e.message
  | invalidConfiguration reason => "Invalid client configuration: " ++ reason

def kind : CallError → String
  | notFound _ => "NotFound"
  | noneAvailable _ => "NoneAvailable"
  | rpc _ => "Rpc"
  | unsupportedContentType _ => "UnsupportedContentType"
  | codec _ => "Codec"
  | cancelled => "Cancelled"
  | deadlineExceeded => "DeadlineExceeded"
  | streamClosed => "StreamClosed"
  | registry _ => "Registry"
  | invalidConfiguration _ => "InvalidConfiguration"

/-- The status code, of an error that carries one. -/
def code? : CallError → Option Int32
  | rpc status => if status.code = 0 then none else some status.code
  | _ => none

def debugText : CallError → String
  | notFound service => "NotFound(" ++ Text.quoted service ++ ")"
  | noneAvailable service => "NoneAvailable(" ++ Text.quoted service ++ ")"
  | rpc status => "Rpc(" ++ status.debugText ++ ")"
  | unsupportedContentType contentType => "UnsupportedContentType(" ++ Text.quoted contentType ++ ")"
  | codec cause => "Codec(" ++ Text.quoted cause.message ++ ")"
  | cancelled => "Cancelled"
  | deadlineExceeded => "DeadlineExceeded"
  | streamClosed => "StreamClosed"
  | registry e => "Registry(" ++ registryText e ++ ")"
  | invalidConfiguration reason => "InvalidConfiguration(" ++ Text.quoted reason ++ ")"
where
  registryText : Discovery.Error → String
    | .serviceNotFound name => "ServiceNotFound(" ++ Text.quoted name ++ ")"
    | .watcherStopped => "WatcherStopped"
    | .unavailable reason => "Unavailable(" ++ Text.quoted reason ++ ")"
    | .invalidConfiguration reason => "InvalidConfiguration(" ++ Text.quoted reason ++ ")"
    | .internal reason => "Internal(" ++ Text.quoted reason ++ ")"

end CallError
end Switchboard.Rpc
