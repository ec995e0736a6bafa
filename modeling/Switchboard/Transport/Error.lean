/-! What can go wrong on a connection. -/
namespace Switchboard.Transport

/-- What is wrong with a frame. -/
inductive FrameFault
  | tooLarge (size : Nat)
  | badHeader
  | other (text : String)
deriving DecidableEq

def FrameFault.message : FrameFault → String
  | tooLarge size => "block of " ++ toString size ++ " bytes too large"
  | badHeader => "header block is not a JSON map of strings"
  | other text => text

inductive Error
  | dial (address reason : String)
  | dialTimeout (address : String)
  | io (text : String)
  | closed
  | frame (fault : FrameFault)
deriving DecidableEq

instance : Inhabited Error := ⟨.closed⟩

/-- How the system names an input or output failure. -/
inductive IoKind
  | endOfFile
  | reset
  | brokenPipe
  | other
deriving DecidableEq

namespace Error

/-- The name of an error, without its text. -/
def kind : Error → String
  | dial _ _ => "Dial"
  | dialTimeout _ => "DialTimeout"
  | io _ => "Io"
  | closed => "Closed"
  | frame _ => "Frame"

def message : Error → String
  | dial address reason => "dial " ++ address ++ ": " ++ reason
  | dialTimeout address => "dial " ++ address ++ ": timed out"
  | io text => "IO error: " ++ text
  | closed => "connection closed"
  | frame fault => "invalid frame: " ++ fault.message

/-- A peer that is gone is a closed connection, however the system puts it. -/
def ofIo (kind : IoKind) (text : String) : Error :=
  match kind with
  | .other => io text
  | _ => closed

end Error
end Switchboard.Transport
