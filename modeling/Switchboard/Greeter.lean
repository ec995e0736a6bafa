import Switchboard.Rpc.Server

/-! A node that greets by name and echoes. -/
namespace Switchboard.Greeter

open Json Rpc

def service : String := "greeter"

def readName : Reader String := fun d raw => do
  let fs ← Fields.read? ["name"] d raw
  fs.required 0 string?

def greeting (node name : String) : Bytes :=
  Bytes.ofString ("\x7b\"msg\":" ++ quote ("Hello " ++ name) ++ ",\"node\":" ++ quote node ++ "\x7d")

def hello (node : String) (m : Message) : Reply :=
  match parseAs? readName m.body with
  | some name => .body (greeting node name)
  | none => .error (.badRequest service Malformed.notJson.message)

/-- Says everything back until told goodbye. -/
def echo (m : Message) : Reply :=
  if m.body = Bytes.ofString "\"bye\"" then .endOfStream else .body m.body

def handle (node : String) : Handler := fun m =>
  if m.endpoint = "Greeter.Hello" then hello node m
  else if m.endpoint = "Greeter.Echo" then echo m
  else .error (.notFound service ("unknown endpoint " ++ m.endpoint))

end Switchboard.Greeter
