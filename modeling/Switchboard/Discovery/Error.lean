/-! What can go wrong between a client and a registry. -/
namespace Switchboard.Discovery

inductive Error
  | serviceNotFound (name : String)
  | watcherStopped
  | unavailable (reason : String)
  | invalidConfiguration (reason : String)
  | internal (reason : String)
deriving DecidableEq, Inhabited

/-- The name of an error, without its text. -/
def Error.kind : Error → String
  | serviceNotFound _ => "ServiceNotFound"
  | watcherStopped => "WatcherStopped"
  | unavailable _ => "Unavailable"
  | invalidConfiguration _ => "InvalidConfiguration"
  | internal _ => "Internal"

def Error.message : Error → String
  | serviceNotFound name => "Service not found: " ++ name
  | watcherStopped => "Watcher stopped"
  | unavailable reason => "Registry unavailable: " ++ reason
  | invalidConfiguration reason => "Invalid service configuration: " ++ reason
  | internal reason => "Internal error: " ++ reason

end Switchboard.Discovery
