import Switchboard.Discovery.Service

/-! Filters narrow down the services that a call may go to. -/
namespace Switchboard.Client

open Discovery (Service)

inductive Filter
  | endpoint (name : String)
  | label (key value : String)
  | version (v : String)
  | custom (f : List Service → List Service)

namespace Filter

def hasEndpoint (name : String) (s : Service) : Bool := s.endpoints.any (·.name == name)

/-- The service with the nodes that carry a label, if there are any. -/
def labelled? (key value : String) (s : Service) : Option Service :=
  let nodes := s.nodes.filter fun n => n.metadata.get? key == some value
  if nodes.isEmpty then none else some { s with nodes }

def apply : Filter → List Service → List Service
  | endpoint name, ss => ss.filter (hasEndpoint name)
  | label key value, ss => ss.filterMap (labelled? key value)
  | version v, ss => ss.filter (·.version == v)
  | custom f, ss => f ss

def applyAll (fs : List Filter) (ss : List Service) : List Service := fs.foldl (fun ss f => f.apply ss) ss

end Filter
end Switchboard.Client
