import Switchboard.Client.Filter
import Switchboard.Client.Strategy

/-! From the services that a lookup found to the nodes of a call's attempts. -/
namespace Switchboard.Client

open Discovery (Service)
open Rpc (CallError)

structure SelectOptions where
  filters : List Filter := []
  strategy : Option Strategy := none

namespace SelectOptions

def debugText (o : SelectOptions) : String :=
  Text.structText "SelectOptions" [("filters", toString o.filters.length),
    ("strategy", Text.optionText (o.strategy.map fun s => Text.quoted s.name))]

end SelectOptions

namespace Selector

def name : String := "registry"

/-- `usual` is the strategy of a call that names none. -/
def select (usual : Strategy) (choose : Nat → Nat) (service : String) (o : SelectOptions)
    (found : Except Discovery.Error (List Service)) : Except CallError Next :=
  match found with
  | .error (.serviceNotFound _) => .error (.notFound service)
  | .error e => .error (.registry e)
  | .ok [] => .error (.notFound service)
  | .ok ss =>
    let left := Filter.applyAll o.filters ss
    if left.all (·.nodes.isEmpty) then .error (.noneAvailable service)
    else .ok ((o.strategy.getD usual).select choose left)

end Selector
end Switchboard.Client
