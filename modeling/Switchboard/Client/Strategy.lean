import Switchboard.Discovery.Service
import Switchboard.Rpc.Error

/-! Strategies order the nodes of a service for the attempts of a call. -/
namespace Switchboard.Client

open Discovery (Node Service)
open Rpc (CallError)

/-- The node of each attempt, counted from zero. -/
abbrev Next := Nat → Except CallError Node

/-- `select` is given the random numbers it may use. -/
structure Strategy where
  name : String
  select : (Nat → Nat) → List Service → Next

namespace Strategy

def nodes (ss : List Service) : List Node := ss.flatMap (·.nodes)

def serviceName (ss : List Service) : String := (ss.head?.map (·.name)).getD ""

/-- The node at a place counted round the list. -/
def pick (ss : List Service) (i : Nat) : Except CallError Node :=
  match (nodes ss)[i % (nodes ss).length]? with
  | some n => .ok n
  | none => .error (.noneAvailable (serviceName ss))

/-- Any node each time. -/
def random : Strategy := ⟨"random", fun choose ss k => pick ss (choose k)⟩

/-- Every node in turn from a random place on; the place is counted in 64 bits. -/
def roundRobin : Strategy :=
  ⟨"round_robin", fun choose ss k => pick ss (UInt64.ofNat (choose 0) + UInt64.ofNat k).toNat⟩

end Strategy

/-- The strategies that have a name in a configuration. -/
inductive StrategyKind
  | random
  | roundRobin
deriving DecidableEq

namespace StrategyKind

def strategy : StrategyKind → Strategy
  | random => .random
  | roundRobin => .roundRobin

def name (k : StrategyKind) : String := k.strategy.name

def ofName? (s : String) : Option StrategyKind := [random, roundRobin].find? (·.name = s)

/-- Also takes the second name of round robin. -/
def parse (s : String) : Except CallError StrategyKind :=
  if s = "random" then .ok random
  else if s = "round_robin" ∨ s = "roundrobin" then .ok roundRobin
  else .error (.invalidConfiguration ("unknown selector strategy " ++ Text.quoted s))

end StrategyKind
end Switchboard.Client
