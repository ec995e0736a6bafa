import Switchboard.Dict
import Switchboard.Time
import Switchboard.Transport.Error

/-! Idle connections by address, the one released last first. -/
namespace Switchboard.Client

structure Connection where
  id : Nat
  address : String
  created : Instant
deriving DecidableEq

structure Pool where
  size : Nat
  ttl : Duration
  idle : Dict (List Connection) := .empty

/-- What a caller gets: connections that are too old and have to be closed, and one to use if any is left. -/
structure Acquired where
  expired : List Connection
  found : Option Connection
deriving DecidableEq

namespace Pool

def defaultSize : Nat := 100

def defaultTtl : Duration := Duration.seconds 60

def idleAt (p : Pool) (address : String) : List Connection := p.idle.getD address []

def idleCount (p : Pool) (address : String) : Nat := (p.idleAt address).length

def isExpired (p : Pool) (now : Instant) (c : Connection) : Bool := p.ttl ≤ now - c.created

/-- A connection's age counts from its making, however often it was used. -/
def acquire (p : Pool) (now : Instant) (address : String) : Pool × Acquired :=
  let cs := p.idleAt address
  let rest := cs.dropWhile (p.isExpired now)
  ({ p with idle := p.idle.insert address rest.tail }, ⟨cs.takeWhile (p.isExpired now), rest.head?⟩)

/-- Takes a connection back, or gives it out to be closed when it failed or there is no room. -/
def release (p : Pool) (c : Connection) (failed : Bool) : Pool × Option Connection :=
  let cs := p.idleAt c.address
  if !failed && cs.length < p.size then ({ p with idle := p.idle.insert c.address (c :: cs) }, none)
  else (p, some c)

/-- Every idle connection, to be closed. -/
def drain (p : Pool) : Pool × List Connection :=
  ({ p with idle := .empty }, p.idle.values.flatMap List.reverse)

/-- What comes of closing connections one after another: the last failure, if any of them failed. -/
def outcome (ends : List (Except Transport.Error Unit)) : Except Transport.Error Unit :=
  ends.foldl (fun result e => match e with
    | .ok () => result
    | .error x => .error x) (.ok ())

end Pool
end Switchboard.Client
