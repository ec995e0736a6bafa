import Switchboard.Bench.Network
import Switchboard.Client.Pool

/-! A pool over scripted dials, with a log of dials and closes. -/
namespace Switchboard.Bench

open Client Rpc

/-- `given` lists connections in the order in which they were first handed out. -/
structure PoolRun where
  pool : Pool
  network : Network := {}
  now : Instant := 0
  given : List Nat := []
  echoes : List (Nat × Frame) := []
  log : List String := []

namespace PoolRun

def write (r : PoolRun) (line : String) : PoolRun := { r with log := r.log ++ [line] }

def close (r : PoolRun) (c : Connection) : PoolRun := r.write ("close " ++ toString c.id)

def hand (r : PoolRun) (c : Connection) : PoolRun :=
  if r.given.contains c.id then r else { r with given := r.given ++ [c.id] }

def acquire (r : PoolRun) (address : String) (stream : Bool) (timeout : Duration) :
    PoolRun × Except Transport.Error Connection :=
  let (pool, got) := r.pool.acquire r.now address
  let r := got.expired.foldl close { r with pool }
  match got.found with
  | some c => (r.hand c, .ok c)
  | none =>
    let (network, number, d, result) := r.network.dial address timeout
    let r := r.write ("dial " ++ toString number ++ " " ++ address ++ " stream=" ++ toString stream ++
      " timeout=" ++ toString timeout)
    let r := { r with network, now := r.now + d }
    let c : Connection := ⟨number, address, r.now⟩
    match result with
    | .ok () => (r.hand c, .ok c)
    | .error e => (r, .error e)

def release (r : PoolRun) (c : Connection) (failed : Bool) : PoolRun :=
  let (pool, discarded) := r.pool.release c failed
  discarded.toList.foldl close { r with pool }

def send (r : PoolRun) (c : Connection) (f : Frame) : PoolRun :=
  { r with echoes := (c.id, f) :: r.echoes.filter (·.1 != c.id) }

def receive (r : PoolRun) (c : Connection) : PoolRun × Except Transport.Error Frame :=
  match r.echoes.lookup c.id with
  | some f => ({ r with echoes := r.echoes.filter (·.1 != c.id) }, .ok f)
  | none => (r, .error .closed)

def drain (r : PoolRun) : PoolRun × Except Transport.Error Unit :=
  let (pool, cs) := r.pool.drain
  let r := cs.foldl close { r with pool }
  (r, Pool.outcome (cs.map fun _ => r.network.close))

end PoolRun
end Switchboard.Bench
