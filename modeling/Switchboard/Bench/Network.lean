import Switchboard.Rpc.Server
import Switchboard.Time

/-! Peers that do as they are told: how each dial ends, and what comes back for each frame. -/
namespace Switchboard.Bench

open Rpc

/-- A failure may name the address that was dialled. -/
structure DialPlan where
  delay : Duration := 0
  hangs : Bool := false
  failure : Option (String → Transport.Error) := none

/-- What a peer does with a frame. -/
inductive PeerPlan
  | refuse (e : Transport.Error)
  | silent
  | fail (delay : Duration) (e : Transport.Error)
  | reply (delay : Duration) (f : Frame)
  | handle (delay : Duration) (h : Handler)

/-- What waits for whoever receives next, and how long after. -/
abbrev Pending := Duration × Except Transport.Error Frame

def echo : Handler := fun m => .body m.body

/-- Connections are numbered as they are dialled. -/
structure Network where
  codecs : CodecSet := {}
  dials : List DialPlan := []
  plans : List PeerPlan := []
  lines : List (Nat × Pending) := []
  dialled : Nat := 0
  failClose : Bool := false
  /-- What peers do that are told nothing. -/
  usual : Handler := echo

namespace Network

/-- A dial that is not over in time is given up. -/
def outcome (p : DialPlan) (address : String) (timeout : Duration) : Duration × Except Transport.Error Unit :=
  if p.hangs || timeout < p.delay then (timeout, .error (.dialTimeout address))
  else match p.failure with
    | some e => (p.delay, .error (e address))
    | none => (p.delay, .ok ())

/-- The number of a connection, and when and how its dial ends. -/
def dial (n : Network) (address : String) (timeout : Duration) :
    Network × Nat × Duration × Except Transport.Error Unit :=
  ({ n with dials := n.dials.tail, dialled := n.dialled + 1 }, n.dialled,
    outcome (n.dials.headD {}) address timeout)

/-- A silent peer leaves nothing to receive. -/
def send (n : Network) (conn : Nat) (f : Frame) : Network × Except Transport.Error Unit :=
  let plan := n.plans.headD (.handle 0 n.usual)
  let n := { n with plans := n.plans.tail }
  let queue := fun p : Pending => ({ n with lines := n.lines ++ [(conn, p)] }, Except.ok ())
  match plan with
  | .refuse e => (n, .error e)
  | .silent => (n, .ok ())
  | .fail d e => queue (d, .error e)
  | .reply d r => queue (d, .ok r)
  | .handle d h => queue (d, .ok (Server.respond n.codecs h f))

/-- What the next receiver on a connection finds, who waits for ever without it. -/
def receive (n : Network) (conn : Nat) : Network × Option Pending :=
  match n.lines.find? (·.1 == conn) with
  | some (_, p) => ({ n with lines := n.lines.eraseP (·.1 == conn) }, some p)
  | none => (n, none)

def close (n : Network) : Except Transport.Error Unit :=
  if n.failClose then .error (.io "scripted close failure") else .ok ()

end Network
end Switchboard.Bench
