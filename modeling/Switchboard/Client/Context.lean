import Switchboard.Rpc.Error
import Switchboard.Time

/-! Contexts of calls: how long a call may run, who can cancel it, and what it sends along. -/
namespace Switchboard.Client

open Rpc (CallError)

/-- A token is known by its own number and the numbers of the tokens it descends from. -/
structure Token where
  own : Nat
  ancestors : List Nat := []
deriving DecidableEq

/-- The numbers given out so far, and those that were cancelled. -/
structure Cancellation where
  next : Nat := 0
  cancelled : List Nat := []

namespace Cancellation

def root (c : Cancellation) : Cancellation × Token := ({ c with next := c.next + 1 }, ⟨c.next, []⟩)

/-- A token that is cancelled together with the given one. -/
def child (c : Cancellation) (t : Token) : Cancellation × Token :=
  ({ c with next := c.next + 1 }, ⟨c.next, t.own :: t.ancestors⟩)

def cancel (c : Cancellation) (t : Token) : Cancellation := { c with cancelled := t.own :: c.cancelled }

def isCancelled (c : Cancellation) (t : Token) : Bool := (t.own :: t.ancestors).any c.cancelled.contains

end Cancellation

structure Context where
  token : Token
  deadline : Option Instant := none
  metadata : Dict String := .empty
deriving DecidableEq

namespace Context

def new (c : Cancellation) : Cancellation × Context :=
  let (c, token) := c.root
  (c, { token })

def withDeadline (ctx : Context) (t : Instant) : Context := { ctx with deadline := some t }

def withTimeout (ctx : Context) (now : Instant) (d : Duration) : Context := ctx.withDeadline (now + d)

def withMetadata (ctx : Context) (key value : String) : Context :=
  { ctx with metadata := ctx.metadata.insert key value }

def child (ctx : Context) (c : Cancellation) : Cancellation × Context :=
  let (c, token) := c.child ctx.token
  (c, { ctx with token })

def remaining (ctx : Context) (now : Instant) : Option Duration := ctx.deadline.map (· - now)

def isOverdue (ctx : Context) (now : Instant) : Bool :=
  match ctx.deadline with
  | some t => t ≤ now
  | none => false

/-- Why a call in this context may not go on. Waiting for the end of a context gives one of these. -/
def endings (ctx : Context) (c : Cancellation) (now : Instant) : List CallError :=
  (if c.isCancelled ctx.token then [.cancelled] else []) ++
    (if ctx.isOverdue now then [.deadlineExceeded] else [])

def check (ctx : Context) (c : Cancellation) (now : Instant) : Except CallError Unit :=
  match ctx.endings c now with
  | e :: _ => .error e
  | [] => .ok ()

end Context
end Switchboard.Client
