import Switchboard.Client.Context

/-! Contexts on a clock that moves only when everything waits, with cancellations that are still to come. -/
namespace Switchboard.Bench

open Client Rpc

structure Contexts where
  now : Instant := 0
  cancellation : Cancellation := {}
  coming : List (Instant × Token) := []

namespace Contexts

def concerns (t : Token) (c : Instant × Token) : Bool := (t.own :: t.ancestors).contains c.2.own

/-- When the next cancellation comes, of a token or of one that it descends from. -/
def cancelTime? (c : Contexts) (t : Token) : Option Instant := ((c.coming.filter (concerns t)).map (·.1)).min?

/-- Carries out the cancellations that are due. -/
def settle (c : Contexts) : Contexts := { c with
  cancellation := (c.coming.filter (·.1 ≤ c.now)).foldl (fun s x => s.cancel x.2) c.cancellation
  coming := c.coming.filter (c.now < ·.1) }

def moveTo (c : Contexts) (t : Instant) : Contexts := { c with now := t }

def advance (c : Contexts) (d : Duration) : Contexts := (c.moveTo (c.now + d)).settle

def cancelLater (c : Contexts) (ctx : Context) (d : Duration) : Contexts :=
  { c with coming := c.coming ++ [(c.now + d, ctx.token)] }

def isSooner (t : Instant) (u : Option Instant) : Bool := u.all (t ≤ ·)

/-- Waits for the end of a context, by its deadline too or by cancellation alone. -/
def wait (c : Contexts) (ctx : Context) (limit : Duration) (heedsDeadline : Bool) : Contexts × Option CallError :=
  let ctx := if heedsDeadline then ctx else { ctx with deadline := none }
  match ctx.endings c.cancellation c.now with
  | e :: _ => (c.settle, some e)
  | [] =>
    let last := c.now + limit
    let cancel := c.cancelTime? ctx.token
    match ctx.deadline with
    | some t =>
      if t ≤ last && isSooner t cancel then ((c.moveTo t).settle, some .deadlineExceeded)
      else if isSooner last cancel then ((c.moveTo last).settle, none)
      else ((c.moveTo (cancel.getD last)).settle, some .cancelled)
    | none =>
      if isSooner last cancel then ((c.moveTo last).settle, none)
      else ((c.moveTo (cancel.getD last)).settle, some .cancelled)

end Contexts
end Switchboard.Bench
