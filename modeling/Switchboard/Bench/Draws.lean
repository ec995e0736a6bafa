import Switchboard.Client.Strategy

/-! What can be said of the nodes that a strategy gives, wherever it began. -/
namespace Switchboard.Bench

open Client Discovery

/-- The places that attempts went to, in order. -/
abbrev Draws := List String

namespace Draws

def place (n : Node) : String := n.id ++ "@" ++ n.address

def ofNext (next : Next) (n : Nat) : Draws :=
  (List.range n).map fun k => match next k with
    | .ok n => place n
    | .error e => e.kind

/-- The first draws, turned so that they come first in the order of texts. -/
def cycle (d : Draws) (length : Nat) : Draws :=
  let first := d.take length
  ((List.range length).map fun k => first.drop k ++ first.take k).foldl (fun a b => if b < a then b else a) first

/-- Whether the first draws come again and again. -/
def isPeriodic (d : Draws) (length : Nat) : Bool :=
  (List.range d.length).all fun k => d[k]? == (d.take length)[k % length]?

end Draws
end Switchboard.Bench
