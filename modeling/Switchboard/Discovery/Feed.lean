import Switchboard.Discovery.Change

/-! The stream of published changes, of which the latest few are kept, and readers with a place in it. -/
namespace Switchboard.Discovery

/-- The kept changes are numbered from `first` on. -/
structure Feed where
  first : Nat := 0
  kept : List Change := []
  ended : Bool := false

/-- A reader of the changes of one service, or of all. -/
structure Watcher where
  service : Option String
  next : Nat
  stopped : Bool := false

/-- What a reader finds. -/
inductive Reading
  | change (c : Change)
  | pending
  | stopped

namespace Feed

def capacity : Nat := 128

/-- How many changes were ever published. -/
def published (f : Feed) : Nat := f.first + f.kept.length

def publish (f : Feed) (c : Change) : Feed :=
  let kept := f.kept ++ [c]
  let excess := kept.length - capacity
  { f with first := f.first + excess, kept := kept.drop excess }

def finish (f : Feed) : Feed := { f with ended := true }

/-- A new reader sees what is published from now on. -/
def subscribe (f : Feed) (service : Option String) : Watcher := ⟨service, f.published, false⟩

end Feed

namespace Watcher

def wants (service : Option String) (name : String) : Bool :=
  match service with
  | some s => s == name
  | none => true

/-- The first change that the reader wants, and how many changes it has then passed. -/
def scan (service : Option String) : List Change → Option Change × Nat
  | [] => (none, 0)
  | c :: cs =>
    if wants service c.service.name then (some c, 1)
    else
      let (found, n) := scan service cs
      (found, n + 1)

/-- A reader that has fallen behind goes on with the oldest change kept. -/
def poll (w : Watcher) (f : Feed) : Watcher × Reading :=
  if w.stopped then (w, .stopped)
  else
    let start := max w.next f.first
    let (found, n) := scan w.service (f.kept.drop (start - f.first))
    match found with
    | some c => ({ w with next := start + n }, .change c)
    | none =>
      if f.ended then ({ w with next := start + n, stopped := true }, .stopped)
      else ({ w with next := start + n }, .pending)

def stop (w : Watcher) : Watcher := { w with stopped := true }

end Watcher
end Switchboard.Discovery
