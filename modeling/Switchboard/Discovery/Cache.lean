import Switchboard.Discovery.Catalog

/-! Services looked up in a registry and kept for a while, with registry changes folded into them. -/
namespace Switchboard.Discovery

structure Entry where
  services : List Service
  expires : Instant
deriving DecidableEq

def Entry.isValid (e : Entry) (now : Instant) : Bool := !e.services.isEmpty && now < e.expires

/-- While `status` holds an error of the registry no entry is removed, only made to expire. Fetches in
flight are known by their tickets. -/
structure Cache where
  ttl : Duration
  status : Option Error := none
  entries : Dict Entry := .empty
  watched : List String := []
  inFlight : Dict Nat := .empty
  nextTicket : Nat := 0
  stopped : Bool := false

/-- How a lookup goes on: from memory, with a fetch under way, or with a fetch of its own. -/
inductive Lookup
  | hit (services : List Service)
  | join (ticket : Nat)
  | start (ticket : Nat)

namespace Cache

def defaultTtl : Duration := Duration.seconds 60

def name : String := "cache"

def valid? (c : Cache) (now : Instant) (name : String) : Option (List Service) :=
  match c.entries.get? name with
  | some e => if e.isValid now then some e.services else none
  | none => none

def look (c : Cache) (now : Instant) (name : String) : Cache × Lookup :=
  match c.valid? now name with
  | some services => (c, .hit services)
  | none =>
    match c.inFlight.get? name with
    | some t => (c, .join t)
    | none =>
      ({ c with inFlight := c.inFlight.insert name c.nextTicket, nextTicket := c.nextTicket + 1 },
        .start c.nextTicket)

def store (c : Cache) (now : Instant) (name : String) (services : List Service) : Cache :=
  { c with entries := c.entries.insert name ⟨services, now + c.ttl⟩ }

def drop (c : Cache) (now : Instant) (name : String) : Cache :=
  match c.status with
  | some _ => { c with entries := c.entries.modify name fun e => { e with expires := now } }
  | none => { c with entries := c.entries.erase name }

/-- The newcomer with the old nodes that it does not mention, each id once. -/
def mergeNodes (incoming old : List Node) : List Node :=
  old.foldl (fun ns n => if Record.hasId ns n then ns else ns ++ [n]) incoming

/-- Replaces the first service of the newcomer's version, or adds the newcomer at the end. -/
def mergeService (incoming : Service) : List Service → List Service
  | [] => [incoming]
  | s :: ss =>
    if s.version = incoming.version then
      { incoming with nodes := mergeNodes incoming.nodes s.nodes } :: ss
    else s :: mergeService incoming ss

/-- Takes nodes away from the first service of a version, and the service when none is left. -/
def removeService (outgoing : Service) : List Service → List Service
  | [] => []
  | s :: ss =>
    if s.version = outgoing.version then
      let ns := s.nodes.filter fun n => !Record.hasId outgoing.nodes n
      if ns.isEmpty then ss else { s with nodes := ns } :: ss
    else s :: removeService outgoing ss

/-- Folds a change into the entry of its service, if the service is watched and was looked up. -/
def fold (c : Cache) (now : Instant) (change : Change) : Cache :=
  let s := change.service
  if !c.watched.contains s.name then c
  else match c.entries.get? s.name with
    | none => c
    | some e =>
      if s.nodes.isEmpty then
        if change.kind = .delete then c.drop now s.name else c
      else match change.kind with
        | .delete =>
          if !e.services.any (·.version == s.version) then c
          else match removeService s e.services with
            | [] => c.drop now s.name
            | ss => c.store now s.name ss
        | _ => c.store now s.name (mergeService s e.services)

/-- A change that a watcher received shows that the registry is there again. -/
def receive (c : Cache) (now : Instant) (change : Change) : Cache :=
  { c with status := none }.fold now change

def fail (c : Cache) (e : Error) : Cache := { c with status := some e }

def unwatch (c : Cache) (name : String) : Cache :=
  { c with watched := c.watched.filter (· != name) }

/-- Whether a successful fetch of this name starts a watcher. -/
def wantsWatcher (c : Cache) (name : String) : Bool := !c.stopped && !c.watched.contains name

/-- Ends a fetch with the registry's answer: what every caller gets. After a failure the last known
services are given out, however old. -/
def settle (c : Cache) (now : Instant) (name : String) (answer : Except Error (List Service)) :
    Cache × Except Error (List Service) :=
  let c := { c with inFlight := c.inFlight.erase name }
  match answer with
  | .ok services =>
    let c := { c with status := none }.store now name services
    (if c.wantsWatcher name then { c with watched := c.watched ++ [name] } else c, .ok services)
  | .error e =>
    match c.entries.get? name with
    | some entry => if entry.services.isEmpty then (c, .error e) else (c.fail e, .ok entry.services)
    | none => (c, .error e)

def stop (c : Cache) : Cache := { c with stopped := true }

end Cache
end Switchboard.Discovery
